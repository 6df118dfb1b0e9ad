import Mathlib.Algebra.BigOperators.Group.List.Basic
import VmmShowcase.Hypervisor.Iteration
import VmmShowcase.Scheduler.Fairness

/-! # When `Run` returns

The loop of `Run` ends when every machine is halted or faulted. If every machine finishes it does
end, under all three schedulers: each dispatch uses up part of a program, and an iteration that
dispatches nothing leaves MLFQ queues that are no longer stale. If one machine comes to a `MIGRATE`
the loop never ends, whatever the transport answers, because that machine is never halted or
faulted. Under the priority scheduler it also goes round for ever while the only live machines have a
priority that is not above the one `PickNext` starts from, and machine 0 is not one of them. -/

namespace VmmShowcase

namespace HypervisorCore

open VirtualMachine (AfterDispatch WillStop)

variable {τ : Type} {transport : Transport τ}

/-! ## Termination -/

/-- Every machine will stop and has a nonempty slice, and the priority scheduler can see it. -/
structure Terminating (core : HypervisorCore τ) : Prop where
  willStop : ∀ vm ∈ core.vms, vm.WillStop
  slice : ∀ vm ∈ core.vms, 1 ≤ vm.config.execSlice
  above : core.scheduler = .priority → ∀ vm ∈ core.vms, -1000000 < vm.config.priority

/-- What the machines have left to do, and whether the scheduler has to rebuild its queues before
anything is dispatched. -/
def potential (core : HypervisorCore τ) : Nat :=
  2 * (core.vms.map VirtualMachine.weight).sum + core.scheduler.stale core.statuses

/-- A pick keeps the kind of scheduler. -/
theorem pick_eq_priority_iff {core : HypervisorCore τ} :
    core.pick.2 = .priority ↔ core.scheduler = .priority := by
  rw [pick]
  cases core.scheduler <;> simp [Scheduler.pickNext]

/-- An iteration keeps the kind of scheduler. -/
theorem Turn.scheduler_eq {core core' : HypervisorCore τ} (h : core.Turn core') :
    core'.scheduler = core.pick.2 := by
  cases h with
  | skip => rfl
  | dispatch _ _ _ hdispatched => exact hdispatched.scheduler_eq

/-- An iteration keeps the priorities above the start value of the priority scheduler. -/
theorem Turn.above {core core' : HypervisorCore τ} (hturn : core.Turn core')
    (h : core.scheduler = .priority → ∀ vm ∈ core.vms, -1000000 < vm.config.priority)
    (hpriority : core'.scheduler = .priority) : ∀ vm ∈ core'.vms, -1000000 < vm.config.priority := by
  rw [hturn.scheduler_eq, pick_eq_priority_iff] at hpriority
  refine hturn.forall_vms (fun vm => -1000000 < vm.config.priority) ?_ (h hpriority)
  intro vm vm' hvm hafter
  rwa [hafter.sameProgram.config_eq]

/-- An iteration keeps a terminating core terminating. -/
theorem Terminating.turn {core core' : HypervisorCore τ} (h : core.Terminating)
    (hturn : core.Turn core') : core'.Terminating := by
  refine ⟨?_, ?_, hturn.above h.above⟩
  · exact hturn.forall_vms WillStop (fun _ _ hvm hafter => hafter.willStop_iff.mpr hvm) h.willStop
  · refine hturn.forall_vms (fun vm => 1 ≤ vm.config.execSlice) ?_ h.slice
    intro vm vm' hvm hafter
    rwa [hafter.sameProgram.config_eq]

/-- An iteration that skips finds stale MLFQ queues and rebuilds them. -/
theorem Terminating.potential_skip {core : HypervisorCore τ} (h : core.Terminating)
    {vm : VirtualMachine} (hvm : vm ∈ core.vms) (hlive : ¬ vm.status.Done)
    (hdead : ¬ Live core.statuses core.pick.1) :
    potential { core with scheduler := core.pick.2 } < core.potential := by
  obtain ⟨i, hi⟩ := List.getElem?_of_mem hvm
  have hlive' : Live core.statuses i := live_statuses_iff.mpr ⟨vm, hi, hlive⟩
  have hpriority : core.scheduler = .priority →
      ∃ priority, core.priorities[i]? = some priority ∧ -1000000 < priority := by
    intro hscheduler
    refine ⟨vm.config.priority, ?_, h.above hscheduler vm hvm⟩
    rw [priorities, List.getElem?_map, hi, Option.map_some]
  rcases Scheduler.pick_live_or_stale hlive' hpriority with hpick | ⟨hstale, hfresh⟩
  · exact absurd hpick hdead
  · have hfresh' : core.pick.2.stale core.statuses = 0 := hfresh
    show 2 * (core.vms.map VirtualMachine.weight).sum + core.pick.2.stale core.statuses
      < 2 * (core.vms.map VirtualMachine.weight).sum + core.scheduler.stale core.statuses
    omega

/-- An iteration that dispatches lowers what is left to do. -/
theorem Terminating.potential_dispatch {core core' : HypervisorCore τ} (h : core.Terminating)
    {idx : Nat} {vm vm' : VirtualMachine} (hvm : core.vms[idx]? = some vm)
    (hlive : ¬ vm.status.Done) (hafter : AfterDispatch vm vm')
    (hdispatched : Dispatched { core with scheduler := core.pick.2 } idx vm vm' core') :
    core'.potential < core.potential := by
  have hmem := List.mem_of_getElem? hvm
  have hweight := hafter.weight_lt hlive (h.willStop vm hmem) (h.slice vm hmem)
  have hsum := sum_map_set VirtualMachine.weight vm' hvm
  have hstale := core'.scheduler.stale_le_one core'.statuses
  rw [potential, hdispatched.vms_eq, potential]
  -- the queues may have become stale, which costs less than what the dispatch gained
  show 2 * ((core.vms.set idx vm').map VirtualMachine.weight).sum + _ < _
  omega

/-- **Machines that will stop are all stopped.** `Run` returns if every machine is halted or
faulted, or will be. -/
theorem Terminating.exists_run {core : HypervisorCore τ} (h : core.Terminating)
    (transport : Transport τ) :
    ∃ core', Run transport core core' := by
  refine Loop.terminates_of_measure potential Terminating ?_ h
  intro core h
  by_cases hdone : ∀ vm ∈ core.vms, vm.status.Done
  · exact .inl ⟨core, body_eq_exit_iff.mpr ⟨rfl, hdone⟩⟩
  refine .inr ?_
  simp only [not_forall] at hdone
  obtain ⟨vm, hvm, hlive⟩ := hdone
  rcases body_cases transport hvm hlive with ⟨hdead, hbody⟩ | ⟨u, hu, hulive, hbody⟩
  · exact ⟨_, hbody, h.turn (turn_of_body hbody), h.potential_skip hvm hlive hdead⟩
  · obtain ⟨core', hdispatch⟩ := exists_dispatch transport WillStop
      (fun _ k hvm => hvm.exists_runForSlice k) (h.willStop u (List.mem_of_getElem? hu))
      { core with scheduler := core.pick.2 } core.pick.1
    rw [hdispatch] at hbody
    obtain ⟨vm', hafter, hdispatched⟩ := dispatched_of_dispatch hdispatch
    exact ⟨core', hbody, h.turn (turn_of_body hbody),
      h.potential_dispatch hu hulive hafter hdispatched⟩

/-! ## Non-termination -/

/-- A machine that comes to a `MIGRATE` keeps `Run` from returning. -/
theorem not_run_of_not_willStop {core : HypervisorCore τ} {vm : VirtualMachine}
    (hvm : vm ∈ core.vms) (hstuck : ¬ vm.WillStop) : ¬ ∃ core', Run transport core core' := by
  rintro ⟨core', hrun⟩
  obtain ⟨i, hi⟩ := List.getElem?_of_mem hvm
  -- the machine at this index is never halted or faulted
  refine Loop.not_terminates_of_invariant
    (fun core : HypervisorCore τ => ∃ vm, core.vms[i]? = some vm ∧ ¬ vm.WillStop) ?_ ?_
    ⟨vm, hi, hstuck⟩ hrun
  · rintro core core' ⟨vm, hvm, hstuck⟩ hbody
    cases turn_of_body hbody with
    | skip => exact ⟨vm, hvm, hstuck⟩
    | @dispatch u vm' _ hu _ hafter hdispatched =>
        rw [hdispatched.vms_eq]
        by_cases hidx : core.pick.1 = i
        · subst hidx
          rw [hvm, Option.some.injEq] at hu
          subst hu
          have hlt := (List.getElem?_eq_some_iff.mp hvm).1
          exact ⟨vm', List.getElem?_set_self hlt, hafter.willStop_iff.not.mpr hstuck⟩
        · exact ⟨vm, by rw [List.getElem?_set_ne hidx]; exact hvm, hstuck⟩
  · rintro core core' ⟨vm, hvm, hstuck⟩ hexit
    have hdone := (body_eq_exit_iff.mp hexit).2 vm (List.mem_of_getElem? hvm)
    exact hstuck (.inl hdone)

/-- **Termination with migration.** Under round robin, with nonempty slices and any transport, `Run`
returns exactly if every machine that is not halted or faulted comes to the end of its program, to a
`HALT` or to a fault before any `MIGRATE`. -/
theorem run_terminates_iff {core : HypervisorCore τ} {s : RoundRobinScheduler}
    (hscheduler : core.scheduler = .roundRobin s)
    (hslice : ∀ vm ∈ core.vms, 1 ≤ vm.config.execSlice) (transport : Transport τ) :
    (∃ core', Run transport core core') ↔ ∀ vm ∈ core.vms, vm.status.Done ∨ vm.Finishes := by
  constructor
  · intro hrun vm hvm
    by_contra hstuck
    exact not_run_of_not_willStop hvm hstuck hrun
  · intro hstop
    have hterminating : core.Terminating := ⟨hstop, hslice, by simp [hscheduler]⟩
    exact hterminating.exists_run transport

/-- A transport that accepts everything. -/
def acceptingTransport : Transport Unit where
  handshake := fun _ _ _ => (true, ())
  sendPacket := fun _ _ => (true, ())

/-- `MIGRATE h; halt`. -/
def migratingProgram : Program where
  insts := [{ opcode := .migrate, label := [0x68] }, { opcode := .halt }]
  size_lt := by decide

/-- A core under round robin with one new machine about to run `migratingProgram`. -/
def migratingCore : HypervisorCore Unit where
  vms := [VirtualMachine.create { name := [0x76, 0x6d] } migratingProgram]
  scheduler := .roundRobin {}
  transport := ()

/-- The theorem at the migrating core. -/
theorem run_terminates_iff_migratingCore :
    (∃ core', Run acceptingTransport migratingCore core')
      ↔ ∀ vm ∈ migratingCore.vms, vm.status.Done ∨ vm.Finishes :=
  run_terminates_iff rfl (by simp [migratingCore, VirtualMachine.create]) acceptingTransport

/-- A new machine whose program starts with a `MIGRATE` will not stop. -/
theorem not_willStop_create (config : VmConfig) :
    ¬ (VirtualMachine.create config migratingProgram).WillStop := by
  rintro (hdone | hfinishes)
  · exact absurd hdone (by show ¬ VmStatus.Done .ready; decide)
  · cases hfinishes with
    | ended hf => cases hf
    | stopped hf hop _ =>
        cases hf
        exact hop rfl
    | retired hf hexec _ =>
        cases hf
        cases hexec

/-- `Run` does not return for the migrating core: its machine executes the same `MIGRATE` for ever. -/
theorem migratingCore_not_run : ¬ ∃ core', Run acceptingTransport migratingCore core' :=
  not_run_of_not_willStop (List.mem_singleton.mpr rfl) (not_willStop_create _)

/-! ## Spinning -/

open PriorityScheduler (StrictChoice Visible)

/-- While a machine is live, the loop under the priority scheduler comes back to its head unchanged
exactly if the pick is not live; it then does so for ever. -/
theorem body_eq_next_self_iff {core : HypervisorCore τ} (hscheduler : core.scheduler = .priority)
    {i : Nat} (hi : Live core.statuses i) :
    body transport core = .next core
      ↔ ¬ Live core.statuses (PriorityScheduler.pickNext core.statuses core.priorities) := by
  obtain ⟨vm, hvm, hlive⟩ := live_statuses_iff.mp hi
  have hpick : core.pick
      = (PriorityScheduler.pickNext core.statuses core.priorities, Scheduler.priority) := by
    rw [pick, hscheduler]
    rfl
  have hself : { core with scheduler := core.pick.2 } = core := by rw [hpick, ← hscheduler]
  have hfst : core.pick.1 = PriorityScheduler.pickNext core.statuses core.priorities := by
    rw [hpick]
  rw [← hfst]
  constructor
  · intro hbody hpicked
    rcases cases_of_body hbody with ⟨-, -, -, hdead, -⟩ | ⟨u, hu, -, hd⟩
    · exact hdead hpicked
    · -- a dispatch is logged
      obtain ⟨u', -, hdispatched⟩ := dispatched_of_dispatch hd
      obtain ⟨events, hlog, -⟩ := hdispatched.log_eq
      have hlength := congrArg List.length hlog
      simp only [List.length_append, List.length_cons] at hlength
      omega
  · intro hdead
    rcases body_cases transport (List.mem_of_getElem? hvm) hlive with ⟨-, hbody⟩ | ⟨u, hu, hulive, -⟩
    · rw [hbody, hself]
    · exact absurd (live_statuses_iff.mpr ⟨u, hu, hulive⟩) hdead

/-- **When priority scheduling is strict.** While a machine is live, `PickNext` returns the lowest
index among the live machines of the highest priority exactly if one of them has a priority above the
start value -1000000, or machine 0 is among them. It returns a live machine exactly if one has a
priority above the start value or machine 0 is live, and otherwise `Run` goes round for ever. -/
theorem strictChoice_pickNext_iff {statuses : List VmStatus} {priorities : List Int}
    (hlive : ∃ i, Live statuses i) :
    (StrictChoice statuses priorities (PriorityScheduler.pickNext statuses priorities)
        ↔ Visible statuses priorities
          ∨ Live statuses 0 ∧ ∀ i, Live statuses i → ∀ priority ∈ priorities[i]?,
            ∀ first ∈ priorities[0]?, priority ≤ first)
      ∧ (Live statuses (PriorityScheduler.pickNext statuses priorities)
        ↔ Visible statuses priorities ∨ Live statuses 0)
      ∧ ∀ (τ : Type) (transport : Transport τ) (core : HypervisorCore τ),
        core.scheduler = .priority → core.statuses = statuses → core.priorities = priorities →
          (body transport core = .next core
            ↔ ¬ (Visible statuses priorities ∨ Live statuses 0)) := by
  obtain ⟨i, hi⟩ := hlive
  refine ⟨PriorityScheduler.strictChoice_pickNext_iff_cases, PriorityScheduler.live_pickNext_iff, ?_⟩
  rintro τ transport core hscheduler rfl rfl
  rw [body_eq_next_self_iff hscheduler hi, PriorityScheduler.live_pickNext_iff]

/-- The theorem at two machines of the priority that the scheduler starts from, the first one
halted. -/
theorem strictChoice_pickNext_iff_startValue :
    (StrictChoice [.halted, .ready] [0, -1000000]
        (PriorityScheduler.pickNext [.halted, .ready] [0, -1000000])
        ↔ Visible [.halted, .ready] [0, -1000000]
          ∨ Live [.halted, .ready] 0 ∧ ∀ i, Live [.halted, .ready] i →
            ∀ priority ∈ [0, (-1000000 : Int)][i]?, ∀ first ∈ [0, (-1000000 : Int)][0]?,
              priority ≤ first)
      ∧ (Live [.halted, .ready] (PriorityScheduler.pickNext [.halted, .ready] [0, -1000000])
        ↔ Visible [.halted, .ready] [0, -1000000] ∨ Live [.halted, .ready] 0)
      ∧ ∀ (τ : Type) (transport : Transport τ) (core : HypervisorCore τ),
        core.scheduler = .priority → core.statuses = [.halted, .ready] →
          core.priorities = [0, -1000000] →
          (body transport core = .next core
            ↔ ¬ (Visible [.halted, .ready] [0, -1000000] ∨ Live [.halted, .ready] 0)) :=
  strictChoice_pickNext_iff ⟨1, by decide⟩

/-- With the first of two machines halted, the second one is not picked at the start value. -/
theorem not_strictChoice_startValue :
    ¬ ∀ (statuses : List VmStatus) (priorities : List Int), statuses.length = priorities.length →
      (∃ i, Live statuses i) →
        StrictChoice statuses priorities (PriorityScheduler.pickNext statuses priorities) := by
  intro h
  have hstrict := h [.halted, .ready] [0, -1000000] rfl ⟨1, by decide⟩
  have hpick : PriorityScheduler.pickNext [.halted, .ready] [0, -1000000] = 0 := by decide
  rw [hpick] at hstrict
  exact absurd hstrict.live (by decide)

end HypervisorCore

end VmmShowcase
