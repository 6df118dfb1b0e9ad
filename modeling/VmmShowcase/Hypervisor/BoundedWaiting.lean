import VmmShowcase.Hypervisor.Accounting
import VmmShowcase.Hypervisor.Dispatches
import VmmShowcase.Hypervisor.Ownership
import VmmShowcase.Scheduler.Turns

/-! # How long a machine waits

Under a scheduler that gives turns a live machine waits for no more rounds than there are turns in front
of it, and while it waits no other machine retires more than its turns' slices: what is still owed to
machine `j` before machine `i` drops by one slice with each dispatch of `j`. So it waits for less than one
round of picks under round robin and for less than three under MLFQ. A machine that migrates is one of
them: its pre-copy slices retire nothing, however often the transport refuses it. -/

namespace VmmShowcase

namespace VirtualMachine

/-- A dispatch retires no more than one slice, also when it migrates the machine. -/
theorem AfterDispatch.pc_le {vm vm' : VirtualMachine} (h : AfterDispatch vm vm')
    (hpending : vm.pendingMigrationTarget = none) :
    vm'.cpu.pc.toNat ≤ vm.cpu.pc.toNat + vm.config.execSlice := by
  have hslice {u : VirtualMachine} {r : Nat}
      (hrun : vm.runForSlice vm.config.execSlice = some (r, u)) :
      u.cpu.pc.toNat ≤ vm.cpu.pc.toNat + vm.config.execSlice := by
    by_cases hdone : vm.status.Done
    · rw [runForSlice_of_done hdone] at hrun
      cases hrun
      omega
    · have hstop := preciseStop_of_runForSlice hdone hrun
      have := hstop.pc_eq
      have := hstop.le_budget
      omega
  cases h with
  | slice hrun => exact hslice hrun
  | migration hmigration =>
      obtain ⟨h₁, hsome, h₂, h₃⟩ := hmigration
      obtain ⟨-, -, hstays⟩ := blocked_of_pending hpending h₁ hsome
      -- the pre-copy slices execute the same `MIGRATE` again
      rw [hstays (by omega)] at h₂
      cases h₂
      rw [hstays (by omega)] at h₃
      cases h₃
      exact (hslice h₁ :)

end VirtualMachine

namespace HypervisorCore

variable {τ : Type} {transport : Transport τ}

/-- The loop of `Run` up to the next pick of machine `i`. -/
def waitFor (transport : Transport τ) (i : Nat) (core : HypervisorCore τ) :
    LoopStep (HypervisorCore τ) :=
  if core.pick.1 = i then .exit core else body transport core

section Turns

variable {n most : Nat} {ok : Scheduler → List VmStatus × List Int → Prop}
  {turns : Scheduler → Nat → Nat → Nat}

/-- A head of the loop with `n` machines whose slices have defined behaviour and of which none asks for
a migration, under a scheduler that is `ok`. -/
structure TakesTurns (n : Nat) (ok : Scheduler → List VmStatus × List Int → Prop)
    (core : HypervisorCore τ) : Prop where
  length_eq : core.vms.length = n
  ok : ok core.scheduler (core.statuses, core.priorities)
  pending : ∀ vm ∈ core.vms, vm.pendingMigrationTarget = none
  registers : ∀ vm ∈ core.vms, vm.program.RegistersInRange

/-- An iteration keeps the machines taking turns. -/
theorem TakesTurns.turn (hturns : GivesTurns (Finset.range n) most Scheduler.serve
      (fun seen => Live seen.1) (Scheduler.Later n) ok turns)
    {core core' : HypervisorCore τ} (h : TakesTurns n ok core) (hturn : core.Turn core') :
    TakesTurns n ok core' := by
  have hlength : core'.vms.length = n := by
    cases hturn with
    | skip => exact h.length_eq
    | dispatch _ _ _ hdispatched => exact hdispatched.length_eq.trans h.length_eq
  -- a machine that is skipped is not picked while another one is live
  have hpicked : Live core.statuses core.pick.1 := by
    cases hturn with
    | @skip vm hvm hlive _ =>
        obtain ⟨i, hi⟩ := List.getElem?_of_mem hvm
        exact (hturns.serves h.ok (live_statuses_iff.mpr ⟨vm, hi, hlive⟩)).2
    | @dispatch vm _ _ hvm hlive => exact live_statuses_iff.mpr ⟨vm, hvm, hlive⟩
  refine ⟨hlength, ?_, ?_, ?_⟩
  · rw [hturn.scheduler_eq]
    refine hturns.keeps h.ok hpicked ⟨?_, fun j hj => hturn.live hj⟩
    rw [statuses, List.length_map, hlength]
  · exact hturn.forall_vms (fun vm => vm.pendingMigrationTarget = none)
      (fun _ _ _ hafter => hafter.pending) h.pending
  · refine hturn.forall_vms (fun vm => vm.program.RegistersInRange) ?_ h.registers
    intro vm vm' hvm hafter
    rwa [hafter.sameProgram.program_eq]

/-- New machines take turns under a scheduler that is `ok` with them. -/
theorem takesTurns_newCore {machines : List (VmConfig × Program)} {scheduler : Scheduler} (t : τ)
    (hok : ok scheduler ((newCore machines scheduler t).statuses, (newCore machines scheduler t).priorities))
    (hregs : ∀ p ∈ machines, p.2.RegistersInRange) :
    TakesTurns machines.length ok (newCore machines scheduler t) := by
  refine ⟨List.length_map _, hok, ?_, ?_⟩
  · intro vm hvm
    obtain ⟨p, -, rfl⟩ := List.mem_map.mp hvm
    rfl
  · intro vm hvm
    obtain ⟨p, hp, rfl⟩ := List.mem_map.mp hvm
    exact hregs p hp

/-- Machines take turns at every head that is reached. -/
theorem TakesTurns.reaches (hturns : GivesTurns (Finset.range n) most Scheduler.serve
      (fun seen => Live seen.1) (Scheduler.Later n) ok turns)
    {core core' : HypervisorCore τ} (h : TakesTurns n ok core)
    (hreach : Loop.Reaches (body transport) core core') : TakesTurns n ok core' :=
  hreach.invariant (TakesTurns n ok) (fun _ _ h hbody => h.turn hturns (turn_of_body hbody)) h

/-- The body of the loop has defined behaviour on machines that take turns. -/
theorem TakesTurns.body_ne_undefined {core : HypervisorCore τ} (h : TakesTurns n ok core) :
    body transport core ≠ .undefined :=
  body_ne_undefined_of_reaches h.registers .refl

/-- Machine `i` is live at `core` and was left alone since `core₀`, and what every machine retired in
between was owed to it for its turns. -/
structure Waiting (n : Nat) (ok : Scheduler → List VmStatus × List Int → Prop)
    (turns : Scheduler → Nat → Nat → Nat) (i : Nat) (core₀ core : HypervisorCore τ) : Prop where
  takesTurns : TakesTurns n ok core
  live : Live core.statuses i
  vm_eq : core.vms[i]? = core₀.vms[i]?
  retired : ∀ (j : Nat) (vm : VirtualMachine), core₀.vms[j]? = some vm →
    ∃ vm' : VirtualMachine, core.vms[j]? = some vm' ∧ vm'.config = vm.config
      ∧ vm'.cpu.pc.toNat + turns core.scheduler i j * vm.config.execSlice
        ≤ vm.cpu.pc.toNat + turns core₀.scheduler i j * vm.config.execSlice

/-- **What a round of waiting does.** A live machine other than `i` is dispatched, which uses up one of
its turns. -/
theorem Waiting.turn (hturns : GivesTurns (Finset.range n) most Scheduler.serve
      (fun seen => Live seen.1) (Scheduler.Later n) ok turns)
    {i : Nat} {core₀ core core' : HypervisorCore τ} (h : Waiting n ok turns i core₀ core)
    (hpick : core.pick.1 ≠ i) (hturn : core.Turn core') : Waiting n ok turns i core₀ core' := by
  -- the pick is another machine, so that one of its turns is used
  have huses := hturns.uses h.takesTurns.ok h.live hpick
  have hscheduler : core'.scheduler = (core.scheduler.serve (core.statuses, core.priorities)).2 :=
    hturn.scheduler_eq
  rw [← hscheduler] at huses
  have htakesTurns := h.takesTurns.turn hturns hturn
  cases hturn with
  | skip _ _ hdead => exact absurd (hturns.serves h.takesTurns.ok h.live).2 hdead
  | @dispatch vm vm' _ hvm hlive hafter hdispatched =>
      have hpc := hafter.pc_le (h.takesTurns.pending vm (List.mem_of_getElem? hvm))
      have hvms : core'.vms = core.vms.set core.pick.1 vm' := hdispatched.vms_eq
      have hvm_eq : core'.vms[i]? = core.vms[i]? := by rw [hvms, List.getElem?_set_ne hpick]
      refine ⟨htakesTurns, ?_, hvm_eq.trans h.vm_eq, fun j u hu => ?_⟩
      · rw [live_statuses_iff, hvm_eq, ← live_statuses_iff]
        exact h.live
      obtain ⟨u', hu', hconfig, hle⟩ := h.retired j u hu
      have hj := (List.getElem?_eq_some_iff.mp hu').1
      have hused : turns core'.scheduler i j + (if core.pick.1 = j then 1 else 0)
          ≤ turns core.scheduler i j := huses j (Finset.mem_range.mpr (h.takesTurns.length_eq ▸ hj))
      by_cases hne : core.pick.1 = j
      · subst hne
        rw [hvm, Option.some.injEq] at hu'
        subst hu'
        refine ⟨vm', by rw [hvms, List.getElem?_set_self hj], hafter.sameProgram.config_eq.trans hconfig, ?_⟩
        -- the slice that was retired is owed no more
        have howed := Nat.mul_le_mul_right u.config.execSlice hused
        rw [if_pos rfl, Nat.add_mul, Nat.one_mul] at howed
        rw [hconfig] at hpc
        omega
      · refine ⟨u', by rw [hvms, List.getElem?_set_ne hne, hu'], hconfig, ?_⟩
        have howed := Nat.mul_le_mul_right u.config.execSlice (Nat.le_of_add_right_le hused)
        omega

/-- The turns in front of machine `i`. -/
def turnsInFront (n : Nat) (turns : Scheduler → Nat → Nat → Nat) (i : Nat) (core : HypervisorCore τ) : Nat :=
  ∑ j ∈ Finset.range n, turns core.scheduler i j

/-- An iteration leaves fewer turns in front of a live machine that is not picked. -/
theorem TakesTurns.turnsInFront_lt (hturns : GivesTurns (Finset.range n) most Scheduler.serve
      (fun seen => Live seen.1) (Scheduler.Later n) ok turns)
    {core core' : HypervisorCore τ} (h : TakesTurns n ok core) {i : Nat} (hlive : Live core.statuses i)
    (hpick : core.pick.1 ≠ i) (hturn : core.Turn core') :
    turnsInFront n turns i core' < turnsInFront n turns i core := by
  have hscheduler : core'.scheduler = (core.scheduler.serve (core.statuses, core.priorities)).2 :=
    hturn.scheduler_eq
  have hlt := hturns.sum_turns_lt h.ok hlive hpick
  rw [← hscheduler] at hlt
  exact hlt

/-- Machine `i` is picked, or the loop goes round and machine `i` waits on, with fewer turns in front of
it. -/
theorem Waiting.next (hturns : GivesTurns (Finset.range n) most Scheduler.serve
      (fun seen => Live seen.1) (Scheduler.Later n) ok turns)
    {i : Nat} {core₀ core : HypervisorCore τ} (h : Waiting n ok turns i core₀ core) :
    (∃ core', waitFor transport i core = .exit core')
      ∨ ∃ core', waitFor transport i core = .next core' ∧ Waiting n ok turns i core₀ core'
        ∧ turnsInFront n turns i core' < turnsInFront n turns i core := by
  by_cases hpick : core.pick.1 = i
  · exact .inl ⟨core, by rw [waitFor, if_pos hpick]⟩
  refine .inr ?_
  rw [waitFor, if_neg hpick]
  cases hbody : body transport core with
  | exit core' =>
      -- machine `i` is live
      obtain ⟨vm, hvm, hlive⟩ := live_statuses_iff.mp h.live
      obtain ⟨-, hdone⟩ := body_eq_exit_iff.mp hbody
      exact absurd (hdone vm (List.mem_of_getElem? hvm)) hlive
  | undefined => exact absurd hbody h.takesTurns.body_ne_undefined
  | next core' =>
      have hturn := turn_of_body hbody
      exact ⟨core', rfl, h.turn hturns hpick hturn,
        h.takesTurns.turnsInFront_lt hturns h.live hpick hturn⟩

/-- **A live machine has its turn** after fewer rounds than the turns that all others can have; meanwhile
it is left alone, and each of the others retires at most the slices of its turns. -/
theorem TakesTurns.exists_pick (hturns : GivesTurns (Finset.range n) most Scheduler.serve
      (fun seen => Live seen.1) (Scheduler.Later n) ok turns)
    {core : HypervisorCore τ} (h : TakesTurns n ok core) (transport : Transport τ) {i : Nat}
    (hlive : Live core.statuses i) :
    ∃ core', Loop.runFor (waitFor transport i) (most * (n - 1) + 1) core = some core'
      ∧ core'.pick.1 = i ∧ core'.vms[i]? = core.vms[i]?
      ∧ ∀ (j : Nat) (vm : VirtualMachine), core.vms[j]? = some vm →
        ∃ vm' : VirtualMachine, core'.vms[j]? = some vm'
          ∧ vm'.cpu.pc.toNat ≤ vm.cpu.pc.toNat + most * vm.config.execSlice := by
  have hwaiting : Waiting n ok turns i core core :=
    ⟨h, hlive, rfl, fun j vm hvm => ⟨vm, hvm, rfl, Nat.le_refl _⟩⟩
  have hle : turnsInFront n turns i core ≤ most * (n - 1) := by
    have hsum := hturns.sum_turns_le h.ok (hturns.serves h.ok hlive).1
    rwa [Finset.card_range] at hsum
  obtain ⟨core', core'', hrun, hwaited, hexit⟩ := Loop.exists_runFor_of_measure (turnsInFront n turns i)
    (Waiting n ok turns i core) (fun _ h => h.next hturns) hwaiting (Nat.lt_succ_of_le hle)
  rw [waitFor] at hexit
  split at hexit
  · next hpick =>
      cases hexit
      refine ⟨_, hrun, hpick, hwaited.vm_eq, fun j vm hvm => ?_⟩
      obtain ⟨vm', hvm', -, hretired⟩ := hwaited.retired j vm hvm
      refine ⟨vm', hvm', ?_⟩
      have howed := Nat.mul_le_mul_right vm.config.execSlice (hturns.le_most h.ok i j)
      omega
  · -- machine `i` is live, so the loop is not left
    obtain ⟨vm, hvm, hlive'⟩ := live_statuses_iff.mp hwaited.live
    obtain ⟨-, hdone⟩ := body_eq_exit_iff.mp hexit
    exact absurd (hdone vm (List.mem_of_getElem? hvm)) hlive'

end Turns

/-- New machines take turns under round robin, whatever the cursor. -/
theorem takesTurns_roundRobin {machines : List (VmConfig × Program)}
    (hregs : ∀ p ∈ machines, p.2.RegistersInRange) (s : RoundRobinScheduler) (t : τ) :
    TakesTurns machines.length (Scheduler.RoundRobin machines.length)
      (newCore machines (.roundRobin s) t) := by
  refine takesTurns_newCore t ⟨?_, s, rfl⟩ hregs
  rw [statuses, newCore, List.length_map, List.length_map]

/-- New machines take turns under a new MLFQ scheduler. -/
theorem takesTurns_mlfq {machines : List (VmConfig × Program)}
    (hregs : ∀ p ∈ machines, p.2.RegistersInRange) (t : τ) :
    TakesTurns machines.length (Scheduler.Mlfq machines.length) (newCore machines (.mlfq {}) t) := by
  have hbalanced := MlfqScheduler.balanced_rebuildQueues machines.length
  have hlength : (newCore machines (.mlfq {}) t).statuses.length = machines.length := by
    rw [statuses, newCore, List.length_map, List.length_map]
  exact takesTurns_newCore t ⟨hlength, {}, _, rfl, hbalanced.nodup,
    fun j hj => hbalanced.complete j (hlength ▸ hj.lt), hbalanced.shape⟩ hregs

/-- **Bounded waiting.** Under round robin, from any cursor, with any transport, and for programs that
may migrate, a machine that is live at a head of the loop of `Run` is picked after fewer rounds than
there are machines; meanwhile it is left alone, and each of the others retires at most one slice. Signed
arithmetic wraps, the least number divided by -1 too: on a host where that division traps, a machine that
comes to it ends the loop. -/
theorem waiting_bounded (machines : List (VmConfig × Program)) (s : RoundRobinScheduler) (t : τ)
    (transport : Transport τ) (hregs : ∀ p ∈ machines, p.2.RegistersInRange)
    {core : HypervisorCore τ} (hreach : Loop.Reaches (body transport)
      { vms := machines.map fun p => .create p.1 p.2, scheduler := .roundRobin s, transport := t } core)
    {i : Nat} (hlive : Live core.statuses i) :
    ∃ core', Loop.runFor (waitFor transport i) machines.length core = some core'
      ∧ core'.pick.1 = i ∧ core'.vms[i]? = core.vms[i]?
      ∧ ∀ (j : Nat) (vm : VirtualMachine), core.vms[j]? = some vm →
        ∃ vm' : VirtualMachine, core'.vms[j]? = some vm'
          ∧ vm'.cpu.pc.toNat ≤ vm.cpu.pc.toNat + vm.config.execSlice := by
  have hgives := Scheduler.givesTurns_roundRobin machines.length
  have hturns := (takesTurns_roundRobin hregs s t).reaches hgives hreach
  have hpos : 1 * (machines.length - 1) + 1 = machines.length := by
    have hlt := hlive.lt
    rw [statuses, List.length_map, hturns.length_eq] at hlt
    omega
  obtain ⟨core', hrun, hpick, hleft, hretired⟩ := hturns.exists_pick hgives transport hlive
  rw [hpos] at hrun
  refine ⟨core', hrun, hpick, hleft, fun j vm hvm => ?_⟩
  obtain ⟨vm', hvm', hle⟩ := hretired j vm hvm
  exact ⟨vm', hvm', by rwa [Nat.one_mul] at hle⟩

/-- A machine that stores a word, and one that migrates. -/
def twoMachines : List (VmConfig × Program) :=
  [({ name := [0x61], execSlice := 2, memoryBytes := 16 }, VirtualMachine.storeAndLoad),
    ({ name := [0x62] }, migratingProgram)]

/-- Where the cursor stands before the machine that migrates, the other one waits for it. -/
theorem waiting_bounded_twoMachines : ∃ core' : HypervisorCore Unit,
    Loop.runFor (waitFor acceptingTransport 0) 2
        { vms := twoMachines.map fun p => .create p.1 p.2, scheduler := .roundRobin { cursor := 1 }
          transport := () } = some core'
      ∧ core'.pick.1 = 0 := by
  have hlive : Live [.ready, .ready] 0 := by decide
  obtain ⟨core', hrun, hpick, -⟩ := waiting_bounded twoMachines { cursor := 1 } () acceptingTransport
    (by decide) .refl hlive
  exact ⟨core', hrun, hpick⟩

/-- **Bounded waiting under MLFQ.** With a new MLFQ scheduler, any transport, and programs that may
migrate, a machine that is live at a head of the loop of `Run` is picked after at most three rounds for
each of the others; meanwhile it is left alone, and each of the others retires at most three slices.
Signed arithmetic wraps, the least number divided by -1 too. -/
theorem waiting_bounded_mlfq (machines : List (VmConfig × Program)) (t : τ) (transport : Transport τ)
    (hregs : ∀ p ∈ machines, p.2.RegistersInRange) {core : HypervisorCore τ}
    (hreach : Loop.Reaches (body transport) (newCore machines (.mlfq {}) t) core)
    {i : Nat} (hlive : Live core.statuses i) :
    ∃ core', Loop.runFor (waitFor transport i) (3 * (machines.length - 1) + 1) core = some core'
      ∧ core'.pick.1 = i ∧ core'.vms[i]? = core.vms[i]?
      ∧ ∀ (j : Nat) (vm : VirtualMachine), core.vms[j]? = some vm →
        ∃ vm' : VirtualMachine, core'.vms[j]? = some vm'
          ∧ vm'.cpu.pc.toNat ≤ vm.cpu.pc.toNat + 3 * vm.config.execSlice := by
  have hgives := Scheduler.givesTurns_mlfq machines.length
  exact ((takesTurns_mlfq hregs t).reaches hgives hreach).exists_pick hgives transport hlive

/-- The machine that migrates waits for the other one. -/
theorem waiting_bounded_mlfq_twoMachines : ∃ core' : HypervisorCore Unit,
    Loop.runFor (waitFor acceptingTransport 1) (3 * (2 - 1) + 1) (newCore twoMachines (.mlfq {}) ())
        = some core'
      ∧ core'.pick.1 = 1 := by
  have hlive : Live [.ready, .ready] 1 := by decide
  obtain ⟨core', hrun, hpick, -⟩ := waiting_bounded_mlfq twoMachines () acceptingTransport
    (by decide) .refl hlive
  exact ⟨core', hrun, hpick⟩

end HypervisorCore

end VmmShowcase
