import VmmShowcase.Hypervisor.Termination
import VmmShowcase.Vm.SnapshotRestore

/-! # The schedule does not show

For programs without `MIGRATE`, what `Run` makes of a machine does not depend on the scheduler, on
the slices, on the priorities or on the other machines: it is what one unbounded slice makes of that
machine alone. A slice keeps this outcome (`runForSlice_add`), so every interleaving of slices does,
and when `Run` returns every machine is its own outcome. -/

namespace VmmShowcase

namespace VirtualMachine

/-- A machine the core can run to its end: a program without `MIGRATE` whose register operands name
registers, a nonempty slice, and no migration pending. -/
structure Schedulable (vm : VirtualMachine) : Prop where
  registersInRange : vm.program.RegistersInRange
  migrateFree : vm.program.MigrateFree
  slice : 1 ≤ vm.config.execSlice
  pending : vm.pendingMigrationTarget = none

/-- Both machines are left the same by every slice that can reach the end of the program. -/
def SameOutcome (vm₀ vm : VirtualMachine) : Prop :=
  ∀ budget, vm₀.program.size ≤ budget →
    (vm.runForSlice budget).map Prod.snd = (vm₀.runForSlice budget).map Prod.snd

/-- `vm` is what one unbounded slice of `vm₀` alone leaves, and it is halted or faulted. -/
structure EndsAs (vm₀ vm : VirtualMachine) : Prop where
  done : vm.status.Done
  alone : ∀ budget, vm₀.program.size ≤ budget → ∃ r, vm₀.runForSlice budget = some (r, vm)

/-- No more remains of a program than all of it. -/
theorem remaining_le_size (vm : VirtualMachine) : vm.remaining ≤ vm.program.size :=
  Nat.sub_le _ _

/-- **A slice keeps the outcome.** -/
theorem sameOutcome_runForSlice {vm vm' : VirtualMachine} {k r : Nat}
    (h : vm.runForSlice k = some (r, vm')) : SameOutcome vm vm' := by
  intro budget hbudget
  have hprog := (sameProgram_runForSlice h).program_eq
  have hle := vm.remaining_le_size
  have hle' := vm'.remaining_le_size
  rw [hprog] at hle'
  -- one more instruction changes neither side and makes the second slice nonempty
  calc (vm'.runForSlice budget).map Prod.snd
      = (vm'.runForSlice (budget + 1)).map Prod.snd := by
        rw [vm'.runForSlice_saturate (m := budget) (n := budget + 1) (by omega) (by omega)]
    _ = (vm.runForSlice (k + (budget + 1))).map Prod.snd := by
        rw [vm.runForSlice_add (Nat.le_add_left 1 budget), h, Option.bind_some, Option.map_map]
        rfl
    _ = (vm.runForSlice budget).map Prod.snd := by
        rw [vm.runForSlice_saturate (m := k + (budget + 1)) (n := budget) (by omega) (by omega)]

/-- A slice of a program without `MIGRATE` leaves no migration pending. -/
theorem pending_runForSlice {vm vm' : VirtualMachine} {k r : Nat} (hfree : vm.program.MigrateFree)
    (hpending : vm.pendingMigrationTarget = none) (h : vm.runForSlice k = some (r, vm')) :
    vm'.pendingMigrationTarget = none := by
  by_contra hsome
  obtain ⟨-, ⟨inst, hmem, hop⟩, -⟩ := blocked_of_pending hpending h hsome
  exact hfree inst hmem hop

/-- A reachable machine whose program has no `MIGRATE` has no migration pending. -/
theorem Reachable.pending {vm : VirtualMachine} (h : Reachable vm)
    (hfree : vm.program.MigrateFree) : vm.pendingMigrationTarget = none := by
  induction h with
  | create => rfl
  | runForSlice _ hrun ih =>
      rw [(sameProgram_runForSlice hrun).program_eq] at hfree
      exact pending_runForSlice hfree (ih hfree) hrun
  | restore _ _ ih | readWord _ _ ih | writeWord _ _ _ ih | mapPage _ _ _ _ ih => exact ih hfree
  | clearMigrationIntent => rfl

/-- Reachable machines with a program without `MIGRATE` are schedulable. -/
theorem Reachable.schedulable {vm : VirtualMachine} (h : Reachable vm)
    (hregs : vm.program.RegistersInRange) (hfree : vm.program.MigrateFree)
    (hslice : 1 ≤ vm.config.execSlice) : vm.Schedulable :=
  ⟨hregs, hfree, hslice, h.pending hfree⟩

/-- `vm` is what dispatches have made of `vm₀` so far. -/
structure Descends (vm₀ vm : VirtualMachine) : Prop where
  schedulable : vm.Schedulable
  sameProgram : SameProgram vm₀ vm
  outcome : SameOutcome vm₀ vm

/-- A machine that is added descends from itself. -/
theorem Schedulable.descends {vm : VirtualMachine} (h : vm.Schedulable) : Descends vm vm :=
  ⟨h, ⟨rfl, rfl⟩, fun _ _ => rfl⟩

/-- A schedulable machine will stop. -/
theorem Schedulable.willStop {vm : VirtualMachine} (h : vm.Schedulable) : vm.WillStop :=
  .inr (finishes_of_migrateFree h.registersInRange h.migrateFree)

/-- A dispatch of a schedulable machine is one slice. -/
theorem Descends.afterDispatch {vm₀ vm vm' : VirtualMachine} (h : Descends vm₀ vm)
    (hafter : AfterDispatch vm vm') : Descends vm₀ vm' := by
  obtain ⟨hregs, hfree, hslice, hpending⟩ := h.schedulable
  have hsame := hafter.sameProgram
  cases hafter with
  | slice hrun _ =>
      refine ⟨⟨?_, ?_, ?_, pending_runForSlice hfree hpending hrun⟩, ⟨?_, ?_⟩, ?_⟩
      · rwa [hsame.program_eq]
      · rwa [hsame.program_eq]
      · rwa [hsame.config_eq]
      · rw [hsame.config_eq, h.sameProgram.config_eq]
      · rw [hsame.program_eq, h.sameProgram.program_eq]
      · intro budget hbudget
        have hbudget' : vm.program.size ≤ budget := by rwa [h.sameProgram.program_eq]
        exact (sameOutcome_runForSlice hrun budget hbudget').trans (h.outcome budget hbudget)
  | migration hmigration =>
      obtain ⟨h₁, hsome, -, -⟩ := hmigration
      exact absurd (pending_runForSlice hfree hpending h₁) hsome

/-- A machine that is halted or faulted is its own outcome. -/
theorem Descends.endsAs {vm₀ vm : VirtualMachine} (h : Descends vm₀ vm) (hdone : vm.status.Done) :
    EndsAs vm₀ vm := by
  refine ⟨hdone, fun budget hbudget => ?_⟩
  have houtcome := h.outcome budget hbudget
  rw [runForSlice_of_done hdone, Option.map_some] at houtcome
  obtain ⟨⟨r, u⟩, hrun, rfl⟩ := Option.map_eq_some_iff.mp houtcome.symm
  exact ⟨r, hrun⟩

end VirtualMachine

namespace HypervisorCore

open VirtualMachine (Schedulable Descends EndsAs)

variable {τ : Type} {transport : Transport τ}

/-- The machines of a core descend from those that were added, in order. -/
structure Tracks (added : List VirtualMachine) (core : HypervisorCore τ) : Prop where
  descends : List.Forall₂ Descends added core.vms
  above : core.scheduler = .priority → ∀ vm ∈ core.vms, -1000000 < vm.config.priority

/-- Changing one entry on the right keeps a pointwise relation that its new value satisfies. -/
theorem forall₂_set {α β : Type*} {R : α → β → Prop} {l₁ : List α} {l₂ : List β} {i : Nat}
    {b b' : β} (h : List.Forall₂ R l₁ l₂) (hb : l₂[i]? = some b) (hR : ∀ a, R a b → R a b') :
    List.Forall₂ R l₁ (l₂.set i b') := by
  induction h generalizing i with
  | nil => exact .nil
  | cons hab h ih =>
      cases i with
      | zero =>
          rw [List.getElem?_cons_zero, Option.some.injEq] at hb
          subst hb
          exact .cons (hR _ hab) h
      | succ i => exact .cons hab (ih hb)

/-- An iteration keeps track. -/
theorem Tracks.turn {added : List VirtualMachine} {core core' : HypervisorCore τ}
    (h : Tracks added core) (hturn : core.Turn core') : Tracks added core' := by
  refine ⟨?_, hturn.above h.above⟩
  cases hturn with
  | skip => exact h.descends
  | dispatch hvm _ hafter hdispatched =>
      rw [hdispatched.vms_eq]
      exact forall₂_set h.descends hvm fun _ hdesc => hdesc.afterDispatch hafter

/-- A tracked core terminates. -/
theorem Tracks.terminating {added : List VirtualMachine} {core : HypervisorCore τ}
    (h : Tracks added core) : core.Terminating := by
  have hboth := h.descends.flip.imp fun _ _ hdesc => And.intro hdesc.schedulable hdesc
  have hschedulable := ((List.forall₂_and_left _ _).mp hboth).1
  exact ⟨fun vm hvm => (hschedulable vm hvm).willStop, fun vm hvm => (hschedulable vm hvm).slice,
    h.above⟩

/-- `Run` on a tracked core returns, keeps track, and leaves every machine as its outcome. -/
theorem Tracks.exists_run {added : List VirtualMachine} {core : HypervisorCore τ}
    (h : Tracks added core) (transport : Transport τ) :
    ∃ core', Run transport core core' ∧ Tracks added core'
      ∧ (core'.scheduler = .priority → core.scheduler = .priority)
      ∧ List.Forall₂ EndsAs added core'.vms := by
  obtain ⟨core', hrun⟩ := h.terminating.exists_run transport
  obtain ⟨core'', hreach, hexit⟩ := Loop.Terminates.exists_exit hrun
  obtain ⟨rfl, hdone⟩ := body_eq_exit_iff.mp hexit
  have htracks : Tracks added core'
      ∧ (core'.scheduler = .priority → core.scheduler = .priority) := by
    refine Loop.Reaches.invariant (fun c : HypervisorCore τ =>
      Tracks added c ∧ (c.scheduler = .priority → core.scheduler = .priority)) ?_ hreach ⟨h, id⟩
    rintro c c' ⟨hc, hscheduler⟩ hbody
    have hturn := turn_of_body hbody
    refine ⟨hc.turn hturn, fun hpriority => hscheduler ?_⟩
    rwa [hturn.scheduler_eq, pick_eq_priority_iff] at hpriority
  -- the loop was left with every machine done, so each is its own outcome
  have hboth := (List.forall₂_and_left _ _).mpr ⟨hdone, htracks.1.descends.flip⟩
  exact ⟨core', hrun, htracks.1, htracks.2,
    (hboth.imp fun _ _ hdesc => hdesc.2.endsAs hdesc.1).flip⟩

/-! ## Sequences of calls -/

/-- A call on a core. -/
inductive CoreCall where
  | addVm (vm : VirtualMachine)
  | run

/-- Every `Run` of a sequence of calls returns, and leaves each machine that was added as one
unbounded slice of it alone does. -/
def Transparent (transport : Transport τ) :
    (added : List VirtualMachine) → HypervisorCore τ → List CoreCall → Prop
  | _, _, [] => True
  | added, core, .addVm vm :: calls => Transparent transport (added ++ [vm]) (core.addVm vm) calls
  | added, core, .run :: calls =>
      ∃ core', Run transport core core' ∧ List.Forall₂ EndsAs added core'.vms
        ∧ Transparent transport added core' calls

/-- Tracking carries along a sequence of calls. -/
theorem Tracks.transparent {added : List VirtualMachine} {core : HypervisorCore τ}
    (h : Tracks added core) {calls : List CoreCall}
    (hvms : ∀ vm, .addVm vm ∈ calls → vm.Schedulable)
    (habove : core.scheduler = .priority → ∀ vm, .addVm vm ∈ calls → -1000000 < vm.config.priority) :
    Transparent transport added core calls := by
  induction calls generalizing added core with
  | nil => exact trivial
  | cons call calls ih =>
      have hvms' : ∀ vm, .addVm vm ∈ calls → vm.Schedulable :=
        fun vm hvm => hvms vm (List.mem_cons_of_mem _ hvm)
      cases call with
      | addVm vm =>
          have hvm := hvms vm (by simp)
          have hadded : Tracks (added ++ [vm]) (core.addVm vm) := by
            refine ⟨List.rel_append h.descends (.cons hvm.descends .nil), fun hpriority u hu => ?_⟩
            rcases List.mem_append.mp hu with hmem | hmem
            · exact h.above hpriority u hmem
            · rw [List.mem_singleton] at hmem
              subst hmem
              exact habove hpriority u (by simp)
          exact ih hadded hvms' fun hpriority vm hvm =>
            habove hpriority vm (List.mem_cons_of_mem _ hvm)
      | run =>
          obtain ⟨core', hrun, htracks, hscheduler, hends⟩ := h.exists_run transport
          refine ⟨core', hrun, hends, ih htracks hvms' fun hpriority vm hvm => ?_⟩
          exact habove (hscheduler hpriority) vm (List.mem_cons_of_mem _ hvm)

/-- **Scheduler transparency.** On a new core with any of the three schedulers, every `Run` in every
sequence of `AddVm` and `Run` calls returns, with every machine halted or faulted and as one
unbounded slice of that machine alone leaves it. -/
theorem run_transparent (transport : Transport τ) (scheduler : Scheduler) (s : τ)
    {calls : List CoreCall} (hvms : ∀ vm, .addVm vm ∈ calls → vm.Schedulable)
    (habove : scheduler = .priority → ∀ vm, .addVm vm ∈ calls → -1000000 < vm.config.priority) :
    Transparent transport [] { scheduler, transport := s } calls := by
  have htracks : Tracks [] ({ scheduler, transport := s } : HypervisorCore τ) :=
    ⟨.nil, fun _ vm hvm => absurd hvm (by simp)⟩
  exact htracks.transparent hvms habove

/-- New machines about to run `storeAndLoad` are schedulable when their slice is nonempty. -/
theorem schedulable_storeAndLoad {config : VmConfig} (hslice : 1 ≤ config.execSlice) :
    (VirtualMachine.create config VirtualMachine.storeAndLoad).Schedulable := by
  have hregs : VirtualMachine.storeAndLoad.RegistersInRange := by decide
  have hfree : VirtualMachine.storeAndLoad.MigrateFree := by decide
  exact (VirtualMachine.Reachable.create config _).schedulable hregs hfree hslice

/-- The theorem for two machines under the priority scheduler, the second one added after the first
one has run. -/
theorem run_transparent_storeAndLoad :
    Transparent acceptingTransport [] { scheduler := .priority, transport := () }
      [.addVm (.create { name := [0x61], execSlice := 1 } VirtualMachine.storeAndLoad), .run,
        .addVm (.create { name := [0x62], priority := -3 } VirtualMachine.storeAndLoad), .run] := by
  refine run_transparent acceptingTransport .priority () ?_ ?_
  · intro vm hvm
    simp only [List.mem_cons, CoreCall.addVm.injEq, reduceCtorEq, List.not_mem_nil, or_false,
      false_or] at hvm
    rcases hvm with rfl | rfl
    · exact schedulable_storeAndLoad (by decide)
    · exact schedulable_storeAndLoad (by decide)
  · intro _ vm hvm
    simp only [List.mem_cons, CoreCall.addVm.injEq, reduceCtorEq, List.not_mem_nil, or_false,
      false_or] at hvm
    rcases hvm with rfl | rfl
    · show (-1000000 : Int) < 1
      decide
    · show (-1000000 : Int) < -3
      decide

end HypervisorCore

end VmmShowcase
