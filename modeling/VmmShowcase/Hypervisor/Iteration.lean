import VmmShowcase.Hypervisor.HypervisorCore
import VmmShowcase.Vm.Finishing

/-! # One iteration of the scheduling loop

`turn_of_body` says once everything an iteration of `Run` can do: skip, or run slices on one live
machine. What an iteration preserves of every machine follows from what slices preserve. -/

namespace VmmShowcase

namespace VirtualMachine

/-- How a machine is left by a dispatch whose slice leaves a migration pending: after the two
pre-copy slices. -/
inductive AfterMigration (vm : VirtualMachine) : VirtualMachine → Prop where
  | intro {vm₁ vm₂ vm₃ : VirtualMachine} {r₁ r₂ r₃ : Nat}
      (h₁ : vm.runForSlice vm.config.execSlice = some (r₁, vm₁))
      (hpending : vm₁.pendingMigrationTarget ≠ none) (h₂ : vm₁.runForSlice 10 = some (r₂, vm₂))
      (h₃ : vm₂.runForSlice 10 = some (r₃, vm₃)) : AfterMigration vm vm₃.clearMigrationIntent

/-- The ways a machine is left by a dispatch. -/
inductive AfterDispatch (vm : VirtualMachine) : VirtualMachine → Prop where
  | slice {vm' : VirtualMachine} {r : Nat} (hrun : vm.runForSlice vm.config.execSlice = some (r, vm'))
      (hpending : vm'.pendingMigrationTarget = none) : AfterDispatch vm vm'
  | migration {vm' : VirtualMachine} (h : AfterMigration vm vm') : AfterDispatch vm vm'

/-- What slices and clearing the migration intent preserve, a dispatch preserves. -/
theorem AfterDispatch.invariant (I : VirtualMachine → Prop)
    (hslice : ∀ vm vm' k r, I vm → vm.runForSlice k = some (r, vm') → I vm')
    (hclear : ∀ vm, I vm → I vm.clearMigrationIntent) {vm vm' : VirtualMachine}
    (h : AfterDispatch vm vm') (h₀ : I vm) : I vm' := by
  cases h with
  | slice hrun => exact hslice _ _ _ _ h₀ hrun
  | migration hmigration =>
      obtain ⟨h₁, -, h₂, h₃⟩ := hmigration
      exact hclear _ (hslice _ _ _ _ (hslice _ _ _ _ (hslice _ _ _ _ h₀ h₁) h₂) h₃)

/-- A dispatch changes neither configuration nor program. -/
theorem AfterDispatch.sameProgram {vm vm' : VirtualMachine} (h : AfterDispatch vm vm') :
    SameProgram vm vm' := by
  refine h.invariant (SameProgram vm) ?_ (fun _ h => ⟨h.config_eq, h.program_eq⟩) ⟨rfl, rfl⟩
  intro u u' k r hu hrun
  have hsame := sameProgram_runForSlice hrun
  exact ⟨hsame.config_eq.trans hu.config_eq, hsame.program_eq.trans hu.program_eq⟩

/-- A dispatch neither saves nor dooms a machine. -/
theorem AfterDispatch.willStop_iff {vm vm' : VirtualMachine} (h : AfterDispatch vm vm') :
    vm'.WillStop ↔ vm.WillStop := by
  refine h.invariant (fun u => u.WillStop ↔ vm.WillStop) ?_ ?_ Iff.rfl
  · exact fun _ _ _ _ hu hrun => (willStop_runForSlice hrun).trans hu
  · exact fun _ hu => willStop_clearMigrationIntent.trans hu

/-- A dispatch makes progress on a live machine that will stop. -/
theorem AfterDispatch.weight_lt {vm vm' : VirtualMachine} (h : AfterDispatch vm vm')
    (hlive : ¬ vm.status.Done) (hstop : vm.WillStop) (hslice : 1 ≤ vm.config.execSlice) :
    vm'.weight < vm.weight := by
  cases h with
  | slice hrun => exact weight_runForSlice_lt hlive hstop hslice hrun
  | migration hmigration =>
      obtain @⟨vm₁, vm₂, vm₃, _, _, _, h₁, -, h₂, h₃⟩ := hmigration
      calc vm₃.clearMigrationIntent.weight = vm₃.weight := rfl
        _ ≤ vm₂.weight := weight_runForSlice_le h₃
        _ ≤ vm₁.weight := weight_runForSlice_le h₂
        _ < vm.weight := weight_runForSlice_lt hlive hstop hslice h₁

/-- A dispatch leaves no migration pending. -/
theorem AfterDispatch.pending {vm vm' : VirtualMachine} (h : AfterDispatch vm vm') :
    vm'.pendingMigrationTarget = none := by
  cases h with
  | slice _ hpending => exact hpending
  | migration hmigration =>
      cases hmigration
      rfl

/-- A machine with no migration pending is sent while it is blocked, and stays so. -/
theorem AfterMigration.status {vm vm' : VirtualMachine} (h : AfterMigration vm vm')
    (hpending : vm.pendingMigrationTarget = none) : vm'.status = .blocked := by
  obtain ⟨h₁, hsome, h₂, h₃⟩ := h
  obtain ⟨hblocked, -, hstays⟩ := blocked_of_pending hpending h₁ hsome
  -- the pre-copy slices execute the same `MIGRATE` again
  rw [hstays (by omega)] at h₂
  cases h₂
  rw [hstays (by omega)] at h₃
  cases h₃
  exact hblocked

end VirtualMachine

namespace HypervisorCore

open VirtualMachine (AfterDispatch AfterMigration)

variable {τ : Type} {transport : Transport τ}

/-- The scheduler's answer at a loop head. -/
def pick (core : HypervisorCore τ) : Nat × Scheduler :=
  core.scheduler.pickNext core.statuses core.priorities

/-- The events behind `dispatched` when a dispatch leaves machine `idx` as `vm'`: none, or those of
one migration. -/
def MigrationLog (idx : Nat) (vm vm' : VirtualMachine) (events : List Event) : Prop :=
  events = [] ∨ AfterMigration vm vm' ∧ ∃ packet, ∃ outcome : SendOutcome τ,
    (outcome.ok = true ↔ true ∈ outcome.answers)
      ∧ events = migrationEvents idx vm'.status packet outcome

/-- `core'` is `core` after machine `idx` was dispatched, and from `vm` became `vm'`. -/
structure Dispatched (core : HypervisorCore τ) (idx : Nat) (vm vm' : VirtualMachine)
    (core' : HypervisorCore τ) : Prop where
  vms_eq : core'.vms = core.vms.set idx vm'
  scheduler_eq : core'.scheduler = core.scheduler
  log_eq : ∃ events, core'.log = core.log ++ .dispatched idx :: events
    ∧ @MigrationLog τ idx vm vm' events

/-- **Inversion of a dispatch.** -/
theorem dispatched_of_dispatch {core core' : HypervisorCore τ} {idx : Nat} {vm : VirtualMachine}
    (h : core.dispatch transport idx vm = some core') :
    ∃ vm', AfterDispatch vm vm' ∧ core.Dispatched idx vm vm' core' := by
  simp only [dispatch, Option.bind_eq_bind, Option.bind_eq_some_iff] at h
  obtain ⟨⟨r, vm₁⟩, h₁, h⟩ := h
  cases hpending : vm₁.pendingMigrationTarget with
  | none =>
      simp only [hpending] at h
      cases h
      exact ⟨vm₁, .slice h₁ hpending, rfl, rfl, [], rfl, .inl rfl⟩
  | some target =>
      simp only [hpending, Option.bind_eq_some_iff] at h
      -- the log takes the events of the migration whether it succeeds or fails
      obtain ⟨⟨vm₃, packet, outcome⟩, hmigrate, hcore⟩ := h
      obtain ⟨⟨r₂, vm₂, r₃, h₂, h₃⟩, -, hok⟩ := MigrationService.preCopyMigrate_cases hmigrate
      cases hcore
      have hsome : vm₁.pendingMigrationTarget ≠ none := by simp [hpending]
      have hafter : AfterMigration vm vm₃.clearMigrationIntent := ⟨h₁, hsome, h₂, h₃⟩
      refine ⟨vm₃.clearMigrationIntent, .migration hafter, rfl, rfl,
        migrationEvents idx vm₃.status packet outcome, ?_, .inr ⟨hafter, packet, outcome, hok, rfl⟩⟩
      simp

/-- The ways the loop body comes back to its head. -/
inductive Turn (core : HypervisorCore τ) : HypervisorCore τ → Prop where
  | skip {vm : VirtualMachine} (hvm : vm ∈ core.vms) (hlive : ¬ vm.status.Done)
      (hdead : ¬ Live core.statuses core.pick.1) :
      Turn core { core with scheduler := core.pick.2 }
  | dispatch {vm vm' : VirtualMachine} {core' : HypervisorCore τ}
      (hvm : core.vms[core.pick.1]? = some vm) (hlive : ¬ vm.status.Done)
      (hafter : AfterDispatch vm vm')
      (h : Dispatched { core with scheduler := core.pick.2 } core.pick.1 vm vm' core') :
      Turn core core'

/-- An index is live if the machine there is. -/
theorem live_statuses_iff {core : HypervisorCore τ} {idx : Nat} :
    Live core.statuses idx ↔ ∃ vm, core.vms[idx]? = some vm ∧ ¬ vm.status.Done := by
  rw [Live, statuses]
  simp only [List.getElem?_map, Option.map_eq_some_iff]
  constructor
  · rintro ⟨status, ⟨vm, hvm, rfl⟩, hlive⟩
    exact ⟨vm, hvm, hlive⟩
  · rintro ⟨vm, hvm, hlive⟩
    exact ⟨vm.status, ⟨vm, hvm, rfl⟩, hlive⟩

/-- The body leaves the loop exactly when every machine is halted or faulted. -/
theorem body_eq_exit_iff {core core' : HypervisorCore τ} :
    body transport core = .exit core' ↔ core' = core ∧ ∀ vm ∈ core.vms, vm.status.Done := by
  -- without machines all of them are done, so the second test adds nothing
  have hempty : (∀ vm ∈ core.vms, vm.status.Done) ∨ core.vms = []
      ↔ ∀ vm ∈ core.vms, vm.status.Done := by
    constructor
    · rintro (h | h)
      · exact h
      · simp [h]
    · exact .inl
  unfold body
  by_cases hdone : ∀ vm ∈ core.vms, vm.status.Done
  · rw [if_pos (hempty.mpr hdone), LoopStep.exit.injEq]
    exact ⟨fun h => ⟨h.symm, hdone⟩, fun h => h.1.symm⟩
  · rw [if_neg (hempty.not.mpr hdone)]
    refine iff_of_false ?_ fun h => hdone h.2
    dsimp only
    split
    · simp
    · split
      · simp
      · split <;> simp

/-- While a machine is live, the body skips, dispatches the machine picked, or has no defined
behaviour because that machine's slice has none. -/
theorem body_cases (transport : Transport τ) {core : HypervisorCore τ} {vm : VirtualMachine}
    (hvm : vm ∈ core.vms) (hlive : ¬ vm.status.Done) :
    (¬ Live core.statuses core.pick.1
        ∧ body transport core = .next { core with scheduler := core.pick.2 })
      ∨ ∃ u, core.vms[core.pick.1]? = some u ∧ ¬ u.status.Done
        ∧ body transport core
          = (dispatch transport { core with scheduler := core.pick.2 } core.pick.1 u).elim
            .undefined .next := by
  have hrun : ¬ ((∀ vm ∈ core.vms, vm.status.Done) ∨ core.vms = []) := by
    rintro (h | h)
    · exact hlive (h vm hvm)
    · rw [h] at hvm
      cases hvm
  unfold body
  rw [if_neg hrun]
  cases hu : core.vms[core.pick.1]? with
  | none =>
      refine .inl ⟨?_, ?_⟩
      · rw [live_statuses_iff, hu]
        simp
      · rw [pick] at hu
        simp only [hu, pick]
  | some u =>
      by_cases hdone : u.status.Done
      · refine .inl ⟨?_, ?_⟩
        · rw [live_statuses_iff, hu]
          simp [hdone]
        · rw [pick] at hu
          simp only [hu, if_pos hdone, pick]
      · refine .inr ⟨u, rfl, hdone, ?_⟩
        rw [pick] at hu
        simp only [hu, if_neg hdone, pick]
        split
        · next hd =>
            rw [hd]
            rfl
        · next hd =>
            rw [hd]
            rfl

/-- Going round the loop skips, or dispatches the live machine picked. -/
theorem cases_of_body {core core' : HypervisorCore τ} (h : body transport core = .next core') :
    (∃ vm ∈ core.vms, ¬ vm.status.Done ∧ ¬ Live core.statuses core.pick.1
        ∧ core' = { core with scheduler := core.pick.2 })
      ∨ ∃ vm, core.vms[core.pick.1]? = some vm ∧ ¬ vm.status.Done
        ∧ dispatch transport { core with scheduler := core.pick.2 } core.pick.1 vm = some core' := by
  by_cases hdone : ∀ vm ∈ core.vms, vm.status.Done
  · rw [body_eq_exit_iff.mpr ⟨rfl, hdone⟩] at h
    cases h
  simp only [not_forall] at hdone
  obtain ⟨vm, hvm, hlive⟩ := hdone
  rcases body_cases transport hvm hlive with ⟨hdead, hbody⟩ | ⟨u, hu, hulive, hbody⟩
  · rw [hbody, LoopStep.next.injEq] at h
    exact .inl ⟨vm, hvm, hlive, hdead, h.symm⟩
  · rw [hbody] at h
    cases hd : dispatch transport { core with scheduler := core.pick.2 } core.pick.1 u with
    | none =>
        rw [hd] at h
        cases h
    | some core'' =>
        rw [hd, Option.elim_some, LoopStep.next.injEq] at h
        exact .inr ⟨u, hu, hulive, by rw [hd, h]⟩

/-- **Inversion of an iteration.** -/
theorem turn_of_body {core core' : HypervisorCore τ} (h : body transport core = .next core') :
    core.Turn core' := by
  rcases cases_of_body h with ⟨vm, hvm, hlive, hdead, rfl⟩ | ⟨vm, hvm, hlive, hd⟩
  · exact .skip hvm hlive hdead
  · obtain ⟨vm', hafter, hdispatched⟩ := dispatched_of_dispatch hd
    exact .dispatch hvm hlive hafter hdispatched

/-- A machine can be dispatched if its slices have defined behaviour, however many follow each
other. -/
theorem exists_dispatch (transport : Transport τ) (I : VirtualMachine → Prop)
    (hI : ∀ vm k, I vm → ∃ r vm', vm.runForSlice k = some (r, vm') ∧ I vm') {vm : VirtualMachine}
    (h : I vm) (core : HypervisorCore τ) (idx : Nat) :
    ∃ core', core.dispatch transport idx vm = some core' := by
  obtain ⟨r₁, vm₁, h₁, hvm₁⟩ := hI vm vm.config.execSlice h
  simp only [dispatch, h₁, Option.bind_eq_bind, Option.bind_some]
  cases hpending : vm₁.pendingMigrationTarget with
  | none => exact ⟨_, rfl⟩
  | some target =>
      obtain ⟨r₂, vm₂, h₂, hvm₂⟩ := hI vm₁ 10 hvm₁
      obtain ⟨r₃, vm₃, h₃, -⟩ := hI vm₂ 10 hvm₂
      simp only [MigrationService.preCopyMigrate, h₂, h₃, Option.bind_eq_bind, Option.bind_some]
      exact ⟨_, rfl⟩

/-- An iteration has defined behaviour if the slices of all machines have. -/
theorem body_ne_undefined (I : VirtualMachine → Prop)
    (hI : ∀ vm k, I vm → ∃ r vm', vm.runForSlice k = some (r, vm') ∧ I vm')
    {core : HypervisorCore τ} (h : ∀ vm ∈ core.vms, I vm) : body transport core ≠ .undefined := by
  by_cases hdone : ∀ vm ∈ core.vms, vm.status.Done
  · rw [body_eq_exit_iff.mpr ⟨rfl, hdone⟩]
    simp
  simp only [not_forall] at hdone
  obtain ⟨vm, hvm, hlive⟩ := hdone
  rcases body_cases transport hvm hlive with ⟨-, hbody⟩ | ⟨u, hu, -, hbody⟩
  · simp [hbody]
  · obtain ⟨core', hcore'⟩ := exists_dispatch transport I hI
      (h u (List.mem_of_getElem? hu)) { core with scheduler := core.pick.2 } core.pick.1
    simp [hbody, hcore']

/-- `Run` leaves at most one core. -/
theorem Run.unique {core core₁ core₂ : HypervisorCore τ} (h₁ : Run transport core core₁)
    (h₂ : Run transport core core₂) : core₁ = core₂ := Loop.Terminates.unique h₁ h₂

/-- Changing one entry of a list changes the sum over it by what the entry changes. -/
theorem sum_map_set {α : Type*} (f : α → Nat) {l : List α} {i : Nat} {a : α} (b : α)
    (ha : l[i]? = some a) : ((l.set i b).map f).sum + f a = (l.map f).sum + f b := by
  induction l generalizing i with
  | nil => cases ha
  | cons c l ih =>
      cases i with
      | zero =>
          rw [List.getElem?_cons_zero, Option.some.injEq] at ha
          subst ha
          simp only [List.set_cons_zero, List.map_cons, List.sum_cons]
          omega
      | succ i =>
          have hrest := ih ha
          simp only [List.set_cons_succ, List.map_cons, List.sum_cons]
          omega

/-- What a dispatch preserves of a machine, an iteration preserves of all of them. -/
theorem Turn.forall_vms (I : VirtualMachine → Prop)
    (hI : ∀ vm vm', I vm → AfterDispatch vm vm' → I vm') {core core' : HypervisorCore τ}
    (h : core.Turn core') (h₀ : ∀ vm ∈ core.vms, I vm) : ∀ vm ∈ core'.vms, I vm := by
  cases h with
  | skip => exact h₀
  | dispatch hvm _ hafter hdispatched =>
      rw [hdispatched.vms_eq]
      intro u hu
      rcases List.mem_or_eq_of_mem_set hu with hmem | rfl
      · exact h₀ u hmem
      · exact hI _ _ (h₀ _ (List.mem_of_getElem? hvm)) hafter

end HypervisorCore

end VmmShowcase
