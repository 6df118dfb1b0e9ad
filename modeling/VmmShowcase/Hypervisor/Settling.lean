import Mathlib.Data.Prod.Lex
import VmmShowcase.Hypervisor.BoundedWaiting
import VmmShowcase.Hypervisor.Wire

/-! # Every machine comes to where it comes alone

`Run` never returns while a machine is blocked at its `MIGRATE`, but it does not keep the other machines
waiting. Under a scheduler that gives turns every machine settles: it is halted, faulted or blocked, as it
is when it is run alone, and from then on the loop changes none of them. A dispatch of a machine that has
not settled lowers the effort that is left; one of a machine that has changes no machine, and leaves fewer
turns in front of the first that has not. -/

namespace VmmShowcase

namespace VirtualMachine

/-- The machine is halted, faulted or blocked. -/
def Settled (vm : VirtualMachine) : Prop := vm.status.Done ∨ vm.status = .blocked

instance (vm : VirtualMachine) : Decidable vm.Settled := inferInstanceAs (Decidable (_ ∨ _))

/-- A machine that is blocked is at a `MIGRATE`. -/
def BlockedAtMigrate (vm : VirtualMachine) : Prop :=
  vm.status = .blocked → ∃ inst, vm.fetch = some inst ∧ inst.opcode = .migrate

/-- A bound on the instructions that a machine executes before it settles. -/
def effort (vm : VirtualMachine) : Nat := if vm.Settled then 0 else vm.remaining + 1

/-- A slice that retires nothing has come to where the machine settles. -/
theorem settled_of_runForSlice {vm vm' : VirtualMachine} (hlive : ¬ vm.status.Done) {k : Nat} (hk : 1 ≤ k)
    (h : vm.runForSlice k = some (0, vm')) : vm'.Settled := by
  obtain ⟨u, -, -, -, hstatus⟩ := (preciseStop_of_runForSlice hlive h).applied
  rcases Nat.lt_or_ge vm'.cpu.pc.toNat vm'.program.size with hlt | hend
  · obtain ⟨inst, -, hhalt, hmigrate, hfault⟩ := hstatus.before hlt hk
    by_cases hop : inst.opcode = .halt
    · exact .inl (.inl (hhalt hop))
    · by_cases hop' : inst.opcode = .migrate
      · exact .inr (hmigrate hop').1
      · exact .inl (.inr (hfault hop hop').1)
  · exact .inl (.inl (hstatus.at_end hend))

/-- A slice that leaves a machine blocked leaves a migration pending. -/
theorem pending_of_blocked {vm vm' : VirtualMachine} (hlive : ¬ vm.status.Done) {k r : Nat}
    (h : vm.runForSlice k = some (r, vm')) (hblocked : vm'.status = .blocked) :
    vm'.pendingMigrationTarget ≠ none := by
  have hstop := preciseStop_of_runForSlice hlive h
  obtain ⟨u, -, -, -, hstatus⟩ := hstop.applied
  -- of the ways a slice stops only the `MIGRATE` leaves the machine blocked
  rcases Nat.lt_or_ge vm'.cpu.pc.toNat vm'.program.size with hlt | hend
  · rcases Nat.eq_or_lt_of_le hstop.le_budget with heq | hless
    · rw [hstatus.at_budget hlt heq] at hblocked
      cases hblocked
    · obtain ⟨inst, -, hhalt, hmigrate, hfault⟩ := hstatus.before hlt hless
      by_cases hop : inst.opcode = .halt
      · rw [hhalt hop] at hblocked
        cases hblocked
      · by_cases hop' : inst.opcode = .migrate
        · simp [(hmigrate hop').2]
        · rw [(hfault hop hop').1] at hblocked
          cases hblocked
  · rw [hstatus.at_end hend] at hblocked
    cases hblocked

/-- What a dispatch is: a slice, behind which a pending migration is cleared. -/
theorem AfterDispatch.exists_slice {vm vm' : VirtualMachine} (h : AfterDispatch vm vm')
    (hpending : vm.pendingMigrationTarget = none) :
    ∃ r u, vm.runForSlice vm.config.execSlice = some (r, u) ∧ vm' = u.clearMigrationIntent := by
  cases h with
  | @slice r hrun hnone =>
      refine ⟨r, vm', hrun, ?_⟩
      rw [clearMigrationIntent, ← hnone]
  | migration hmigration =>
      obtain @⟨vm₁, vm₂, vm₃, r₁, _, _, h₁, hsome, h₂, h₃⟩ := hmigration
      obtain ⟨-, -, hstays⟩ := blocked_of_pending hpending h₁ hsome
      -- the pre-copy slices execute the same `MIGRATE` again
      rw [hstays (by omega)] at h₂
      cases h₂
      rw [hstays (by omega)] at h₃
      cases h₃
      exact ⟨r₁, vm₁, h₁, rfl⟩

/-- A dispatch leaves a machine that is blocked only at a `MIGRATE`. -/
theorem AfterDispatch.blockedAtMigrate {vm vm' : VirtualMachine} (h : AfterDispatch vm vm')
    (hlive : ¬ vm.status.Done) (hpending : vm.pendingMigrationTarget = none) : vm'.BlockedAtMigrate := by
  obtain ⟨r, u, hrun, rfl⟩ := h.exists_slice hpending
  intro hblocked
  have hblocked : u.status = .blocked := hblocked
  have hfetch := fetch_of_pending hpending hrun (pending_of_blocked hlive hrun hblocked)
  exact hfetch

/-- A dispatch of a machine that has not settled lowers its effort. -/
theorem AfterDispatch.effort_lt {vm vm' : VirtualMachine} (h : AfterDispatch vm vm')
    (hpending : vm.pendingMigrationTarget = none) (hunsettled : ¬ vm.Settled)
    (hslice : 1 ≤ vm.config.execSlice) : vm'.effort < vm.effort := by
  obtain ⟨r, u, hrun, rfl⟩ := h.exists_slice hpending
  have hlive : ¬ vm.status.Done := fun hdone => hunsettled (.inl hdone)
  have heffort : vm.effort = vm.remaining + 1 := if_neg hunsettled
  have hremaining := remaining_runForSlice hrun
  have hclear : u.clearMigrationIntent.remaining = u.remaining := rfl
  rw [heffort, effort]
  split
  · omega
  · next hnot =>
      -- a slice that retires nothing stops at once, and the machine has settled
      rcases Nat.eq_zero_or_pos r with rfl | hpos
      · exact absurd (settled_of_runForSlice hlive hslice hrun) hnot
      · omega

/-- A dispatch of a machine that is blocked leaves it as it is. -/
theorem AfterDispatch.eq_of_settled {vm vm' : VirtualMachine} (h : AfterDispatch vm vm')
    (hlive : ¬ vm.status.Done) (hpending : vm.pendingMigrationTarget = none)
    (hmigrate : vm.BlockedAtMigrate) (hsettled : vm.Settled) (hslice : 1 ≤ vm.config.execSlice) :
    vm' = vm := by
  have hblocked := hsettled.resolve_left hlive
  obtain ⟨inst, hf, hop⟩ := hmigrate hblocked
  obtain ⟨r, u, hrun, rfl⟩ := h.exists_slice hpending
  rw [runForSlice_of_migrate hlive hf hop hslice] at hrun
  cases hrun
  rw [clearMigrationIntent, ← hpending, ← hblocked]

/-- The machine is left as it is left when it is run alone, but for the migration that is pending then. -/
def AsAlone (vm₀ vm : VirtualMachine) : Prop :=
  ∃ r u, vm₀.runForSlice vm₀.program.size = some (r, u) ∧ vm = u.clearMigrationIntent

/-- **A machine that has settled is left as it is left alone.** -/
theorem asAlone_of_settled {vm₀ vm : VirtualMachine} (houtcome : SameOutcome vm₀ vm)
    (hprogram : vm.program = vm₀.program) (hpending : vm.pendingMigrationTarget = none)
    (hmigrate : vm.BlockedAtMigrate) (hsettled : vm.Settled) : AsAlone vm₀ vm := by
  have halone := houtcome vm₀.program.size (Nat.le_refl _)
  by_cases hdone : vm.status.Done
  · -- a machine that is done is its own outcome
    rw [runForSlice_of_done hdone, Option.map_some] at halone
    obtain ⟨⟨r, u⟩, hrun, hu⟩ := Option.map_eq_some_iff.mp halone.symm
    refine ⟨r, u, hrun, ?_⟩
    have hu : u = vm := hu
    rw [hu, clearMigrationIntent, ← hpending]
  · have hblocked := hsettled.resolve_left hdone
    obtain ⟨inst, hf, hop⟩ := hmigrate hblocked
    have hpos : 1 ≤ vm₀.program.size := by
      have hpc := pc_lt_of_fetch hf
      rw [hprogram] at hpc
      omega
    -- run further it comes to the same `MIGRATE`, with the intent that a dispatch clears
    rw [runForSlice_of_migrate hdone hf hop hpos, Option.map_some] at halone
    obtain ⟨⟨r, u⟩, hrun, hu⟩ := Option.map_eq_some_iff.mp halone.symm
    refine ⟨r, u, hrun, ?_⟩
    have hu : u = { vm with pendingMigrationTarget := some inst.label, status := .blocked } := hu
    rw [hu, clearMigrationIntent, ← hpending, ← hblocked]

end VirtualMachine

namespace HypervisorCore

open VirtualMachine (create AsAlone)

variable {τ : Type} {transport : Transport τ}

/-- The machines of a core settle as these are left alone. -/
structure Settles (machines : List (VmConfig × Program)) (core : HypervisorCore τ) : Prop where
  follows : Follows machines core
  slice : ∀ vm ∈ core.vms, 1 ≤ vm.config.execSlice
  blocked : ∀ vm ∈ core.vms, vm.BlockedAtMigrate

/-- New machines with nonempty slices settle as they are left alone. -/
theorem settles_newCore {machines : List (VmConfig × Program)} (hslice : ∀ p ∈ machines, 1 ≤ p.1.execSlice)
    (scheduler : Scheduler) (t : τ) : Settles machines (newCore machines scheduler t) := by
  refine ⟨follows_newCore machines scheduler t, fun vm hvm => ?_, fun vm hvm hblocked => ?_⟩
  · obtain ⟨p, hp, rfl⟩ := List.mem_map.mp hvm
    exact hslice p hp
  · obtain ⟨p, -, rfl⟩ := List.mem_map.mp hvm
    cases hblocked

/-- An iteration keeps the machines settling as they are left alone. -/
theorem Settles.turn {machines : List (VmConfig × Program)} {core core' : HypervisorCore τ}
    (h : Settles machines core) (hturn : core.Turn core') : Settles machines core' := by
  have hfollows := h.follows.turn hturn
  have hslice := hturn.forall_vms (fun vm => 1 ≤ vm.config.execSlice)
    (fun _ _ hvm hafter => by rwa [hafter.sameProgram.config_eq]) h.slice
  cases hturn with
  | skip => exact ⟨hfollows, hslice, h.blocked⟩
  | @dispatch vm vm' _ hvm hlive hafter hdispatched =>
      refine ⟨hfollows, hslice, fun u hu => ?_⟩
      rw [hdispatched.vms_eq] at hu
      rcases List.mem_or_eq_of_mem_set hu with hu | rfl
      · exact h.blocked u hu
      · exact hafter.blockedAtMigrate hlive (h.follows.pending vm (List.mem_of_getElem? hvm))

/-- The effort that is left. -/
def effort (core : HypervisorCore τ) : Nat := (core.vms.map VirtualMachine.effort).sum

/-- An iteration lowers the effort that is left, or picks a machine that has settled and changes none. -/
theorem Settles.effort_lt_or_eq {machines : List (VmConfig × Program)} {core core' : HypervisorCore τ}
    (h : Settles machines core) (hturn : core.Turn core') : core'.effort < core.effort
      ∨ core'.vms = core.vms ∧ ∀ vm, core.vms[core.pick.1]? = some vm → vm.Settled := by
  cases hturn with
  | skip _ _ hdead =>
      refine .inr ⟨rfl, fun vm hvm => .inl ?_⟩
      by_contra hlive
      exact hdead (live_statuses_iff.mpr ⟨vm, hvm, hlive⟩)
  | @dispatch vm vm' _ hvm hlive hafter hdispatched =>
      have hmem := List.mem_of_getElem? hvm
      have hvms : core'.vms = core.vms.set core.pick.1 vm' := hdispatched.vms_eq
      by_cases hsettled : vm.Settled
      · -- the dispatch of a machine that has settled changes nothing
        rw [hafter.eq_of_settled hlive (h.follows.pending vm hmem) (h.blocked vm hmem) hsettled
          (h.slice vm hmem)] at hvms
        obtain ⟨hlt, rfl⟩ := List.getElem?_eq_some_iff.mp hvm
        refine .inr ⟨by rw [hvms, List.set_getElem_self], fun u hu => ?_⟩
        rw [hvm, Option.some.injEq] at hu
        exact hu ▸ hsettled
      · have hlt := hafter.effort_lt (h.follows.pending vm hmem) hsettled (h.slice vm hmem)
        have hsum := sum_map_set VirtualMachine.effort vm' hvm
        refine .inl ?_
        rw [effort, effort, hvms]
        omega

/-- The first machine that has not settled. -/
def firstUnsettled (core : HypervisorCore τ) : Nat := core.vms.findIdx fun vm => ¬ vm.Settled

/-- If a machine has not settled, the first of them is live. -/
theorem exists_firstUnsettled {core : HypervisorCore τ} (h : ¬ ∀ vm ∈ core.vms, vm.Settled) :
    ∃ vm, core.vms[core.firstUnsettled]? = some vm ∧ ¬ vm.Settled := by
  simp only [not_forall] at h
  obtain ⟨vm, hvm, hnot⟩ := h
  have hlt : core.firstUnsettled < core.vms.length :=
    List.findIdx_lt_length_of_exists ⟨vm, hvm, by simpa using hnot⟩
  refine ⟨core.vms[core.firstUnsettled], List.getElem?_eq_getElem hlt, ?_⟩
  exact of_decide_eq_true (List.findIdx_getElem (w := hlt))

section Turns

variable {n most : Nat} {ok : Scheduler → List VmStatus × List Int → Prop}
  {turns : Scheduler → Nat → Nat → Nat}

/-- **All machines settle** under a scheduler that gives turns. -/
theorem TakesTurns.exists_settled (hturns : GivesTurns (Finset.range n) most Scheduler.serve
      (fun seen => Live seen.1) (Scheduler.Later n) ok turns)
    {machines : List (VmConfig × Program)} {core : HypervisorCore τ} (h : TakesTurns n ok core)
    (hsettles : Settles machines core) (transport : Transport τ) :
    ∃ core', Loop.Reaches (body transport) core core' ∧ Settles machines core'
      ∧ ∀ vm ∈ core'.vms, vm.Settled := by
  have hreaches : ∃ core', Loop.Reaches (body transport) core core'
      ∧ (TakesTurns n ok core' ∧ Settles machines core') ∧ ∀ vm ∈ core'.vms, vm.Settled := by
    refine Loop.reaches_of_measure (fun c => toLex (c.effort, turnsInFront n turns c.firstUnsettled c))
      (fun c => TakesTurns n ok c ∧ Settles machines c) (fun c => ∀ vm ∈ c.vms, vm.Settled) ?_
      ⟨h, hsettles⟩
    rintro c ⟨hc, hsettles⟩
    by_cases hall : ∀ vm ∈ c.vms, vm.Settled
    · exact .inl hall
    obtain ⟨vm, hvm, hnot⟩ := exists_firstUnsettled hall
    have hlive : Live c.statuses c.firstUnsettled :=
      live_statuses_iff.mpr ⟨vm, hvm, fun hdone => hnot (.inl hdone)⟩
    obtain ⟨c', hbody⟩ := exists_next hlive hc.body_ne_undefined
    have hturn := turn_of_body hbody
    refine .inr ⟨c', hbody, ⟨hc.turn hturns hturn, hsettles.turn hturn⟩, ?_⟩
    rw [Prod.Lex.toLex_lt_toLex]
    rcases hsettles.effort_lt_or_eq hturn with hlt | ⟨heq, hpicked⟩
    · exact .inl hlt
    · -- the machine that was picked has settled, so the first that has not waits on
      have hne : c.pick.1 ≠ c.firstUnsettled := fun hpick => hnot (hpicked vm (hpick ▸ hvm))
      refine .inr ⟨by rw [effort, heq, effort], ?_⟩
      have hfirst : c'.firstUnsettled = c.firstUnsettled := by
        rw [firstUnsettled, heq, firstUnsettled]
      show turnsInFront n turns c'.firstUnsettled c' < turnsInFront n turns c.firstUnsettled c
      rw [hfirst]
      exact hc.turnsInFront_lt hturns hlive hne hturn
  obtain ⟨core', hreach, ⟨-, hsettles'⟩, hall⟩ := hreaches
  exact ⟨core', hreach, hsettles', hall⟩

end Turns

/-- Machines that have settled are changed no more. -/
theorem Settles.vms_eq {machines : List (VmConfig × Program)} {core core' : HypervisorCore τ}
    (h : Settles machines core) (hall : ∀ vm ∈ core.vms, vm.Settled)
    (hreach : Loop.Reaches (body transport) core core') : core'.vms = core.vms := by
  have hinvariant : Settles machines core' ∧ core'.vms = core.vms := by
    refine hreach.invariant (fun c => Settles machines c ∧ c.vms = core.vms) ?_ ⟨h, rfl⟩
    rintro c c' ⟨hc, heq⟩ hbody
    have hturn := turn_of_body hbody
    refine ⟨hc.turn hturn, ?_⟩
    rcases hc.effort_lt_or_eq hturn with hlt | ⟨hsame, -⟩
    · -- no effort is left that could be lowered
      have hzero : c.effort = 0 := by
        rw [effort, heq, List.sum_eq_zero_iff]
        intro k hk
        obtain ⟨vm, hvm, rfl⟩ := List.mem_map.mp hk
        exact if_pos (hall vm hvm)
      omega
    · exact hsame.trans heq
  exact hinvariant.2

/-- Machines that have settled are left as they are left alone. -/
theorem Settles.exists_asAlone {machines : List (VmConfig × Program)} {core : HypervisorCore τ}
    (h : Settles machines core) (hall : ∀ vm ∈ core.vms, vm.Settled) {i : Nat} {p : VmConfig × Program}
    (hp : machines[i]? = some p) : ∃ vm, core.vms[i]? = some vm ∧ AsAlone (create p.1 p.2) vm := by
  have hlt : i < core.vms.length := by
    rw [h.follows.length_eq]
    exact (List.getElem?_eq_some_iff.mp hp).1
  have hvm : core.vms[i]? = some core.vms[i] := List.getElem?_eq_getElem hlt
  have hmem := List.mem_of_getElem? hvm
  obtain ⟨p', hp', hprogram, houtcome⟩ := h.follows.outcome i _ hvm
  rw [hp, Option.some.injEq] at hp'
  subst hp'
  exact ⟨_, hvm, VirtualMachine.asAlone_of_settled houtcome hprogram (h.follows.pending _ hmem)
    (h.blocked _ hmem) (hall _ hmem)⟩

/-- **Every machine comes to where it comes alone.** For any new machines with nonempty slices, under round
robin from any cursor or a new MLFQ scheduler, and with any transport: from every head of the loop of `Run`
one is reached from which on each machine is left as it is left when it is run alone. This holds too while
`Run` does not return because some machines are blocked at their `MIGRATE`. Signed arithmetic wraps, the
least number divided by -1 too. -/
theorem run_settles (machines : List (VmConfig × Program)) (hregs : ∀ p ∈ machines, p.2.RegistersInRange)
    (hslice : ∀ p ∈ machines, 1 ≤ p.1.execSlice) {scheduler : Scheduler}
    (hscheduler : (∃ s, scheduler = .roundRobin s) ∨ scheduler = .mlfq {}) (t : τ)
    (transport : Transport τ) {core : HypervisorCore τ}
    (hreach : Loop.Reaches (body transport) (newCore machines scheduler t) core) :
    ∃ core', Loop.Reaches (body transport) core core'
      ∧ ∀ core'', Loop.Reaches (body transport) core' core'' →
        ∀ (i : Nat) (p : VmConfig × Program), machines[i]? = some p →
          ∃ vm, core''.vms[i]? = some vm ∧ AsAlone (create p.1 p.2) vm := by
  have hsettles : Settles machines core :=
    hreach.invariant (Settles machines) (fun _ _ h hbody => h.turn (turn_of_body hbody))
      (settles_newCore hslice scheduler t)
  have hsettled : ∃ core', Loop.Reaches (body transport) core core' ∧ Settles machines core'
      ∧ ∀ vm ∈ core'.vms, vm.Settled := by
    rcases hscheduler with ⟨s, rfl⟩ | rfl
    · have hgives := Scheduler.givesTurns_roundRobin machines.length
      exact ((takesTurns_roundRobin hregs s t).reaches hgives hreach).exists_settled hgives hsettles
        transport
    · have hgives := Scheduler.givesTurns_mlfq machines.length
      exact ((takesTurns_mlfq hregs t).reaches hgives hreach).exists_settled hgives hsettles transport
  obtain ⟨core', hreach', hsettles', hall⟩ := hsettled
  refine ⟨core', hreach', fun core'' hreach'' i p hp => ?_⟩
  -- from `core'` on no machine is changed
  rw [hsettles'.vms_eq hall hreach'']
  exact hsettles'.exists_asAlone hall hp

/-- The machine that stores a word comes to its end, although the other one migrates. -/
theorem run_settles_twoMachines : ∃ core' : HypervisorCore Unit,
    Loop.Reaches (body acceptingTransport) (newCore twoMachines (.mlfq {}) ()) core'
      ∧ ∃ vm, core'.vms[0]? = some vm
        ∧ AsAlone (create { name := [0x61], execSlice := 2, memoryBytes := 16 }
          VirtualMachine.storeAndLoad) vm := by
  obtain ⟨core', hreach, hsettled⟩ := run_settles twoMachines (by decide) (by decide) (.inr rfl) ()
    acceptingTransport .refl
  exact ⟨core', hreach, hsettled core' .refl 0 _ rfl⟩

end HypervisorCore

end VmmShowcase
