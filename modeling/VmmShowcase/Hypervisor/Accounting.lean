import VmmShowcase.Hypervisor.Termination
import VmmShowcase.Vm.PreciseStops
import VmmShowcase.Vm.SnapshotRestore

/-! # Every retired instruction is counted once

At every head of the loop of `Run` the instruction counter of a name is the sum of the program
counters of the machines with that name. The counter grows by what the dispatched slice returns; the
two pre-copy slices of a migration are not counted, and retire nothing, since a machine that asks for
a migration stands at its `MIGRATE`. -/

namespace VmmShowcase

namespace MetricsTracer

/-- `Stats().instructionsByVm[name]`. -/
def instructions (metrics : MetricsTracer) (name : CString) : Nat :=
  (metrics.stats.instructionsByVm name).getD 0

/-- Counting a dispatch counts no instructions. -/
@[simp] theorem instructions_recordDispatch (metrics : MetricsTracer) (vmName name : CString) :
    (metrics.recordDispatch vmName).instructions name = metrics.instructions name := rfl

/-- Counting instructions counts them for their name only. -/
theorem instructions_recordInstructions (metrics : MetricsTracer) (vmName name : CString)
    (count : Nat) : (metrics.recordInstructions vmName count).instructions name
      = metrics.instructions name + if vmName = name then count else 0 := by
  have hinsert : (metrics.recordInstructions vmName count).instructions name
      = (metrics.stats.instructionsByVm.insert vmName (metrics.instructions vmName + count)
          name).getD 0 := rfl
  rw [hinsert]
  by_cases h : vmName = name
  · subst h
    rw [if_pos rfl, Table.insert_self, Option.getD_some]
  · rw [if_neg h, Table.insert_of_ne _ _ (Ne.symm h), Nat.add_zero, instructions]

end MetricsTracer

namespace VirtualMachine

/-- A slice moves the program counter by what it returns. -/
theorem pc_runForSlice {vm vm' : VirtualMachine} {k r : Nat}
    (h : vm.runForSlice k = some (r, vm')) : vm'.cpu.pc.toNat = vm.cpu.pc.toNat + r := by
  by_cases hdone : vm.status.Done
  · rw [runForSlice_of_done hdone] at h
    cases h
    rfl
  · exact (preciseStop_of_runForSlice hdone h).pc_eq

end VirtualMachine

namespace HypervisorCore

variable {τ : Type} {transport : Transport τ}

/-- The instructions the machines with a name have retired. -/
def retiredBy (name : CString) (vms : List VirtualMachine) : Nat :=
  ((vms.filter fun vm => vm.config.name = name).map fun vm => vm.cpu.pc.toNat).sum

/-- What a machine has retired for a name. -/
def share (name : CString) (vm : VirtualMachine) : Nat :=
  if vm.config.name = name then vm.cpu.pc.toNat else 0

/-- `retiredBy` sums the shares of all machines. -/
theorem retiredBy_eq (name : CString) (vms : List VirtualMachine) :
    retiredBy name vms = (vms.map (share name)).sum := by
  induction vms with
  | nil => rfl
  | cons vm vms ih =>
      rw [retiredBy] at ih ⊢
      rw [List.map_cons, List.sum_cons, ← ih, share]
      by_cases h : vm.config.name = name
      · rw [List.filter_cons_of_pos (by simpa using h), if_pos h, List.map_cons, List.sum_cons]
      · rw [List.filter_cons_of_neg (by simpa using h), if_neg h, Nat.zero_add]

/-- Every machine's program counter is counted for its name, and no migration is pending. -/
structure Accounted (core : HypervisorCore τ) : Prop where
  pending : ∀ vm ∈ core.vms, vm.pendingMigrationTarget = none
  counted : ∀ name, core.metrics.instructions name = retiredBy name core.vms

/-- **What a dispatch counts.** It counts the instructions of the dispatched slice, and the machine
retires no others: the pre-copy slices of a migration find it at its `MIGRATE`. -/
theorem counted_of_dispatch {core core' : HypervisorCore τ} {idx : Nat} {vm : VirtualMachine}
    (hpending : vm.pendingMigrationTarget = none)
    (h : core.dispatch transport idx vm = some core') :
    ∃ r vm', core'.vms = core.vms.set idx vm' ∧ vm'.config = vm.config
      ∧ vm'.pendingMigrationTarget = none ∧ vm'.cpu.pc.toNat = vm.cpu.pc.toNat + r
      ∧ core'.metrics = (core.metrics.recordDispatch vm.config.name).recordInstructions
        vm.config.name r := by
  simp only [dispatch, Option.bind_eq_bind, Option.bind_eq_some_iff] at h
  obtain ⟨⟨r, vm₁⟩, h₁, h⟩ := h
  have hpc := VirtualMachine.pc_runForSlice h₁
  have hconfig := (VirtualMachine.sameProgram_runForSlice h₁).config_eq
  cases htarget : vm₁.pendingMigrationTarget with
  | none =>
      simp only [htarget] at h
      cases h
      exact ⟨r, vm₁, rfl, hconfig, htarget, hpc, by rw [hconfig]⟩
  | some target =>
      simp only [htarget, Option.bind_eq_some_iff] at h
      obtain ⟨⟨vm₃, packet, outcome⟩, hmigrate, hcore⟩ := h
      obtain ⟨⟨r₂, vm₂, r₃, h₂, h₃⟩, -, -⟩ := MigrationService.preCopyMigrate_cases hmigrate
      obtain ⟨-, -, hstays⟩ := VirtualMachine.blocked_of_pending hpending h₁ (by simp [htarget])
      -- both pre-copy slices execute the `MIGRATE` again and leave the machine as it is
      rw [hstays (by omega)] at h₂
      cases h₂
      rw [hstays (by omega)] at h₃
      cases h₃
      cases hcore
      exact ⟨r, vm₁.clearMigrationIntent, rfl, hconfig, rfl, hpc, by rw [hconfig]⟩

/-- A dispatch keeps the accounts. -/
theorem Accounted.of_dispatch {core core' : HypervisorCore τ} (h : core.Accounted) {idx : Nat}
    {vm : VirtualMachine} (hvm : core.vms[idx]? = some vm)
    (hdispatch : core.dispatch transport idx vm = some core') : core'.Accounted := by
  have hpending := h.pending vm (List.mem_of_getElem? hvm)
  obtain ⟨r, vm', hvms, hconfig, hpending', hpc, hmetrics⟩ := counted_of_dispatch hpending hdispatch
  refine ⟨?_, fun name => ?_⟩
  · rw [hvms]
    intro u hu
    rcases List.mem_or_eq_of_mem_set hu with hmem | rfl
    · exact h.pending u hmem
    · exact hpending'
  · have hsum := sum_map_set (share name) vm' hvm
    have hshare : share name vm' = share name vm + if vm.config.name = name then r else 0 := by
      rw [share, share, hconfig, hpc]
      split <;> rfl
    rw [hmetrics, MetricsTracer.instructions_recordInstructions,
      MetricsTracer.instructions_recordDispatch, h.counted, hvms, retiredBy_eq, retiredBy_eq]
    omega

/-- An iteration keeps the accounts. -/
theorem Accounted.next {core core' : HypervisorCore τ} (h : core.Accounted)
    (hbody : body transport core = .next core') : core'.Accounted := by
  have hskip : Accounted { core with scheduler := core.pick.2 } := ⟨h.pending, h.counted⟩
  rcases cases_of_body hbody with ⟨-, -, -, -, rfl⟩ | ⟨vm, hvm, -, hdispatch⟩
  · exact hskip
  · exact hskip.of_dispatch hvm hdispatch

/-- New machines have retired nothing. -/
theorem accounted_create (machines : List (VmConfig × Program)) (scheduler : Scheduler) (s : τ) :
    Accounted { vms := machines.map fun p => .create p.1 p.2, scheduler, transport := s } := by
  refine ⟨?_, fun name => ?_⟩
  · intro vm hvm
    obtain ⟨p, -, rfl⟩ := List.mem_map.mp hvm
    rfl
  · rw [retiredBy_eq, List.map_map]
    symm
    apply List.sum_eq_zero_iff_forall_eq_nat.mpr
    intro n hn
    obtain ⟨p, -, rfl⟩ := List.mem_map.mp hn
    show (if _ then 0 else 0) = 0
    split <;> rfl

/-- **Instruction accounting.** For new machines, any scheduler and any transport, at every head of
the loop of `Run` the counter of every name is the sum of the program counters of the machines with
that name. -/
theorem run_accounts (machines : List (VmConfig × Program)) (scheduler : Scheduler) (s : τ)
    (transport : Transport τ) {core : HypervisorCore τ}
    (hreach : Loop.Reaches (body transport)
      { vms := machines.map fun p => .create p.1 p.2, scheduler, transport := s } core)
    (name : CString) : (core.metrics.stats.instructionsByVm name).getD 0
      = ((core.vms.filter fun vm => vm.config.name = name).map fun vm => vm.cpu.pc.toNat).sum := by
  have hinvariant : core.Accounted :=
    hreach.invariant Accounted (fun _ _ h hbody => h.next hbody)
      (accounted_create machines scheduler s)
  exact hinvariant.counted name

/-- The theorem for two machines of one name, one of them migrating, behind the dispatch of the first
one. -/
theorem run_accounts_sharedName : ∃ core : HypervisorCore Unit,
    core.log = [.dispatched 0]
      ∧ (core.metrics.stats.instructionsByVm [0x61]).getD 0
        = ((core.vms.filter fun vm => vm.config.name = [0x61]).map fun vm => vm.cpu.pc.toNat).sum :=
  ⟨_, rfl, run_accounts
    [({ name := [0x61], execSlice := 2, memoryBytes := 16 }, VirtualMachine.storeAndLoad),
      ({ name := [0x61] }, migratingProgram)]
    (.roundRobin {}) () acceptingTransport (.single rfl) [0x61]⟩

end HypervisorCore

end VmmShowcase
