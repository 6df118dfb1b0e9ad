import VmmShowcase.Vm.Stepping

/-! # Machines that finish

A machine finishes if its program comes to its end, to a `HALT` or to a fault, with no `MIGRATE`
before. Slices keep a finishing machine finishing until it is halted or faulted, and each uses up
part of the program. A machine that does not finish is never halted or faulted by a slice: `MIGRATE`
leaves the program counter where it is, so the next slice executes it again. -/

namespace VmmShowcase

namespace VirtualMachine

/-- Execution comes to the end of the program, to a `HALT` or to a fault, before any `MIGRATE` and
without undefined behaviour. -/
inductive Finishes : VirtualMachine → Prop where
  | ended {vm : VirtualMachine} (hf : vm.fetch = none) : Finishes vm
  | stopped {vm vm' : VirtualMachine} {inst : Instruction} (hf : vm.fetch = some inst)
      (hop : inst.opcode ≠ .migrate) (hexec : vm.executeOne inst = some (0, vm')) : Finishes vm
  | retired {vm vm' : VirtualMachine} {inst : Instruction} (hf : vm.fetch = some inst)
      (hexec : vm.executeOne inst = some (1, vm')) (h : Finishes vm') : Finishes vm

/-- The machine is halted or faulted, or will be. -/
def WillStop (vm : VirtualMachine) : Prop := vm.status.Done ∨ vm.Finishes

/-- With register operands in range, a program without `MIGRATE` finishes from everywhere. -/
theorem finishes_of_migrateFree {vm : VirtualMachine} (hregs : vm.program.RegistersInRange)
    (hfree : vm.program.MigrateFree) : vm.Finishes := by
  -- by induction on what remains of the program, which every retired instruction shortens
  induction hn : vm.remaining using Nat.strongRecOn generalizing vm with
  | ind n ih =>
      cases hf : vm.fetch with
      | none => exact .ended hf
      | some inst =>
          have hmem := fetch_mem hf
          obtain ⟨p, hp⟩ := vm.exists_executeOne (hregs inst hmem)
          cases executes_of_executeOne hp with
          | retire hop memory cpu hpc =>
              have hlt := pc_lt_of_fetch hf
              have hpc' := toNat_advance_pc hf hpc
              refine .retired hf hp (ih _ ?_ hregs hfree rfl)
              show vm.program.size - cpu.advance.pc.toNat < n
              rw [← hn, remaining]
              omega
          | raise hop => exact .stopped hf hop hp
          | migrate hop => exact absurd hop (hfree inst hmem)
          | halt hop => exact .stopped hf (hfree inst hmem) hp

/-! ## What finishing does not depend on -/

/-- No instruction looks at the status: each sets it. -/
theorem executeOne_status (vm : VirtualMachine) (status : VmStatus) (inst : Instruction) :
    executeOne { vm with status := status } inst = vm.executeOne inst := by
  -- also where an instruction retires: `retire` sets the status to running
  cases hop : inst.opcode <;> simp only [executeOne, hop] <;> rfl

/-- Finishing does not depend on the status. -/
theorem Finishes.status {vm : VirtualMachine} (h : vm.Finishes) (status : VmStatus) :
    Finishes { vm with status := status } := by
  cases h with
  | ended hf => exact .ended hf
  | stopped hf hop hexec => exact .stopped hf hop (by rw [executeOne_status, hexec])
  | retired hf hexec h => exact .retired hf (by rw [executeOne_status, hexec]) h

/-- Finishing does not depend on the status, either way. -/
theorem finishes_status_iff {vm : VirtualMachine} {status : VmStatus} :
    Finishes { vm with status := status } ↔ vm.Finishes :=
  ⟨fun h => h.status vm.status, fun h => h.status status⟩

/-- No instruction but `MIGRATE` touches the migration intent. -/
theorem executeOne_pending (vm : VirtualMachine) (target : Option CString) {inst : Instruction}
    (hop : inst.opcode ≠ .migrate) :
    executeOne { vm with pendingMigrationTarget := target } inst
      = (vm.executeOne inst).map fun p =>
        (p.1, { p.2 with pendingMigrationTarget := target }) := by
  cases hop' : inst.opcode with
  | li =>
      simp only [executeOne, hop']
      cases vm.cpu.setReg inst.rd inst.imm <;> rfl
  | add | sub | mul =>
      simp only [executeOne, hop']
      cases vm.cpu.reg inst.rs with
      | none => rfl
      | some a =>
          cases vm.cpu.reg inst.rt with
          | none => rfl
          | some b =>
              simp only [Option.bind_eq_bind, Option.bind_some]
              cases vm.cpu.setReg inst.rd _ <;> rfl
  | addi =>
      simp only [executeOne, hop']
      cases vm.cpu.reg inst.rs with
      | none => rfl
      | some a =>
          simp only [Option.bind_eq_bind, Option.bind_some]
          cases vm.cpu.setReg inst.rd _ <;> rfl
  | div =>
      simp only [executeOne, hop']
      cases vm.cpu.reg inst.rt with
      | none => rfl
      | some divisor =>
          simp only [Option.bind_eq_bind, Option.bind_some]
          by_cases hzero : divisor = 0
          · rw [if_pos hzero, if_pos hzero]
            rfl
          · rw [if_neg hzero, if_neg hzero]
            cases vm.cpu.reg inst.rs <;> rfl
  | lw =>
      simp only [executeOne, hop']
      rcases vm.memory.readWord inst.imm with ⟨fault | value, memory⟩
      · rfl
      · show (vm.cpu.setReg inst.rd value).bind _ = Option.map _ ((vm.cpu.setReg inst.rd value).bind _)
        cases vm.cpu.setReg inst.rd value <;> rfl
  | sw =>
      simp only [executeOne, hop']
      cases vm.cpu.reg inst.rs with
      | none => rfl
      | some value =>
          simp only [Option.bind_eq_bind, Option.bind_some]
          rcases vm.memory.writeWord inst.imm value with ⟨fault | value, memory⟩ <;> rfl
  | migrate => exact absurd hop' hop
  | dumpProcessorState | snapshot | halt | and | or | xor | sll | srl | invalid =>
      simp only [executeOne, hop']
      rfl

/-- Finishing does not depend on the migration intent. -/
theorem Finishes.pending {vm : VirtualMachine} (h : vm.Finishes) (target : Option CString) :
    Finishes { vm with pendingMigrationTarget := target } := by
  induction h with
  | ended hf => exact .ended hf
  | @stopped vm _ _ hf hop hexec =>
      have hexec' := executeOne_pending vm target hop
      rw [hexec, Option.map_some] at hexec'
      exact .stopped hf hop hexec'
  | @retired vm vm' inst hf hexec _ ih =>
      -- what retires is no `MIGRATE`, so the intent is carried along
      have hop : inst.opcode ≠ .migrate := by
        intro hop
        simp [executeOne, hop] at hexec
      refine .retired hf ?_ ih
      rw [executeOne_pending _ target hop, hexec, Option.map_some]

/-- Clearing the migration intent does not change whether a machine stops. -/
theorem willStop_clearMigrationIntent {vm : VirtualMachine} :
    vm.clearMigrationIntent.WillStop ↔ vm.WillStop := by
  have hiff : vm.clearMigrationIntent.Finishes ↔ vm.Finishes :=
    ⟨fun h => h.pending vm.pendingMigrationTarget, fun h => h.pending none⟩
  rw [WillStop, WillStop, hiff]
  rfl

/-! ## One round of a slice -/

/-- A round that advances changes nothing about finishing. -/
theorem finishes_of_sliceStep_advance {vm vm' : VirtualMachine}
    (h : vm.sliceStep = some (true, vm')) : vm.Finishes ↔ vm'.Finishes := by
  obtain ⟨inst, hf, hexec⟩ := executeOne_of_advance h
  constructor
  · intro hfin
    cases hfin with
    | ended hf' => rw [hf] at hf'; cases hf'
    | stopped hf' _ hexec' =>
        rw [hf] at hf'
        cases hf'
        rw [hexec] at hexec'
        cases hexec'
    | retired hf' hexec' h =>
        rw [hf] at hf'
        cases hf'
        rw [hexec] at hexec'
        cases hexec'
        exact h
  · exact fun hfin => .retired hf hexec hfin

/-- The rounds of a finishing machine have defined behaviour. -/
theorem Finishes.exists_sliceStep {vm : VirtualMachine} (h : vm.Finishes) :
    ∃ p, vm.sliceStep = some p := by
  rw [VirtualMachine.sliceStep]
  cases h with
  | ended hf => exact ⟨_, by rw [hf]⟩
  | stopped hf _ hexec => exact ⟨(false, _), by simp only [hf, hexec, Option.map_some]; rfl⟩
  | retired hf hexec _ => exact ⟨(true, _), by simp only [hf, hexec, Option.map_some]; rfl⟩

/-- **A round that stops.** A finishing machine settles as halted or faulted. Any other one stops at
a `MIGRATE`, which it has still to execute. -/
theorem sliceStep_stop_cases {vm vm' : VirtualMachine} (h : vm.sliceStep = some (false, vm')) :
    (vm.Finishes ∧ vm'.settle.status.Done)
      ∨ ¬ vm.Finishes ∧ ¬ vm'.settle.Finishes ∧ vm'.settle.status = .blocked := by
  rcases sliceStep_stop h with ⟨hf, rfl⟩ | ⟨inst, hf, hexec⟩
  · refine .inl ⟨.ended hf, ?_⟩
    rw [settle_of_fetch_none hf]
    exact .inl rfl
  rw [settle_of_executeOne hf hexec]
  by_cases hop : inst.opcode = .migrate
  · -- the program counter stays, so the machine is as stuck as before
    refine .inr ?_
    have hstuck : ∀ u : VirtualMachine, u.fetch = some inst → ¬ u.Finishes := by
      intro u hu hfin
      cases hfin with
      | ended hf' => rw [hu] at hf'; cases hf'
      | stopped hf' hop' _ =>
          rw [hu] at hf'
          cases hf'
          exact hop' hop
      | retired hf' hexec' _ =>
          rw [hu] at hf'
          cases hf'
          simp [executeOne, hop] at hexec'
    simp only [executeOne, hop] at hexec
    cases hexec
    exact ⟨hstuck vm hf, hstuck _ hf, rfl⟩
  · refine .inl ⟨.stopped hf hop hexec, ?_⟩
    cases executes_of_executeOne hexec with
    | raise => exact .inr rfl
    | migrate hop' => exact absurd hop' hop
    | halt => exact .inl rfl

/-! ## Slices -/

/-- Settling only changes the status. -/
theorem settle_eq (vm : VirtualMachine) : ∃ status, vm.settle = { vm with status := status } := by
  rw [settle]
  split
  · exact ⟨_, rfl⟩
  · split
    · exact ⟨_, rfl⟩
    · exact ⟨vm.status, rfl⟩

/-- Settling does not change whether a machine finishes. -/
theorem finishes_settle_iff {vm : VirtualMachine} : vm.settle.Finishes ↔ vm.Finishes := by
  obtain ⟨status, hsettle⟩ := vm.settle_eq
  rw [hsettle]
  exact finishes_status_iff

/-- **A slice neither saves nor dooms a machine.** After a slice a machine will stop exactly if it
would before. -/
theorem willStop_runForSlice {vm vm' : VirtualMachine} {k r : Nat}
    (h : vm.runForSlice k = some (r, vm')) : vm'.WillStop ↔ vm.WillStop := by
  rcases runForSlice_cases h with ⟨-, -, rfl⟩ | ⟨hlive, u, hrun, rfl⟩
  · rfl
  have hstart : vm.WillStop ↔ vm.start.Finishes := by
    rw [WillStop, or_iff_right hlive]
    exact finishes_status_iff.symm
  rw [hstart]
  have hadvance : ∀ s s' : VirtualMachine, (vm.start.Finishes ↔ s.Finishes) ∧ s.status = .running →
      s.sliceStep = some (true, s') → (vm.start.Finishes ↔ s'.Finishes) ∧ s'.status = .running := by
    intro s s' h hs
    exact ⟨h.1.trans (finishes_of_sliceStep_advance hs), status_of_sliceStep_advance hs⟩
  rcases BudgetedRun.run_cases (fun s => (vm.start.Finishes ↔ s.Finishes) ∧ s.status = .running)
    hadvance ⟨Iff.rfl, rfl⟩ hrun with ⟨-, t, ⟨ht, -⟩, hstop⟩ | ⟨-, hiff, hrunning⟩
  · rw [ht, WillStop]
    rcases sliceStep_stop_cases hstop with ⟨hfin, hdone'⟩ | ⟨hnot, hnot', hblocked⟩
    · exact iff_of_true (.inl hdone') hfin
    · refine iff_of_false ?_ hnot
      rintro (hdone' | hfin)
      · rw [hblocked] at hdone'
        exact absurd hdone' (by decide)
      · exact hnot' hfin
  · -- the slice used its budget up, and a machine at the end of its program finishes anyway
    rw [hiff, WillStop, finishes_settle_iff]
    constructor
    · rintro (hdone' | hfin)
      · cases hf : u.fetch with
        | none => exact .ended hf
        | some inst =>
            rw [settle_of_fetch_some hf, if_pos hrunning] at hdone'
            exact absurd hdone' (by show ¬ VmStatus.Done .ready; decide)
      · exact hfin
    · exact fun hfin => .inr hfin

/-- The slices of a machine that will stop have defined behaviour, and it still will. -/
theorem WillStop.exists_runForSlice {vm : VirtualMachine} (h : vm.WillStop) (k : Nat) :
    ∃ r vm', vm.runForSlice k = some (r, vm') ∧ vm'.WillStop := by
  by_cases hdone : vm.status.Done
  · exact ⟨_, _, runForSlice_of_done hdone k, h⟩
  · have hfin : vm.start.Finishes := (h.resolve_left hdone).status .running
    obtain ⟨⟨r, u⟩, hrun⟩ := BudgetedRun.exists_run Finishes (fun _ h => h.exists_sliceStep)
      (fun _ _ h hs => (finishes_of_sliceStep_advance hs).mp h) vm.start hfin k
    have hslice : vm.runForSlice k = some (r, u.settle) := by
      rw [runForSlice_of_not_done hdone, hrun, Option.map_some]
    exact ⟨r, u.settle, hslice, (willStop_runForSlice hslice).mpr h⟩

/-- What a machine has left to do: nothing once it is halted or faulted. -/
def weight (vm : VirtualMachine) : Nat := if vm.status.Done then 0 else vm.remaining + 1

/-- The weight of a machine is at most one more than what remains of its program. -/
theorem weight_le (vm : VirtualMachine) : vm.weight ≤ vm.remaining + 1 := by
  rw [weight]
  split <;> omega

/-- A slice lowers what remains of the program by the instructions it retires. -/
theorem remaining_runForSlice {vm vm' : VirtualMachine} {k r : Nat}
    (h : vm.runForSlice k = some (r, vm')) : vm'.remaining + r ≤ vm.remaining := by
  rcases runForSlice_cases h with ⟨-, rfl, rfl⟩ | ⟨-, u, hrun, rfl⟩
  · exact Nat.le_refl _
  have hstop : ∀ s s' : VirtualMachine, s.sliceStep = some (false, s') →
      s'.remaining ≤ s.remaining := by
    intro s s' hs
    rcases sliceStep_stop hs with ⟨-, rfl⟩ | ⟨inst, -, hexec⟩
    · exact Nat.le_refl _
    · cases executes_of_executeOne hexec with
      | raise | migrate | halt => exact Nat.le_refl _
  have hmeasure := BudgetedRun.run_measure remaining
    (fun _ _ => remaining_of_sliceStep_advance) hstop hrun
  obtain ⟨status, hsettle⟩ := u.settle_eq
  rw [hsettle]
  exact hmeasure

/-- A slice never raises the weight. -/
theorem weight_runForSlice_le {vm vm' : VirtualMachine} {k r : Nat}
    (h : vm.runForSlice k = some (r, vm')) : vm'.weight ≤ vm.weight := by
  rcases runForSlice_cases h with ⟨-, -, rfl⟩ | ⟨hlive, -⟩
  · exact Nat.le_refl _
  · have hremaining := remaining_runForSlice h
    have hle := vm'.weight_le
    have hweight : vm.weight = vm.remaining + 1 := if_neg hlive
    omega

/-- **A slice makes progress.** A nonempty slice lowers the weight of a live machine that will
stop. -/
theorem weight_runForSlice_lt {vm vm' : VirtualMachine} {k r : Nat} (hlive : ¬ vm.status.Done)
    (hstop : vm.WillStop) (hk : 1 ≤ k) (h : vm.runForSlice k = some (r, vm')) :
    vm'.weight < vm.weight := by
  have hremaining := remaining_runForSlice h
  have hle := vm'.weight_le
  have hweight : vm.weight = vm.remaining + 1 := if_neg hlive
  rw [hweight]
  rcases Nat.eq_zero_or_pos r with rfl | hpos
  · -- no instruction retired, so the slice stopped, and not at a `MIGRATE`
    rcases runForSlice_cases h with ⟨hdone, -⟩ | ⟨-, u, hrun, rfl⟩
    · exact absurd hdone hlive
    rcases BudgetedRun.run_cases Finishes (fun _ _ h hs => (finishes_of_sliceStep_advance hs).mp h)
      ((hstop.resolve_left hlive).status .running) hrun with ⟨-, t, ht, hstep⟩ | ⟨hzero, -⟩
    · rcases sliceStep_stop_cases hstep with ⟨-, hdone⟩ | ⟨hnot, -⟩
      · rw [weight, if_pos hdone]
        omega
      · exact absurd ht hnot
    · exact absurd hzero (Nat.ne_of_lt hk)
  · omega

end VirtualMachine

end VmmShowcase
