import VmmShowcase.Foundations.TextStream
import VmmShowcase.Vm.Stepping

/-! # What machines print

`DUMP_PROCESSOR_STATE` writes a line to the standard output; no other instruction does. A slice and
what the machine it leaves prints alone is what the machine before it prints alone, wherever the slice
ends: a slice that comes to a `MIGRATE` prints nothing when it is repeated. -/

namespace VmmShowcase

namespace VirtualMachine

open Text

/-- Register 1. -/
def registerOne : Fin 32 := ⟨1, Nat.le_of_ble_eq_true rfl⟩

/-- The line that `DUMP_PROCESSOR_STATE` writes. -/
def dumpLine (vm : VirtualMachine) : CString :=
  bytes ['[', 'V', 'M', ' '] ++ vm.config.name
    ++ bytes [']', ' ', 'P', 'C', '='] ++ decimal vm.cpu.pc.toNat
    ++ bytes [' ', 'R', '1', '='] ++ signedDecimal (vm.cpu.regs registerOne).toInt
    ++ bytes [' ', 'H', 'I', '='] ++ signedDecimal vm.cpu.hi.toInt
    ++ bytes [' ', 'L', 'O', '='] ++ signedDecimal vm.cpu.lo.toInt ++ [TextStream.newline]

/-- What `ExecuteOne` writes for the next instruction. -/
def printed (vm : VirtualMachine) : List CString :=
  match vm.fetch with
  | some inst => if inst.opcode = .dumpProcessorState then [vm.dumpLine] else []
  | none => []

/-- What `RunForSlice` writes. -/
def sliceOutput (vm : VirtualMachine) (maxInstructions : Nat) : List CString :=
  if vm.status.Done then [] else BudgetedRun.output sliceStep printed maxInstructions vm.start

/-- What the machine writes when it runs alone, unbounded. -/
def printsAlone (vm : VirtualMachine) : List CString := vm.sliceOutput vm.program.size

/-- A halted or faulted machine writes nothing. -/
theorem sliceOutput_of_done {vm : VirtualMachine} (h : vm.status.Done) (k : Nat) :
    vm.sliceOutput k = [] := if_pos h

/-- What a live machine writes. -/
theorem sliceOutput_of_not_done {vm : VirtualMachine} (h : ¬ vm.status.Done) (k : Nat) :
    vm.sliceOutput k = BudgetedRun.output sliceStep printed k vm.start := if_neg h

/-- Nothing is written at the end of the program. -/
theorem printed_of_fetch_none {vm : VirtualMachine} (h : vm.fetch = none) : vm.printed = [] := by
  rw [printed, h]

/-- The instruction that writes retires, so a round that stops writes nothing. -/
theorem printed_of_stop {vm vm' : VirtualMachine} (h : vm.sliceStep = some (false, vm')) :
    vm.printed = [] := by
  rcases sliceStep_stop h with ⟨hf, -⟩ | ⟨inst, hf, hexec⟩
  · exact printed_of_fetch_none hf
  · simp only [printed, hf]
    rw [if_neg]
    intro hop
    simp [executeOne, hop, retire] at hexec

/-- A machine at a `MIGRATE` writes nothing, whatever its status and its migration intent. -/
theorem sliceOutput_of_migrate {vm : VirtualMachine} {inst : Instruction} (hf : vm.fetch = some inst)
    (hop : inst.opcode = .migrate) (k : Nat) : vm.sliceOutput k = [] := by
  by_cases hdone : vm.status.Done
  · exact sliceOutput_of_done hdone k
  have hstep : vm.start.sliceStep = some (false, _) := sliceStep_of_migrate hf hop
  rw [sliceOutput_of_not_done hdone]
  cases k with
  | zero => rfl
  | succ k => rw [BudgetedRun.output_succ_stop printed hstep, printed_of_stop hstep]

/-- A machine that settled after a round that stopped writes nothing more. -/
theorem sliceOutput_settle_stopped {vm vm' : VirtualMachine}
    (h : vm.sliceStep = some (false, vm')) (k : Nat) : vm'.settle.sliceOutput k = [] := by
  rcases sliceStep_stop h with ⟨hf, rfl⟩ | ⟨inst, hf, hexec⟩
  · rw [settle_of_fetch_none hf]
    exact sliceOutput_of_done (.inl rfl) k
  rw [settle_of_executeOne hf hexec]
  cases executes_of_executeOne hexec with
  | raise => exact sliceOutput_of_done (.inr rfl) k
  | halt => exact sliceOutput_of_done (.inl rfl) k
  | migrate hop =>
      refine sliceOutput_of_migrate ?_ hop k
      exact hf

/-- A machine that settled while running goes on writing where it was. -/
theorem sliceOutput_settle_running {vm : VirtualMachine} (h : vm.status = .running) (k : Nat) :
    vm.settle.sliceOutput k = BudgetedRun.output sliceStep printed k vm := by
  cases hf : vm.fetch with
  | none =>
      have hstep : vm.sliceStep = some (false, vm) := by rw [sliceStep, hf]
      rw [settle_of_fetch_none hf, sliceOutput_of_done (.inl rfl)]
      cases k with
      | zero => rfl
      | succ k => rw [BudgetedRun.output_succ_stop printed hstep, printed_of_stop hstep]
  | some inst =>
      have hstart : vm.settle.start = vm := by
        rw [settle_of_fetch_some hf, if_pos h, start, ← h]
      have hlive : ¬ vm.settle.status.Done := by
        rw [settle_of_fetch_some hf, if_pos h]
        show ¬ VmStatus.Done .ready
        decide
      rw [sliceOutput_of_not_done hlive, hstart]

/-- All slices that reach the end of the program write the same. -/
theorem output_saturate {vm : VirtualMachine} {m n : Nat} (hm : vm.remaining ≤ m)
    (hn : vm.remaining ≤ n) :
    BudgetedRun.output sliceStep printed m vm = BudgetedRun.output sliceStep printed n vm := by
  refine BudgetedRun.output_saturate printed remaining (fun _ _ => remaining_of_sliceStep_advance)
    (fun _ => sliceStep_of_remaining_eq_zero) (fun u hu => ?_) hm hn
  exact printed_of_stop (sliceStep_of_remaining_eq_zero hu)

/-- **A slice takes what it writes from the front** of what the machine writes alone. -/
theorem sliceOutput_append {vm vm' : VirtualMachine} {k r : Nat}
    (h : vm.runForSlice k = some (r, vm')) :
    vm.sliceOutput k ++ vm'.printsAlone = vm.printsAlone := by
  have hsize : vm'.program.size = vm.program.size := by
    rw [(sameProgram_runForSlice h).program_eq]
  rcases runForSlice_cases h with ⟨hdone, -, rfl⟩ | ⟨hlive, u, hrun, rfl⟩
  · rw [sliceOutput_of_done hdone, List.nil_append]
  rw [printsAlone, printsAlone, hsize, sliceOutput_of_not_done hlive, sliceOutput_of_not_done hlive]
  obtain ⟨t, hadvances, hend⟩ := BudgetedRun.exists_advances hrun
  have hle : vm.start.remaining ≤ vm.program.size := Nat.sub_le _ _
  -- a budget that covers the slice and the whole program
  rw [output_saturate (m := vm.program.size) (n := k + vm.program.size) hle (by omega)]
  rcases hend with ⟨hlt, hstop⟩ | ⟨rfl, rfl⟩
  · rw [sliceOutput_settle_stopped hstop, List.append_nil, hadvances.output_eq printed hstop hlt,
      hadvances.output_eq printed hstop (Nat.lt_add_right _ hlt)]
  · have hrunning : u.status = .running :=
      hadvances.invariant (fun u => u.status = .running)
        (fun _ _ _ => status_of_sliceStep_advance) rfl
    rw [sliceOutput_settle_running hrunning, hadvances.output_add]

/-- A slice that leaves a migration pending leaves the machine at its `MIGRATE`. -/
theorem fetch_of_pending {vm vm' : VirtualMachine} {k r : Nat}
    (hpending : vm.pendingMigrationTarget = none) (h : vm.runForSlice k = some (r, vm'))
    (hsome : vm'.pendingMigrationTarget ≠ none) :
    ∃ inst, vm'.fetch = some inst ∧ inst.opcode = .migrate := by
  rcases runForSlice_cases h with ⟨-, -, rfl⟩ | ⟨-, u, hrun, rfl⟩
  · exact absurd hpending hsome
  rw [settle_pending] at hsome
  have hstart : Midway vm vm.start := ⟨hpending, rfl⟩
  rcases BudgetedRun.run_cases (Midway vm) (fun _ _ h => h.sliceStep) hstart hrun with
    ⟨-, t, ht, hstop⟩ | ⟨-, hu⟩
  · rcases sliceStep_stop hstop with ⟨-, rfl⟩ | ⟨inst, hf, hexec⟩
    · exact absurd ht.pending hsome
    rw [settle_of_executeOne hf hexec]
    cases executes_of_executeOne hexec with
    | raise | halt => exact absurd ht.pending hsome
    | migrate hop => exact ⟨inst, hf, hop⟩
  · exact absurd hu.pending hsome

end VirtualMachine

end VmmShowcase
