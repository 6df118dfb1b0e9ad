import VmmShowcase.Cpu.Instruction
import VmmShowcase.Foundations.BudgetedRun
import VmmShowcase.Memory.VirtualMemory

/-! # Virtual machines

`include/vm/virtual_machine.hpp` and `src/vm/virtual_machine.cpp`. Register operands index the
register file unchecked, so an operand outside it makes the behaviour undefined: the functions
below have no value (`none`) there. Signed arithmetic is two's-complement wrapping, also where a host can
trap: the least number divided by -1 is itself, with remainder 0. -/

namespace VmmShowcase

namespace CpuState

/-- The register an operand names, if it names one. -/
def registerIndex (idx : Int) : Option (Fin 32) :=
  if h : RegisterIndex idx then some ⟨idx.toNat, by have := h.1; have := h.2; omega⟩ else none

/-- `Reg(idx)`, read. -/
def reg (cpu : CpuState) (idx : Int) : Option Word := (registerIndex idx).map cpu.regs

/-- `Reg(idx)`, written. -/
def setReg (cpu : CpuState) (idx : Int) (value : Word) : Option CpuState :=
  (registerIndex idx).map fun i => { cpu with regs := Function.update cpu.regs i value }

/-- `++pc`. -/
def advance (cpu : CpuState) : CpuState := { cpu with pc := cpu.pc + 1 }

/-- Writing a register leaves the program counter. -/
theorem setReg_pc {cpu cpu' : CpuState} {idx : Int} {value : Word}
    (h : cpu.setReg idx value = some cpu') : cpu'.pc = cpu.pc := by
  rw [setReg, Option.map_eq_some_iff] at h
  obtain ⟨i, -, rfl⟩ := h
  rfl

/-- An operand in range names a register. -/
theorem exists_registerIndex {idx : Int} (h : RegisterIndex idx) : ∃ i, registerIndex idx = some i :=
  ⟨_, dif_pos h⟩

/-- An operand in range can be read. -/
theorem exists_reg (cpu : CpuState) {idx : Int} (h : RegisterIndex idx) :
    ∃ value, cpu.reg idx = some value := by
  obtain ⟨i, hi⟩ := exists_registerIndex h
  exact ⟨cpu.regs i, by rw [reg, hi, Option.map_some]⟩

/-- An operand in range can be written. -/
theorem exists_setReg (cpu : CpuState) {idx : Int} (h : RegisterIndex idx) (value : Word) :
    ∃ cpu', cpu.setReg idx value = some cpu' := by
  obtain ⟨i, hi⟩ := exists_registerIndex h
  exact ⟨_, by rw [setReg, hi, Option.map_some]⟩

end CpuState

/-- The fault of a division by zero. -/
def divideByZero : VmFault := ⟨.divideByZero, "division by zero"⟩

/-- The fault of an instruction the machine does not execute. -/
def illegalOpcode : VmFault := ⟨.illegalOpcode, "illegal opcode"⟩

/-- A virtual machine. -/
structure VirtualMachine where
  config : VmConfig
  program : Program
  cpu : CpuState := {}
  memory : VirtualMemory
  status : VmStatus := .ready
  lastFault : VmFault := {}
  pendingMigrationTarget : Option CString := none

namespace VirtualMachine

/-- `VirtualMachine(config, program)`. -/
def create (config : VmConfig) (program : Program) : VirtualMachine where
  config := config
  program := program
  memory := VirtualMemory.create config.memoryBytes

/-- `program_[cpu_.pc]`, if the program counter is below the program's size. -/
def fetch (vm : VirtualMachine) : Option Instruction := vm.program.insts[vm.cpu.pc.toNat]?

/-- The end of `ExecuteOne` for an instruction that retires with the processor in state `cpu`. -/
def retire (vm : VirtualMachine) (cpu : CpuState) : Nat × VirtualMachine :=
  (1, { vm with cpu := cpu.advance, status := .running })

/-- The end of `ExecuteOne` for an instruction that faults. -/
def raise (vm : VirtualMachine) (fault : VmFault) : Nat × VirtualMachine :=
  (0, { vm with lastFault := fault, status := .faulted })

/-- `ExecuteOne`: the number of instructions retired, 0 or 1, and the machine after it. -/
def executeOne (vm : VirtualMachine) (inst : Instruction) : Option (Nat × VirtualMachine) :=
  match inst.opcode with
  | .li => do
      let cpu ← vm.cpu.setReg inst.rd inst.imm
      return vm.retire cpu
  | .add => do
      let cpu ← vm.cpu.setReg inst.rd ((← vm.cpu.reg inst.rs) + (← vm.cpu.reg inst.rt))
      return vm.retire cpu
  | .addi => do
      let cpu ← vm.cpu.setReg inst.rd ((← vm.cpu.reg inst.rs) + inst.imm)
      return vm.retire cpu
  | .sub => do
      let cpu ← vm.cpu.setReg inst.rd ((← vm.cpu.reg inst.rs) - (← vm.cpu.reg inst.rt))
      return vm.retire cpu
  | .mul => do
      let cpu ← vm.cpu.setReg inst.rd ((← vm.cpu.reg inst.rs) * (← vm.cpu.reg inst.rt))
      return vm.retire cpu
  | .div => do
      let divisor ← vm.cpu.reg inst.rt
      if divisor = 0 then return vm.raise divideByZero
      let dividend ← vm.cpu.reg inst.rs
      return vm.retire { vm.cpu with lo := dividend.sdiv divisor, hi := dividend.srem divisor }
  | .lw =>
      match vm.memory.readWord inst.imm with
      | (.error fault, memory) => some ({ vm with memory := memory }.raise fault)
      | (.ok value, memory) => do
          let cpu ← vm.cpu.setReg inst.rd value
          return { vm with memory := memory }.retire cpu
  | .sw => do
      let value ← vm.cpu.reg inst.rs
      match vm.memory.writeWord inst.imm value with
      | (.error fault, memory) => return { vm with memory := memory }.raise fault
      | (.ok (), memory) => return { vm with memory := memory }.retire vm.cpu
  | .dumpProcessorState | .snapshot => some (vm.retire vm.cpu)
  | .migrate =>
      some (0, { vm with pendingMigrationTarget := some inst.label, status := .blocked })
  | .halt => some (0, { vm with status := .halted })
  -- the `default:` label: no case of the switch handles these
  | .and | .or | .xor | .sll | .srl | .invalid => some (vm.raise illegalOpcode)

/-- One round of the loop in `RunForSlice`: the loop is left at the end of the program and where
`ExecuteOne` returns 0, otherwise `ran` grows by the 1 it returned. -/
def sliceStep (vm : VirtualMachine) : Option (Bool × VirtualMachine) :=
  match vm.fetch with
  | none => some (false, vm)
  | some inst => (vm.executeOne inst).map fun p => (p.1 != 0, p.2)

/-- The status `RunForSlice` leaves after its loop. -/
def settle (vm : VirtualMachine) : VirtualMachine :=
  if vm.program.size ≤ vm.cpu.pc.toNat then { vm with status := .halted }
  else if vm.status = .running then { vm with status := .ready }
  else vm

/-- `RunForSlice`: the number of instructions retired and the machine after the slice. -/
def runForSlice (vm : VirtualMachine) (maxInstructions : Nat) : Option (Nat × VirtualMachine) :=
  if vm.status.Done then some (0, vm)
  else
    (BudgetedRun.run sliceStep maxInstructions { vm with status := .running }).map
      fun p => (p.1, p.2.settle)

/-- `Snapshot`. -/
def snapshot (vm : VirtualMachine) : VmSnapshot where
  vmName := vm.config.name
  cpu := vm.cpu
  pageTable := vm.memory.pageTable
  memoryBytes := vm.memory.bytes

/-- `Restore`. -/
def restore (vm : VirtualMachine) (snapshot : VmSnapshot) : VirtualMachine :=
  { vm with
    cpu := snapshot.cpu
    memory := (vm.memory.setBytes snapshot.memoryBytes).restorePageTable snapshot.pageTable
    status := .ready }

/-- `ClearMigrationIntent`. -/
def clearMigrationIntent (vm : VirtualMachine) : VirtualMachine :=
  { vm with pendingMigrationTarget := none }

end VirtualMachine

end VmmShowcase
