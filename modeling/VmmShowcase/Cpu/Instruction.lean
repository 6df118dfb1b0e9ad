import VmmShowcase.Common.Types

/-! # Instructions and programs

`include/cpu/instruction.hpp`. Register operands are C++ `int`s: nothing in the type keeps them
inside the register file, so that is a property of a program. -/

namespace VmmShowcase

/-- The operation codes. -/
inductive Opcode where
  | li | add | addi | sub | mul | div | and | or | xor | sll | srl | lw | sw
  | dumpProcessorState | snapshot | migrate | halt | invalid
  deriving DecidableEq, Repr

/-- A decoded instruction. -/
structure Instruction where
  opcode : Opcode := .invalid
  rd : Int := 0
  rs : Int := 0
  rt : Int := 0
  imm : Word := 0
  label : CString := []
  deriving DecidableEq

/-- A register operand names one of the 32 registers. -/
def RegisterIndex (idx : Int) : Prop := 0 ≤ idx ∧ idx < 32

instance (idx : Int) : Decidable (RegisterIndex idx) := inferInstanceAs (Decidable (_ ∧ _))

/-- All register operands of an instruction name registers. -/
structure Instruction.RegistersInRange (inst : Instruction) : Prop where
  rd : RegisterIndex inst.rd
  rs : RegisterIndex inst.rs
  rt : RegisterIndex inst.rt

instance (inst : Instruction) : Decidable inst.RegistersInRange :=
  decidable_of_iff (RegisterIndex inst.rd ∧ RegisterIndex inst.rs ∧ RegisterIndex inst.rt)
    ⟨fun h => ⟨h.1, h.2.1, h.2.2⟩, fun h => ⟨h.rd, h.rs, h.rt⟩⟩

/-- `std::vector<Instruction>`; its size is a `size_t`. -/
structure Program where
  insts : List Instruction
  size_lt : insts.length < 2 ^ 64

namespace Program

/-- The number of instructions. -/
def size (program : Program) : Nat := program.insts.length

/-- All register operands of a program name registers. -/
def RegistersInRange (program : Program) : Prop :=
  ∀ inst ∈ program.insts, inst.RegistersInRange

instance (program : Program) : Decidable program.RegistersInRange :=
  inferInstanceAs (Decidable (∀ inst ∈ program.insts, inst.RegistersInRange))

/-- The program has no `MIGRATE` instruction. -/
def MigrateFree (program : Program) : Prop := ∀ inst ∈ program.insts, inst.opcode ≠ .migrate

instance (program : Program) : Decidable program.MigrateFree :=
  inferInstanceAs (Decidable (∀ inst ∈ program.insts, inst.opcode ≠ .migrate))

end Program

end VmmShowcase
