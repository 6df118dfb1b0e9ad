import VmmShowcase.Foundations.SignedRange
import VmmShowcase.Legacy.Agreement

/-! # The bitwise instructions and the shifts of the legacy interpreter

`solve` of `src/project.cc` on the lines of `and`, `or`, `xor`, `andi`, `sll` and `srl`, with any white
space around their operands. All of them compute on 32-bit words, except that `SRL` shifts an `int`: it
copies the sign into a negative one, where a logical shift has zeros. -/

namespace VmmShowcase

open Text TextStream

/-- The bitwise instructions and the shifts; `ori` is `or` with an immediate. -/
inductive WordInstruction where
  | and (rd rs rt : Fin 32)
  | or (rd rs rt : Fin 32)
  | ori (rt rs : Fin 32) (imm : Word)
  | xor (rd rs rt : Fin 32)
  | andi (rt rs : Fin 32) (imm : Word)
  | sll (rd rt shamt : Fin 32)
  | srl (rd rt shamt : Fin 32)
  deriving DecidableEq

namespace WordInstruction

/-- The operation of a line. -/
def op : WordInstruction → List Byte
  | and .. => bytes ['a', 'n', 'd']
  | or .. => bytes ['o', 'r']
  | ori .. => bytes ['o', 'r']
  | xor .. => bytes ['x', 'o', 'r']
  | andi .. => bytes ['a', 'n', 'd', 'i']
  | sll .. => bytes ['s', 'l', 'l']
  | srl .. => bytes ['s', 'r', 'l']

/-- The destination register. -/
def dest : WordInstruction → Fin 32
  | and rd _ _ => rd
  | or rd _ _ => rd
  | ori rt _ _ => rt
  | xor rd _ _ => rd
  | andi rt _ _ => rt
  | sll rd _ _ => rd
  | srl rd _ _ => rd

/-- The first source register. -/
def source : WordInstruction → Fin 32
  | and _ rs _ => rs
  | or _ rs _ => rs
  | ori _ rs _ => rs
  | xor _ rs _ => rs
  | andi _ rs _ => rs
  | sll _ rt _ => rt
  | srl _ rt _ => rt

/-- The last operand. -/
def last : WordInstruction → SourceOperand
  | and _ _ rt => .register rt
  | or _ _ rt => .register rt
  | ori _ _ imm => .immediate imm
  | xor _ _ rt => .register rt
  | andi _ _ imm => .immediate imm
  | sll _ _ shamt => .immediate (BitVec.ofNat 32 shamt)
  | srl _ _ shamt => .immediate (BitVec.ofNat 32 shamt)

/-- The line writes the instruction. -/
def WrittenAs (inst : WordInstruction) (line : List Byte) : Prop :=
  ∃ x y z, line = inst.op ++ space :: (x ++ comma :: (y ++ comma :: z))
    ∧ (SourceOperand.register inst.dest).StandsIn x
    ∧ (SourceOperand.register inst.source).StandsIn y ∧ inst.last.StandsIn z

/-- The result of the named operation. -/
def result (registers : RegisterFile) : WordInstruction → Word
  | and _ rs rt => registers rs &&& registers rt
  | or _ rs rt => registers rs ||| registers rt
  | ori _ rs imm => registers rs ||| imm
  | xor _ rs rt => registers rs ^^^ registers rt
  | andi _ rs imm => registers rs &&& imm
  | sll _ rt shamt => registers rt <<< shamt.val
  | srl _ rt shamt => registers rt >>> shamt.val

/-- What `solve` computes. -/
def computed (registers : RegisterFile) : WordInstruction → Word
  | srl _ rt shamt => (registers rt).sshiftRight shamt.val
  | inst => inst.result registers

/-- No copies of a sign are shifted in: a shift to the right is by 0, or of a number that is not
negative. -/
def ShiftsInZeros (registers : RegisterFile) : WordInstruction → Prop
  | srl _ rt shamt => shamt.val = 0 ∨ 0 ≤ (registers rt).toInt
  | _ => True

instance (registers : RegisterFile) : DecidablePred (ShiftsInZeros registers)
  | srl _ _ _ => inferInstanceAs (Decidable (_ ∨ _))
  | and _ _ _ | or _ _ _ | ori _ _ _ | xor _ _ _ | andi _ _ _ | sll _ _ _ => .isTrue trivial

/-- `solve` writes the result of the operation to the destination register of the line, and changes
nothing else. -/
def Computes (inst : WordInstruction) (line : List Byte) (obj : VmClass) : Prop :=
  solve line obj = some { obj with
    registers := Function.update obj.registers inst.dest (inst.result obj.registers) }

end WordInstruction

/-! ## Executing the operations -/

/-- A shift of a register of the file by less than 32. -/
theorem VmClass.shiftOp_fin (f : Word → Nat → Word) (rd rt shamt : Fin 32) (obj : VmClass) :
    shiftOp f (rd.val : Int) (rt.val : Int) (BitVec.ofNat 32 shamt).toInt obj = some { obj with
      registers := Function.update obj.registers rd (f (obj.registers rt) shamt) } := by
  have hamount : (BitVec.ofNat 32 shamt).toNat = shamt.val := by
    rw [BitVec.toNat_ofNat]
    exact Nat.mod_eq_of_lt (by omega)
  rw [shiftOp, BitVec.ofInt_toInt, hamount]
  simp [reg, setReg, shamt.isLt]

section Operands

open SourceOperand

variable {y z : List Byte} {i j : Fin 32} (obj : VmClass)

/-- The instructions on two registers. -/
theorem registerOp_of_standsIn (hy : (register i).StandsIn y) (hz : (register j).StandsIn z)
    (f : Word → Word → Word) (rd : Fin 32) :
    ((stoi (afterDollar y)).bind fun rs => (stoi (afterDollar z)).bind fun rt =>
      VmClass.registerOp f (rd.val : Int) rs rt obj) = some { obj with
        registers := Function.update obj.registers rd (f (obj.registers i) (obj.registers j)) } := by
  rw [hy.stoi_register, Option.bind_some, hz.stoi_register, Option.bind_some, VmClass.registerOp_fin]

/-- The instructions on a register and an immediate. -/
theorem immediateOp_of_standsIn {imm : Word} (hy : (register i).StandsIn y)
    (hz : (immediate imm).StandsIn z) (f : Word → Word → Word) (rt : Fin 32) :
    ((stoi (afterDollar y)).bind fun rs => (stoi z).bind fun imm =>
      VmClass.immediateOp f (rt.val : Int) rs imm obj) = some { obj with
        registers := Function.update obj.registers rt (f (obj.registers i) imm) } := by
  rw [hy.stoi_register, Option.bind_some, hz.stoi_immediate, Option.bind_some,
    VmClass.immediateOp_fin]

/-- The shifts. -/
theorem shiftOp_of_standsIn (hy : (register i).StandsIn y)
    (hz : (immediate (BitVec.ofNat 32 j)).StandsIn z) (f : Word → Nat → Word) (rd : Fin 32) :
    ((stoi (afterDollar y)).bind fun rt => (stoi z).bind fun imm =>
      VmClass.shiftOp f (rd.val : Int) rt imm obj) = some { obj with
        registers := Function.update obj.registers rd (f (obj.registers i) j) } := by
  rw [hy.stoi_register, Option.bind_some, hz.stoi_immediate, Option.bind_some, VmClass.shiftOp_fin]

end Operands

namespace WordInstruction

/-- **The chain of tests executes the operation** of a line on the operands that are read. -/
theorem execute_of_standsIn (inst : WordInstruction) {y z : List Byte}
    (hy : (SourceOperand.register inst.source).StandsIn y) (hz : inst.last.StandsIn z)
    (obj : VmClass) :
    execute inst.op (inst.dest.val : Int) y z obj = some { obj with
      registers := Function.update obj.registers inst.dest (inst.computed obj.registers) } := by
  cases inst with
  | and rd rs rt => exact registerOp_of_standsIn obj hy hz _ rd
  | or rd rs rt =>
      refine Eq.trans (if_pos hz.dollar_mem) ?_
      exact registerOp_of_standsIn obj hy hz _ rd
  | ori rt rs imm =>
      refine Eq.trans (if_neg hz.dollar_notMem) ?_
      exact immediateOp_of_standsIn obj hy hz _ rt
  | xor rd rs rt => exact registerOp_of_standsIn obj hy hz _ rd
  | andi rt rs imm => exact immediateOp_of_standsIn obj hy hz _ rt
  | sll rd rt shamt => exact shiftOp_of_standsIn obj hy hz _ rd
  | srl rd rt shamt => exact shiftOp_of_standsIn obj hy hz _ rd

/-- **What `solve` does with a line**: it writes what it computes to the destination register, and
changes nothing else. -/
theorem solve_of_writtenAs {inst : WordInstruction} {line : List Byte} (h : inst.WrittenAs line)
    (obj : VmClass) : solve line obj = some { obj with
      registers := Function.update obj.registers inst.dest (inst.computed obj.registers) } := by
  obtain ⟨x, y, z, rfl, hx, hy, hz⟩ := h
  have hop : space ∉ inst.op ∧ inst.op ≠ dumpProcessorState := by
    cases inst <;> rw [op] <;> decide
  rw [solve_op hop.1 hop.2, solveOperands_three hx.isOperand hy.isOperand hz.isOperand,
    hx.stoi_register, Option.bind_some, execute_of_standsIn inst hy hz]

/-- `solve` computes the named operation exactly if no copies of a sign are shifted in. -/
theorem computed_eq_result_iff (inst : WordInstruction) (registers : RegisterFile) :
    inst.computed registers = inst.result registers ↔ inst.ShiftsInZeros registers := by
  cases inst with
  | srl rd rt shamt => exact SignedRange.sshiftRight_eq_ushiftRight_iff (registers rt) shamt.val
  | _ => exact iff_of_true rfl trivial

/-- **A line computes the named operation on 32-bit words** exactly if it shifts no copies of a sign
in. -/
theorem computes_iff {inst : WordInstruction} {line : List Byte} (h : inst.WrittenAs line)
    (obj : VmClass) : inst.Computes line obj ↔ inst.ShiftsInZeros obj.registers := by
  rw [Computes, solve_of_writtenAs h, ← computed_eq_result_iff]
  constructor
  · intro heq
    have hregisters := congrArg VmClass.registers (Option.some.inj heq)
    simpa using congrFun hregisters inst.dest
  · intro heq
    rw [heq]

/-- The line `srl $0, $0, 1`. -/
def shiftingLine : List Byte :=
  bytes ['s', 'r', 'l', ' ', '$', '0', ',', ' ', '$', '0', ',', ' ', '1']

/-- The shift of register 0 by one bit. -/
def shiftingByOne : WordInstruction :=
  .srl SharedInstruction.zeroRegister SharedInstruction.zeroRegister ⟨1, by decide⟩

/-- The line writes the shift. -/
theorem writtenAs_shiftingLine : shiftingByOne.WrittenAs shiftingLine := by
  refine ⟨bytes ['$', '0'], bytes [' ', '$', '0'], bytes [' ', '1'], rfl, ?_, ?_, ?_⟩
  · exact ⟨[], bytes ['$', '0'], [], rfl, blank_nil, blank_nil, by decide, rfl⟩
  · exact ⟨[space], bytes ['$', '0'], [], rfl, blank_singleton (by decide), blank_nil, by decide, rfl⟩
  · exact ⟨[space], bytes ['1'], [], rfl, blank_singleton (by decide), blank_nil, by decide, rfl⟩

/-- The shift of 8 is that of a word. -/
theorem computes_iff_shiftingLine : shiftingByOne.Computes shiftingLine { registers := fun _ => 8 } :=
  (computes_iff writtenAs_shiftingLine _).mpr (by decide)

/-- A machine with -8 in every register. -/
def minusEights : VmClass := { registers := fun _ => -8 }

/-- **The shift of -8 keeps its sign**: `solve` writes -4, where the logical shift makes
`0x7ffffffc`. -/
theorem shiftingLine_not_computes : shiftingByOne.WrittenAs shiftingLine
    ∧ solve shiftingLine minusEights = some { minusEights with
      registers := Function.update minusEights.registers shiftingByOne.dest (-4) }
    ∧ shiftingByOne.result minusEights.registers = 0x7ffffffc
    ∧ ¬ shiftingByOne.Computes shiftingLine minusEights := by
  have hsolve : solve shiftingLine minusEights = some { minusEights with
      registers := Function.update minusEights.registers shiftingByOne.dest (-4) } :=
    solve_of_writtenAs writtenAs_shiftingLine minusEights
  refine ⟨writtenAs_shiftingLine, hsolve, by decide, ?_⟩
  intro hcomputes
  rw [Computes, hsolve] at hcomputes
  have hregisters := congrArg VmClass.registers (Option.some.inj hcomputes)
  exact absurd (congrFun hregisters shiftingByOne.dest) (by decide)

end WordInstruction

end VmmShowcase
