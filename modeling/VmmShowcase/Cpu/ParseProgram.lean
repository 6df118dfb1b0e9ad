import VmmShowcase.Cpu.Instruction
import VmmShowcase.Foundations.TextStream

/-! # Parsing programs

`src/cpu/instruction.cpp`. Every line is taken apart at white space only; a comma is trimmed off the end
of a token, and a register is the number behind its dollar sign, whatever follows that number. A token
that is missing or does not start with a dollar sign is register 0. -/

namespace VmmShowcase

open Text TextStream

/-- `ParseRegister`; it throws (`none`) where `std::stoi` does. -/
def parseRegister (token : List Byte) : Option Int :=
  if token.length < 2 ∨ token.head? ≠ some (ascii '$') then some 0 else stoi token.tail

/-- `TrimComma`. -/
def trimComma (token : List Byte) : List Byte :=
  if token.getLast? = some (ascii ',') then token.dropLast else token

/-- The branches of `ParseProgram` for three register operands. -/
def parseThreeRegisters (opcode : Opcode) : TextReader (Option Instruction) := do
  let rd ← readToken []
  let rs ← readToken []
  let rt ← readToken []
  return do
    let rd ← parseRegister (trimComma rd)
    let rs ← parseRegister (trimComma rs)
    let rt ← parseRegister (trimComma rt)
    return { opcode, rd, rs, rt }

/-- The `if` chain of `ParseProgram`, on the stream behind the operation. -/
def parseOperands (op : List Byte) : TextReader (Option Instruction) :=
  if op = bytes ['l', 'i'] then do
    let rd ← readToken []
    let imm ← readSigned 0
    return do
      let rd ← parseRegister (trimComma rd)
      return { opcode := .li, rd, imm }
  else if op = bytes ['a', 'd', 'd'] then parseThreeRegisters .add
  else if op = bytes ['a', 'd', 'd', 'i'] then do
    let rd ← readToken []
    let rs ← readToken []
    let imm ← readSigned 0
    return do
      let rd ← parseRegister (trimComma rd)
      let rs ← parseRegister (trimComma rs)
      return { opcode := .addi, rd, rs, imm }
  else if op = bytes ['l', 'w'] then do
    let rd ← readToken []
    let imm ← readSigned 0
    return do
      let rd ← parseRegister (trimComma rd)
      return { opcode := .lw, rd, imm }
  else if op = bytes ['s', 'w'] then do
    let rs ← readToken []
    let imm ← readSigned 0
    return do
      let rs ← parseRegister (trimComma rs)
      return { opcode := .sw, rs, imm }
  else if op = bytes ['D', 'U', 'M', 'P', '_', 'P', 'R', 'O', 'C', 'E', 'S', 'S', 'O', 'R', '_', 'S',
      'T', 'A', 'T', 'E'] then
    return some { opcode := .dumpProcessorState }
  else if op = bytes ['S', 'N', 'A', 'P', 'S', 'H', 'O', 'T'] then do
    let label ← readToken []
    return some { opcode := .snapshot, label }
  else if op = bytes ['M', 'I', 'G', 'R', 'A', 'T', 'E'] then do
    let label ← readToken []
    return some { opcode := .migrate, label }
  else if op = bytes ['H', 'A', 'L', 'T'] then return some { opcode := .halt }
  else if op = bytes ['s', 'u', 'b'] then parseThreeRegisters .sub
  else if op = bytes ['m', 'u', 'l'] then parseThreeRegisters .mul
  else if op = bytes ['d', 'i', 'v'] then do
    let rs ← readToken []
    let rt ← readToken []
    return do
      let rs ← parseRegister (trimComma rs)
      let rt ← parseRegister (trimComma rt)
      return { opcode := .div, rs, rt }
  else return some { opcode := .invalid, label := op }

/-- One round of the loop of `ParseProgram`: the instruction of a line, if it is not skipped; `none`
where a register throws. -/
def parseLine (line : List Byte) : Option (Option Instruction) :=
  let (op, stream) := readToken [] (ofText line)
  if op = [] ∨ op.head? = some (ascii '#') then some none
  else (parseOperands op stream).1.map some

/-- `ParseProgram`. -/
def parseProgram : (lines : List (List Byte)) → Option (List Instruction)
  | [] => some []
  | line :: lines => do
      let inst ← parseLine line
      let program ← parseProgram lines
      return inst.toList ++ program

/-! ## Programs, line by line -/

/-- A line in front of others is parsed first. -/
theorem parseProgram_cons_eq_some_iff {line : List Byte} {lines : List (List Byte)}
    {program : List Instruction} : parseProgram (line :: lines) = some program
      ↔ ∃ inst rest, parseLine line = some inst ∧ parseProgram lines = some rest
        ∧ program = inst.toList ++ rest := by
  rw [parseProgram]
  constructor
  · intro h
    obtain ⟨inst, hinst, h⟩ := Option.bind_eq_some_iff.mp h
    obtain ⟨rest, hrest, h⟩ := Option.bind_eq_some_iff.mp h
    exact ⟨inst, rest, hinst, hrest, (Option.some.inj h).symm⟩
  · rintro ⟨inst, rest, hinst, hrest, rfl⟩
    rw [hinst, hrest]
    rfl

/-- **A program is parsed into instructions with `Q`**, if and only if each of its lines is. -/
theorem exists_parseProgram_iff {Q : Instruction → Prop} (lines : List (List Byte)) :
    (∃ program, parseProgram lines = some program ∧ ∀ inst ∈ program, Q inst)
      ↔ ∀ line ∈ lines, ∃ inst, parseLine line = some inst ∧ ∀ i ∈ inst, Q i := by
  induction lines with
  | nil => simp [parseProgram]
  | cons line lines ih =>
      rw [List.forall_mem_cons, ← ih]
      constructor
      · rintro ⟨program, hparse, hQ⟩
        obtain ⟨inst, rest, hinst, hrest, rfl⟩ := parseProgram_cons_eq_some_iff.mp hparse
        exact ⟨⟨inst, hinst, fun i hi => hQ i (List.mem_append_left _ (Option.mem_toList.mpr hi))⟩,
          rest, hrest, fun i hi => hQ i (List.mem_append_right _ hi)⟩
      · rintro ⟨⟨inst, hinst, hQ⟩, rest, hrest, hQrest⟩
        refine ⟨inst.toList ++ rest, parseProgram_cons_eq_some_iff.mpr
          ⟨inst, rest, hinst, hrest, rfl⟩, fun i hi => ?_⟩
        exact (List.mem_append.mp hi).elim (fun hi => hQ i (Option.mem_toList.mp hi)) (hQrest i)

end VmmShowcase
