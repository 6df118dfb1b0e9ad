import VmmShowcase.Cpu.LineGrammar
import VmmShowcase.Legacy.Interpreter

/-! # The operands of the legacy interpreter

The legacy `solve` takes a line apart at commas, and converts what stands between them: a register
behind its dollar sign, an immediate as it is. `std::stoi` skips the white space in front of a number
and stops behind it, so any may stand around an operand. -/

namespace VmmShowcase

open Text TextStream

/-- An operand that is read. -/
inductive SourceOperand where
  | register (i : Fin 32)
  | immediate (imm : Word)
  deriving DecidableEq

namespace SourceOperand

/-- The word writes the operand. -/
def Writes (word : List Byte) : SourceOperand → Prop
  | register i => writtenRegister word = some (i.val : Int)
  | immediate imm => writtenImmediate word = some imm

/-- The text of a line is a word that writes the operand, with white space around it. -/
def StandsIn (operand : SourceOperand) (text : List Byte) : Prop :=
  ∃ before word after, text = before ++ (word ++ after) ∧ Blank before ∧ Blank after
    ∧ newline ∉ text ∧ operand.Writes word

end SourceOperand

/-- An operand of a line that is read at commas. -/
structure IsOperand (text : List Byte) : Prop where
  comma_notMem : comma ∉ text
  newline_notMem : newline ∉ text
  ne_nil : text ≠ []

/-! ## Converting operands -/

namespace SourceOperand

/-- The immediate that a word writes is the number that the word writes. -/
theorem numeral_of_writtenImmediate {word : List Byte} {imm : Word}
    (h : writtenImmediate word = some imm) : numeral word = some imm.toInt := by
  obtain ⟨z, hz, himm⟩ := Option.bind_eq_some_iff.mp h
  rw [Option.ite_none_right_eq_some] at himm
  obtain ⟨⟨hmin, hmax⟩, heq⟩ := himm
  rw [hz, ← Option.some.inj heq, BitVec.toInt_ofInt_eq_self (by decide) (by simpa using hmin)
    (by simpa using hmax)]

/-- A word of an operand is not empty. -/
theorem Writes.ne_nil {operand : SourceOperand} {word : List Byte} (h : operand.Writes word) :
    word ≠ [] := by
  rintro rfl
  cases operand with
  | register i => cases h
  | immediate imm => cases h

/-- A word of an operand contains digits, signs and dollar signs. -/
theorem Writes.isDigit_of_mem {operand : SourceOperand} {word : List Byte} (h : operand.Writes word)
    {b : Byte} (hb : b ∈ word) (hminus : b ≠ ascii '-') (hplus : b ≠ ascii '+')
    (hdollar : b ≠ ascii '$') : IsDigit b := by
  cases operand with
  | register i =>
      obtain ⟨digits, rfl, -, hdigits, -⟩ := writtenRegister_eq_some_iff.mp h
      exact hdigits b ((List.mem_cons.mp hb).resolve_left hdollar)
  | immediate imm => exact isDigit_of_mem_numeral (numeral_of_writtenImmediate h) hb hminus hplus

/-- What is neither in a word of an operand nor white space is not in a text of it. -/
theorem StandsIn.notMem {operand : SourceOperand} {text : List Byte} (h : operand.StandsIn text)
    {b : Byte} (hspace : ¬ IsSpace b) (hword : ∀ word, operand.Writes word → b ∉ word) : b ∉ text := by
  obtain ⟨before, word, after, rfl, hbefore, hafter, -, hwrites⟩ := h
  rw [List.mem_append, List.mem_append, not_or, not_or]
  exact ⟨fun hmem => hspace (hbefore b hmem), hword word hwrites, fun hmem => hspace (hafter b hmem)⟩

/-- An operand does not contain the comma behind it. -/
theorem StandsIn.isOperand {operand : SourceOperand} {text : List Byte} (h : operand.StandsIn text) :
    IsOperand text := by
  refine ⟨h.notMem (by decide) fun word hword hcomma => ?_, ?_, ?_⟩
  · exact absurd (hword.isDigit_of_mem hcomma (by decide) (by decide) (by decide)) (by decide)
  · obtain ⟨-, -, -, -, -, -, hnewline, -⟩ := h
    exact hnewline
  · obtain ⟨before, word, after, rfl, -, -, -, hword⟩ := h
    simp [hword.ne_nil]

/-- A register operand has a dollar sign. -/
theorem StandsIn.dollar_mem {i : Fin 32} {text : List Byte} (h : (register i).StandsIn text) :
    ascii '$' ∈ text := by
  obtain ⟨before, word, after, rfl, -, -, -, hword⟩ := h
  obtain ⟨digits, rfl, -⟩ := writtenRegister_eq_some_iff.mp hword
  simp

/-- An immediate operand has none. -/
theorem StandsIn.dollar_notMem {imm : Word} {text : List Byte} (h : (immediate imm).StandsIn text) :
    ascii '$' ∉ text := by
  refine h.notMem (by decide) fun word hword hdollar => ?_
  have hnumeral := numeral_of_writtenImmediate hword
  exact absurd (isDigit_of_mem_numeral hnumeral hdollar (by decide) (by decide)) (by decide)

/-- **A register operand is converted** to the number of the register. -/
theorem StandsIn.stoi_register {i : Fin 32} {text : List Byte} (h : (register i).StandsIn text) :
    stoi (afterDollar text) = some (i.val : Int) := by
  obtain ⟨before, word, after, rfl, hbefore, hafter, -, hword⟩ := h
  obtain ⟨digits, rfl, hne, hdigits, hvalue⟩ := writtenRegister_eq_some_iff.mp hword
  have hdollar : ascii '$' ∉ before := fun hmem => absurd (hbefore _ hmem) (by decide)
  have hnumeral : numeral digits = some (i.val : Int) := by
    rw [numeral_digits hne hdigits, hvalue]
  rw [List.cons_append, afterDollar, afterMark_append hdollar]
  exact stoi_numeral hnumeral (by omega) (by omega) blank_nil (undigited_of_blank hafter)

/-- **An immediate operand is converted**. -/
theorem StandsIn.stoi_immediate {imm : Word} {text : List Byte} (h : (immediate imm).StandsIn text) :
    stoi text = some imm.toInt := by
  obtain ⟨before, word, after, rfl, hbefore, hafter, -, hword⟩ := h
  have hmin := BitVec.le_toInt imm
  have hmax := @BitVec.toInt_lt 32 imm
  exact stoi_numeral (numeral_of_writtenImmediate hword) (by simpa using hmin) (by simpa using hmax)
    hbefore (undigited_of_blank hafter)

end SourceOperand

/-! ## Reading operands at commas -/

/-- Three operands are read at their commas. -/
theorem solveOperands_three {x y z : List Byte} (hx : IsOperand x) (hy : IsOperand y)
    (hz : IsOperand z) (opcode : List Byte) (obj : VmClass) :
    solveOperands opcode (ofText (x ++ comma :: (y ++ comma :: z))) obj
      = (stoi (afterDollar x)).bind fun destReg => execute opcode destReg y z obj := by
  rw [solveOperands, getline_ofText hx.comma_notMem]
  simp only [getline_ofText hy.comma_notMem, getline_last hz.newline_notMem hz.ne_nil,
    Option.bind_eq_bind]

/-- Two operands leave the third one empty. -/
theorem solveOperands_two {x y : List Byte} (hx : IsOperand x) (hy : IsOperand y)
    (opcode : List Byte) (obj : VmClass) :
    solveOperands opcode (ofText (x ++ comma :: y)) obj
      = (stoi (afterDollar x)).bind fun destReg => execute opcode destReg y [] obj := by
  have hmissing : getline newline [] (behind []) = ([], (behind []).fail) := by
    rw [getline, if_neg not_good_behind_nil]
  rw [solveOperands, getline_ofText hx.comma_notMem]
  simp only [getline_last hy.comma_notMem hy.ne_nil, hmissing, Option.bind_eq_bind]

/-- The operation of a line is read up to its first blank. -/
theorem solve_op {op : List Byte} (hspace : space ∉ op) (hop : op ≠ dumpProcessorState)
    (operands : List Byte) (obj : VmClass) :
    solve (op ++ space :: operands) obj = solveOperands op (ofText operands) obj := by
  rw [solve, getline_ofText hspace]
  exact if_neg hop

end VmmShowcase
