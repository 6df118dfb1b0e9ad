import VmmShowcase.Cpu.OperandFormats

/-! # The layout of a program does not matter

`ParseProgram` sees nothing of a line but its words: its streams are given up where words are missing, an
immediate is taken from the front of a word, and a comma counts only at the end of one. So indentation,
tabs, carriage returns, blank lines and comments do not change the program, nor whether a register
throws. -/

namespace VmmShowcase

open Text TextStream

/-! ## Extracting a number takes the front of a word -/

/-- The digits of a number end before anything but a digit. -/
theorem unsigned_append_undigited (negative : Bool) (text : List Byte) {post : List Byte}
    (hpost : Undigited post) :
    (NumberField.unsigned negative (text ++ post)).digits = (NumberField.unsigned negative text).digits := by
  show (text ++ post).takeWhile (IsDigit ·) = text.takeWhile (IsDigit ·)
  induction text with
  | nil =>
      cases post with
      | nil => rfl
      | cons b post => exact List.takeWhile_cons_of_neg (by simpa using hpost b rfl)
  | cons b text ih =>
      by_cases hb : IsDigit b
      · rw [List.cons_append, List.takeWhile_cons_of_pos (by simpa using hb), ih,
          List.takeWhile_cons_of_pos (by simpa using hb)]
      · rw [List.cons_append, List.takeWhile_cons_of_neg (by simpa using hb),
          List.takeWhile_cons_of_neg (by simpa using hb)]

/-- The number at the front of a word is the number at the front of any text that goes on with
anything but a digit behind the word. -/
theorem scan_append_undigited {word : List Byte} (hne : word ≠ []) {post : List Byte}
    (hpost : Undigited post) : (NumberField.scan (word ++ post)).digits = (NumberField.scan word).digits
      ∧ (NumberField.scan (word ++ post)).value = (NumberField.scan word).value := by
  have hunsigned (negative : Bool) (text : List Byte) :
      (NumberField.unsigned negative (text ++ post)).digits = (NumberField.unsigned negative text).digits
        ∧ (NumberField.unsigned negative (text ++ post)).value
          = (NumberField.unsigned negative text).value := by
    have hdigits := unsigned_append_undigited negative text hpost
    refine ⟨hdigits, ?_⟩
    rw [NumberField.value, NumberField.value, hdigits]
    rfl
  obtain ⟨b, text, rfl⟩ := List.exists_cons_of_ne_nil hne
  rw [List.cons_append, NumberField.scan, NumberField.scan]
  split
  · exact hunsigned true text
  · split
    · exact hunsigned false text
    · exact hunsigned false (b :: text)

/-- The number that a word gives a variable of `w` bits. -/
def signedOf {w : Nat} (word : List Byte) : BitVec w :=
  let field := NumberField.scan word
  if field.digits = [] then 0
  else if field.value < (BitVec.intMin w).toInt then BitVec.intMin w
  else if (BitVec.intMax w).toInt < field.value then BitVec.intMax w
  else BitVec.ofInt w field.value

/-- **Extracting a number takes the front of the next word**, if there is one. -/
theorem readSigned_fst {w : Nat} (old : BitVec w) (s : TextStream) :
    (readSigned old s).1 = (s.wordsLeft.head?.map signedOf).getD old := by
  cases h : s.wordsLeft with
  | nil => exact (extract_of_wordsLeft_nil h old _).1
  | cons word others =>
      obtain ⟨before, post, rfl, hbefore, hword, hne, hpost, -⟩ := exists_of_wordsLeft_eq_cons h
      have hundigited : Undigited post := fun b hb => not_isDigit_of_isSpace (hpost b hb)
      obtain ⟨hdigits, hvalue⟩ := scan_append_undigited hne hundigited
      obtain ⟨b, text, rfl⟩ := List.exists_cons_of_ne_nil hne
      have hhead : b ∈ (b :: text ++ post).head? := rfl
      rw [readSigned, extract_ofText hbefore hhead (hword b (List.mem_cons_self ..))]
      simp only [hdigits, hvalue, List.head?_cons, Option.map_some, Option.getD_some, signedOf]
      split
      · rfl
      · split
        · rfl
        · split <;> rfl

/-! ## Lines by their words -/

/-- What follows the registers, by the words that are left. -/
def lastOf : Option LastOperand → Instruction → List (List Byte) → Instruction
  | none, inst, _ => inst
  | some .immediate, inst, others => { inst with imm := (others.head?.map signedOf).getD 0 }
  | some .label, inst, others => { inst with label := others.headD [] }

/-- What follows the registers is up to the words that are left. -/
theorem readLast_fst (last : Option LastOperand) (inst : Instruction) (s : TextStream) :
    (readLast last inst s).1 = lastOf last inst s.wordsLeft := by
  rcases last with _ | _ | _
  · rfl
  · rw [lastOf, ← readSigned_fst]
    rfl
  · rw [lastOf, ← readToken_fst]
    rfl

/-- The words of a line are those of an instruction: there are some, and the first one does not start a
comment. -/
def Instructive (line : List (List Byte)) : Prop :=
  line.headD [] ≠ [] ∧ (line.headD []).head? ≠ some (ascii '#')

instance : DecidablePred Instructive := fun _ => inferInstanceAs (Decidable (_ ∧ _))

/-- The instruction of a line, by its words. -/
def instructionOf (line : List (List Byte)) : Option Instruction :=
  match Mnemonic.named (line.headD []) with
  | none => some { opcode := .invalid, label := line.headD [] }
  | some m =>
      fillRegisters m.format.registers (line.tail.takeD m.format.registers.length [])
        (lastOf m.format.last { opcode := m.format.opcode }
          (line.tail.drop m.format.registers.length))

/-- The first word of a line tells its operation. -/
theorem lineMnemonic_eq (line : List Byte) :
    lineMnemonic line = Mnemonic.named ((words line).headD []) := by
  rw [lineMnemonic]
  cases words line with
  | nil => rfl
  | cons op others => rfl

/-- **A line is parsed by its words.** -/
theorem parseLine_words (line : List Byte) : parseLine line
    = if Instructive (words line) then (instructionOf (words line)).map some else some none := by
  cases hm : lineMnemonic line with
  | none =>
      have hnamed := hm
      rw [lineMnemonic_eq] at hnamed
      rw [parseLine_eq, parseOperands_of_named_eq_none hnamed, instructionOf, hnamed]
      by_cases hskip : (words line).headD [] = [] ∨ ((words line).headD []).head? = some (ascii '#')
      · rw [if_pos hskip, if_neg fun h => hskip.elim h.1 h.2]
      · have hinstructive : Instructive (words line) := not_or.mp hskip
        rw [if_neg hskip, if_pos hinstructive]
        rfl
  | some m =>
      obtain ⟨s, hs, hline⟩ := parseLine_of_lineMnemonic hm
      rw [lineMnemonic_eq] at hm
      have hhead := Mnemonic.named_eq_some_iff.mp hm
      have hinstructive : Instructive (words line) := by
        rw [Instructive, hhead]
        exact ⟨m.text_ne_nil, m.head?_text_ne⟩
      rw [hline, if_pos hinstructive, instructionOf, hm, readLast_fst, hs]

/-! ## Programs by their words -/

/-- The words of the lines that are neither blank nor comments. -/
def instructiveWords (lines : List (List Byte)) : List (List (List Byte)) :=
  (lines.map words).filter (Instructive ·)

/-- A line in front is parsed into its instruction, if it has one. -/
theorem instructiveWords_cons (line : List Byte) (lines : List (List Byte)) :
    instructiveWords (line :: lines) = if Instructive (words line) then words line :: instructiveWords lines
      else instructiveWords lines := by
  rw [instructiveWords, List.map_cons, List.filter_cons]
  simp only [decide_eq_true_eq]
  rfl

/-- **A program is parsed by its words**, line by line. -/
theorem parseProgram_words (lines : List (List Byte)) :
    parseProgram lines = (instructiveWords lines).mapM instructionOf := by
  induction lines with
  | nil => rfl
  | cons line lines ih =>
      rw [parseProgram, parseLine_words, ih, instructiveWords_cons]
      by_cases h : Instructive (words line)
      · rw [if_pos h, if_pos h, List.mapM_cons]
        cases instructionOf (words line) <;> rfl
      · rw [if_neg h, if_neg h]
        cases (instructiveWords lines).mapM instructionOf <;> rfl

/-- **The layout of a program does not matter.** Programs whose lines have the same words, but for blank
lines and comments, are parsed alike, also where a register throws. -/
theorem parseProgram_of_instructiveWords {lines lines' : List (List Byte)}
    (h : instructiveWords lines' = instructiveWords lines) :
    parseProgram lines' = parseProgram lines := by
  rw [parseProgram_words, parseProgram_words, h]

/-- A comment, an indented line with a carriage return, and a blank line. -/
theorem parseProgram_of_instructiveWords_indented :
    parseProgram [bytes ['#', ' ', 'x'],
        [0x09] ++ bytes ['l', 'i', ' ', ' ', '$', '1', ',', ' ', '7'] ++ [0x0d], [0x0d]]
      = parseProgram [bytes ['l', 'i', ' ', '$', '1', ',', ' ', '7']] :=
  parseProgram_of_instructiveWords (by decide)

/-- White space behind a line is no word. -/
theorem words_append_blank (line : List Byte) {blank : List Byte} (hblank : Blank blank) :
    words (line ++ blank) = words line := by
  cases blank with
  | nil => rw [List.append_nil]
  | cons b blank =>
      have hnone : words blank = [] := by
        have hrest : Blank blank := fun c hc => hblank c (List.mem_cons_of_mem b hc)
        simpa only [List.append_nil, words_nil] using words_append_of_blank hrest []
      rw [words_append_cons (hblank b List.mem_cons_self), hnone, List.append_nil]

/-- Lines that end with carriage returns are parsed as those without. -/
theorem parseProgram_carriageReturns (lines : List (List Byte)) :
    parseProgram (lines.map (· ++ [0x0d])) = parseProgram lines := by
  have hwords : instructiveWords (lines.map (· ++ [0x0d])) = instructiveWords lines := by
    rw [instructiveWords, instructiveWords, List.map_map]
    refine congrArg (List.filter _) (List.map_congr_left fun line _ => ?_)
    exact words_append_blank line (blank_singleton (by decide))
  rw [parseProgram_words, parseProgram_words, hwords]

end VmmShowcase
