import VmmShowcase.Cpu.OperandFormats

/-! # The grammar of lines

A line of the grammar is a mnemonic and exactly the words of its operand list: a register is a dollar
sign and digits, an immediate is a number in `int32_t` with an optional sign, a label is any word, and
a comma may end a register in front of another operand. `ParseProgram` never looks at the state of its
stream, so it makes an executable instruction of every line with a mnemonic, in the grammar or not, unless
a register throws. -/

namespace VmmShowcase

open Text TextStream

/-- The register that a whole word writes. -/
def writtenRegister : List Byte → Option Int
  | [] => none
  | b :: digits =>
      if b = ascii '$' ∧ digits ≠ [] ∧ digits.all (IsDigit ·) then some (digitsValue digits) else none

/-- The immediate that a whole word writes. -/
def writtenImmediate (word : List Byte) : Option Word :=
  (numeral word).bind fun z =>
    if -2 ^ 31 ≤ z ∧ z < 2 ^ 31 then some (BitVec.ofInt 32 z) else none

/-- Write what follows the registers, which is all that is left of the words. -/
def writtenLast : Option LastOperand → List (List Byte) → Instruction → Option Instruction
  | none, [], inst => some inst
  | some .immediate, [word], inst => (writtenImmediate word).map fun imm => { inst with imm }
  | some .label, [label], inst => some { inst with label }
  | _, _, _ => none

/-- Write an operand list. -/
def writtenOperands (last : Option LastOperand) :
    List RegisterField → List (List Byte) → Instruction → Option Instruction
  | [], others, inst => writtenLast last others inst
  | _ :: _, [], _ => none
  | field :: fields, word :: others, inst => do
      let number ← writtenRegister (if fields = [] ∧ last = none then word else trimComma word)
      writtenOperands last fields others (inst.setRegister number field)

/-- The instruction that a line of the grammar writes. -/
def written (line : List Byte) : Option Instruction :=
  (lineMnemonic line).bind fun m =>
    writtenOperands m.format.last m.format.registers (words line).tail { opcode := m.format.opcode }

/-- `ParseProgram` emits this instruction for this line, between any others that it parses. -/
def Emits (line : List Byte) (inst : Instruction) : Prop :=
  ∀ {before after program program'}, parseProgram before = some program →
    parseProgram after = some program' →
    parseProgram (before ++ line :: after) = some (program ++ inst :: program')

/-- `ParseProgram` emits an executable instruction for a line exactly if it is in the grammar, and then
the one that is written. -/
def ParsesGrammar (line : List Byte) : Prop :=
  ((∃ inst, Emits line inst ∧ inst.opcode ≠ .invalid) ↔ (written line).isSome)
    ∧ ∀ inst, written line = some inst → Emits line inst

/-! ## Emitting instructions -/

/-- Lines behind others are parsed behind them. -/
theorem parseProgram_append {before : List (List Byte)} {program : List Instruction}
    (h : parseProgram before = some program) (lines : List (List Byte)) :
    parseProgram (before ++ lines) = (parseProgram lines).map (program ++ ·) := by
  induction before generalizing program with
  | nil =>
      rw [← Option.some.inj h]
      simp
  | cons line before ih =>
      obtain ⟨inst, rest, hinst, hrest, rfl⟩ := parseProgram_cons_eq_some_iff.mp h
      rw [List.cons_append, parseProgram, hinst, ih hrest]
      cases parseProgram lines with
      | none => rfl
      | some program' => simp

/-- What is emitted for a line is up to the line. -/
theorem emits_iff {line : List Byte} {inst : Instruction} :
    Emits line inst ↔ parseLine line = some (some inst) := by
  constructor
  · intro h
    have hline : parseProgram [line] = some [inst] := @h [] [] [] [] rfl rfl
    obtain ⟨inst', rest, hinst, hrest, heq⟩ := parseProgram_cons_eq_some_iff.mp hline
    rw [← Option.some.inj hrest, List.append_nil] at heq
    cases inst' with
    | none => cases heq
    | some i =>
        rw [hinst, (List.cons.inj heq).1]
  · intro hline before after program program' hbefore hafter
    rw [parseProgram_append hbefore, parseProgram, hline, hafter]
    rfl

/-- **A line with an operation emits an executable instruction**, unless a register of it throws. -/
theorem exists_emits_iff {line : List Byte} {m : Mnemonic} (hm : lineMnemonic line = some m) :
    (∃ inst, Emits line inst ∧ inst.opcode ≠ .invalid)
      ↔ ∀ word ∈ registerWords line, WritesInt (fun _ => True) word := by
  obtain ⟨s, -, hline⟩ := parseLine_of_lineMnemonic hm
  rw [← exists_parseLine_iff trivial]
  constructor
  · rintro ⟨inst, hemits, -⟩
    exact ⟨some inst, emits_iff.mp hemits, fun _ _ _ => trivial⟩
  · rintro ⟨inst, hinst, -⟩
    rw [hline] at hinst
    obtain ⟨i, hi, rfl⟩ := Option.map_eq_some_iff.mp hinst
    refine ⟨i, emits_iff.mpr (by rw [hline, hi, Option.map_some]), ?_⟩
    rw [opcode_of_fillRegisters hi, opcode_readLast]
    exact m.opcode_ne_invalid

/-! ## Reading what is written -/

/-- A written register is a dollar sign and digits. -/
theorem writtenRegister_eq_some_iff {word : List Byte} {number : Int} :
    writtenRegister word = some number ↔ ∃ digits, word = ascii '$' :: digits ∧ digits ≠ []
      ∧ (∀ b ∈ digits, IsDigit b) ∧ number = digitsValue digits := by
  cases word with
  | nil => simp [writtenRegister]
  | cons b digits =>
      rw [writtenRegister, Option.ite_none_right_eq_some]
      simp only [List.all_eq_true, decide_eq_true_eq, Option.some.injEq, List.cons.injEq]
      constructor
      · rintro ⟨⟨hb, hne, hdigits⟩, hnumber⟩
        exact ⟨digits, ⟨hb, rfl⟩, hne, hdigits, hnumber.symm⟩
      · rintro ⟨digits', ⟨hb, rfl⟩, hne, hdigits, hnumber⟩
        exact ⟨⟨hb, hne, hdigits⟩, hnumber.symm⟩

/-- A written register does not end with a comma. -/
theorem trimComma_of_writtenRegister {word : List Byte} {number : Int}
    (h : writtenRegister word = some number) : trimComma word = word := by
  obtain ⟨digits, rfl, hne, hdigits, -⟩ := writtenRegister_eq_some_iff.mp h
  rw [trimComma, if_neg]
  intro hlast
  rw [List.getLast?_cons_of_ne_nil hne] at hlast
  exact absurd (hdigits _ (List.mem_of_getLast? hlast)) (by decide)

/-- **A written register is read**, if it is an `int`. -/
theorem parseRegister_of_written {word : List Byte} (hword : Spaceless word) {number : Int}
    (h : writtenRegister (trimComma word) = some number)
    (hint : WritesInt (fun _ => True) word) : parseRegister (trimComma word) = some number := by
  obtain ⟨digits, htrim, hne, hdigits, hnumber⟩ := writtenRegister_eq_some_iff.mp h
  have hlen : ¬ (ascii '$' :: digits).length < 2 := by
    have hpos := List.length_pos_iff.mpr hne
    rw [List.length_cons]
    omega
  have hscan : NumberField.scan digits = ⟨false, digits, []⟩ := by
    have hscan := scan_digits hne hdigits undigited_nil
    rwa [List.append_nil] at hscan
  have hfield : registerField word = some ⟨false, digits, []⟩ := by
    rw [registerField, htrim]
    simp only [hlen, List.head?_cons, ne_eq, not_true_eq_false, or_self, if_false, List.tail_cons,
      hscan]
  obtain ⟨-, ⟨hmin, hmax⟩, -⟩ := hint _ hfield
  rw [parseRegister_eq hword, hfield, Option.elim_some, if_neg]
  · rw [hnumber]
    rfl
  · rw [not_or, not_or, not_lt, not_le]
    exact ⟨hne, hmin, hmax⟩

/-- What is written behind the registers is read. -/
theorem readLast_of_written {last : Option LastOperand} {others : List (List Byte)}
    {inst inst' : Instruction} (h : writtenLast last others inst = some inst') {s : TextStream}
    (hs : s.wordsLeft = others) : (readLast last inst s).1 = inst' := by
  rcases last with _ | _ | _
  · cases others with
    | nil => exact Option.some.inj h
    | cons word others => cases h
  · rcases others with _ | ⟨word, _ | ⟨word', others⟩⟩
    · cases h
    · obtain ⟨imm, himm, rfl⟩ := Option.map_eq_some_iff.mp h
      obtain ⟨z, hz, hrange⟩ := Option.bind_eq_some_iff.mp himm
      rw [Option.ite_none_right_eq_some, Option.some.injEq] at hrange
      obtain ⟨⟨hmin, hmax⟩, rfl⟩ := hrange
      have hint : (BitVec.ofInt 32 z).toInt = z :=
        BitVec.toInt_ofInt_eq_self (by omega) hmin (by simpa using hmax)
      have hread := takesWords_signed (hz.trans (congrArg some hint.symm)) 0 hs
      rw [readLast, bind_apply, hread.1]
      rfl
    · cases h
  · rcases others with _ | ⟨label, _ | ⟨word', others⟩⟩
    · cases h
    · rw [← Option.some.inj h, readLast, bind_apply, readToken_fst, hs]
      rfl
    · cases h

/-- A register and what follows the registers are written in any order. -/
theorem readLast_setRegister (last : Option LastOperand) (inst : Instruction) (number : Int)
    (field : RegisterField) (s : TextStream) : (readLast last (inst.setRegister number field) s).1
      = (readLast last inst s).1.setRegister number field := by
  rcases last with _ | _ | _ <;> cases field <;> rfl

/-- **A written operand list is read**, if its registers are `int`s. -/
theorem fillRegisters_of_written {last : Option LastOperand} {fields : List RegisterField}
    {others : List (List Byte)} (hothers : ∀ word ∈ others, Spaceless word)
    {inst inst' : Instruction} (h : writtenOperands last fields others inst = some inst')
    (hints : ∀ word ∈ others.take fields.length, WritesInt (fun _ => True) word) {s : TextStream}
    (hs : s.wordsLeft = others.drop fields.length) :
    fillRegisters fields (others.takeD fields.length []) (readLast last inst s).1 = some inst' := by
  induction fields generalizing others inst with
  | nil =>
      rw [readLast_of_written h hs]
      rfl
  | cons field fields ih =>
      cases others with
      | nil => cases h
      | cons word others =>
          rw [List.forall_mem_cons] at hothers
          rw [List.length_cons, List.take_succ_cons, List.forall_mem_cons] at hints
          rw [List.length_cons, List.drop_succ_cons] at hs
          rw [writtenOperands] at h
          obtain ⟨number, hnumber, h⟩ := Option.bind_eq_some_iff.mp h
          have htrim : writtenRegister (trimComma word) = some number := by
            split at hnumber
            · rwa [trimComma_of_writtenRegister hnumber]
            · exact hnumber
          have hread := ih hothers.2 h hints.2 hs
          rw [readLast_setRegister] at hread
          show (parseRegister (trimComma word)).bind _ = _
          rw [parseRegister_of_written hothers.1 htrim hints.1]
          exact hread

/-- A line of the grammar emits what it writes, if its registers are `int`s. -/
theorem emits_of_written {line : List Byte} {inst : Instruction} (h : written line = some inst)
    (hints : ∀ word ∈ registerWords line, WritesInt (fun _ => True) word) : Emits line inst := by
  obtain ⟨m, hm, hwritten⟩ := Option.bind_eq_some_iff.mp h
  obtain ⟨s, hs, hline⟩ := parseLine_of_lineMnemonic hm
  have hothers : ∀ word ∈ (words line).tail, Spaceless word := fun word hword =>
    spaceless_of_mem_words (List.mem_of_mem_tail hword)
  rw [registerWords, hm, Option.elim_some] at hints
  rw [emits_iff, hline, fillRegisters_of_written hothers hwritten hints hs]
  rfl

/-! ## The grammar -/

/-- **The parser and its grammar.** `ParseProgram` accepts a line exactly if it is in the grammar, as
what is written, if and only if the line does not begin with a mnemonic, or it is in the grammar exactly
if no register word of it has something else than an `int` behind a dollar sign. -/
theorem parsesGrammar_iff (line : List Byte) : ParsesGrammar line ↔ lineMnemonic line = none
    ∨ ((written line).isSome ↔ ∀ word ∈ registerWords line, WritesInt (fun _ => True) word) := by
  cases hm : lineMnemonic line with
  | none =>
      have hwritten : written line = none := by
        rw [written, hm]
        rfl
      refine ⟨fun _ => .inl rfl, fun _ => ⟨?_, fun inst h => ?_⟩⟩
      · rw [hwritten]
        refine ⟨fun ⟨inst, hemits, hop⟩ => ?_, fun h => by cases h⟩
        obtain ⟨inst', hline, hinvalid⟩ := parseLine_of_lineMnemonic_none hm
        rw [emits_iff.mp hemits, Option.some.injEq] at hline
        obtain ⟨label, rfl⟩ := hinvalid inst (hline ▸ rfl)
        exact absurd rfl hop
      · rw [hwritten] at h
        cases h
  | some m =>
      rw [ParsesGrammar, exists_emits_iff hm]
      constructor
      · rintro ⟨hiff, -⟩
        exact .inr hiff.symm
      · rintro (hnone | hiff)
        · cases hnone
        · refine ⟨hiff.symm, fun inst h => emits_of_written h ?_⟩
          exact hiff.mp (by rw [h]; rfl)

/-- `add $1`. -/
def addOneRegister : List Byte := bytes ['a', 'd', 'd', ' ', '$', '1']

/-- Its missing operands are registers 0 of an executable instruction. -/
theorem not_parsesGrammar_addOneRegister : ¬ ParsesGrammar addOneRegister := by
  have hline : parseLine addOneRegister = some (some { opcode := .add, rd := 1 }) := by
    decide +kernel
  have hwritten : written addOneRegister = none := by decide +kernel
  rintro ⟨hiff, -⟩
  have hsome := hiff.mp ⟨_, emits_iff.mpr hline, by decide⟩
  rw [hwritten] at hsome
  cases hsome

end VmmShowcase
