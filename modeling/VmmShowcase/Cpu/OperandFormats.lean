import VmmShowcase.Cpu.ParseProgram
import VmmShowcase.Foundations.Words

/-! # The operand lists of the mnemonics

Every branch of `ParseProgram` takes words for registers first, and then at most one immediate or label.
`format` is the table of what the branches take, and one reader with the table as its parameter does
what they do. The number behind a register's dollar sign decides whether `std::stoi` throws. -/

namespace VmmShowcase

open Text TextStream

/-- The register operands of an instruction. -/
inductive RegisterField where
  | rd | rs | rt
  deriving DecidableEq

/-- What may follow the registers of an operand list. -/
inductive LastOperand where
  | immediate | label
  deriving DecidableEq

/-- The operand list of a mnemonic. -/
structure Format where
  opcode : Opcode
  registers : List RegisterField := []
  last : Option LastOperand := none
  deriving DecidableEq

namespace Instruction

/-- A register operand. -/
def register (inst : Instruction) : RegisterField → Int
  | .rd => inst.rd
  | .rs => inst.rs
  | .rt => inst.rt

/-- Write a register operand. -/
def setRegister (inst : Instruction) (number : Int) : RegisterField → Instruction
  | .rd => { inst with rd := number }
  | .rs => { inst with rs := number }
  | .rt => { inst with rt := number }

/-- The register operands are in range when each of them is. -/
theorem registersInRange_iff (inst : Instruction) :
    inst.RegistersInRange ↔ ∀ field, RegisterIndex (inst.register field) := by
  constructor
  · rintro ⟨hrd, hrs, hrt⟩ field
    cases field with
    | rd => exact hrd
    | rs => exact hrs
    | rt => exact hrt
  · exact fun h => ⟨h .rd, h .rs, h .rt⟩

/-- Writing a register operand changes that one only. -/
theorem register_setRegister (inst : Instruction) (number : Int) (field field' : RegisterField) :
    (inst.setRegister number field).register field'
      = if field' = field then number else inst.register field' := by
  cases field <;> cases field' <;> rfl

/-- Writing a register operand keeps the operation. -/
@[simp] theorem opcode_setRegister (inst : Instruction) (number : Int) (field : RegisterField) :
    (inst.setRegister number field).opcode = inst.opcode := by
  cases field <;> rfl

end Instruction

/-- The operations that `ParseProgram` knows, in the order in which it looks for them. -/
inductive Mnemonic where
  | li | add | addi | lw | sw | dumpProcessorState | snapshot | migrate | halt | sub | mul | div
  deriving DecidableEq

namespace Mnemonic

/-- All of them. -/
def all : List Mnemonic :=
  [li, add, addi, lw, sw, dumpProcessorState, snapshot, migrate, halt, sub, mul, div]

/-- The word that stands for an operation. -/
def text : Mnemonic → List Byte
  | li => bytes ['l', 'i']
  | add => bytes ['a', 'd', 'd']
  | addi => bytes ['a', 'd', 'd', 'i']
  | lw => bytes ['l', 'w']
  | sw => bytes ['s', 'w']
  | dumpProcessorState => bytes ['D', 'U', 'M', 'P', '_', 'P', 'R', 'O', 'C', 'E', 'S', 'S', 'O', 'R',
      '_', 'S', 'T', 'A', 'T', 'E']
  | snapshot => bytes ['S', 'N', 'A', 'P', 'S', 'H', 'O', 'T']
  | migrate => bytes ['M', 'I', 'G', 'R', 'A', 'T', 'E']
  | halt => bytes ['H', 'A', 'L', 'T']
  | sub => bytes ['s', 'u', 'b']
  | mul => bytes ['m', 'u', 'l']
  | div => bytes ['d', 'i', 'v']

/-- The operand list of an operation. -/
def format : Mnemonic → Format
  | li => { opcode := .li, registers := [.rd], last := some .immediate }
  | add => { opcode := .add, registers := [.rd, .rs, .rt] }
  | addi => { opcode := .addi, registers := [.rd, .rs], last := some .immediate }
  | lw => { opcode := .lw, registers := [.rd], last := some .immediate }
  | sw => { opcode := .sw, registers := [.rs], last := some .immediate }
  | dumpProcessorState => { opcode := .dumpProcessorState }
  | snapshot => { opcode := .snapshot, last := some .label }
  | migrate => { opcode := .migrate, last := some .label }
  | halt => { opcode := .halt }
  | sub => { opcode := .sub, registers := [.rd, .rs, .rt] }
  | mul => { opcode := .mul, registers := [.rd, .rs, .rt] }
  | div => { opcode := .div, registers := [.rs, .rt] }

/-- The operation that a word stands for. -/
def named (op : List Byte) : Option Mnemonic := all.find? fun m => m.text = op

/-- A word stands for the operation whose text it is. -/
theorem named_eq_some_iff {op : List Byte} {m : Mnemonic} : named op = some m ↔ op = m.text := by
  constructor
  · intro h
    rw [named] at h
    have htext := List.find?_some h
    exact (of_decide_eq_true htext).symm
  · rintro rfl
    cases m <;> decide

/-- A word that stands for no operation is not the text of one. -/
theorem ne_text_of_named_eq_none {op : List Byte} (h : named op = none) (m : Mnemonic) :
    op ≠ m.text := by
  intro heq
  rw [named_eq_some_iff.mpr heq] at h
  cases h

/-- Every operation is executable. -/
theorem opcode_ne_invalid (m : Mnemonic) : m.format.opcode ≠ .invalid := by
  cases m <;> decide

/-- No operand list has a register twice. -/
theorem nodup_registers (m : Mnemonic) : m.format.registers.Nodup := by
  cases m <;> decide

/-- No operation is taken for a comment. -/
theorem head?_text_ne (m : Mnemonic) : m.text.head? ≠ some (ascii '#') := by
  cases m <;> decide

/-- The text of an operation is not empty. -/
theorem text_ne_nil (m : Mnemonic) : m.text ≠ [] := by
  cases m <;> exact List.cons_ne_nil _ _

/-- The text of an operation is a word. -/
theorem spaceless_text (m : Mnemonic) : Spaceless m.text := by
  cases m <;> exact spaceless_bytes rfl

end Mnemonic

/-- Write the numbers of register tokens into their fields; `none` where one of them throws. -/
def fillRegisters : List RegisterField → List (List Byte) → Instruction → Option Instruction
  | field :: fields, token :: tokens, inst => do
      let number ← parseRegister (trimComma token)
      fillRegisters fields tokens (inst.setRegister number field)
  | _, _, inst => some inst

/-- Extract what follows the registers. -/
def readLast : Option LastOperand → Instruction → TextReader Instruction
  | none, inst => pure inst
  | some .immediate, inst => do
      let imm ← readSigned 0
      return { inst with imm }
  | some .label, inst => do
      let label ← readToken []
      return { inst with label }

/-- Extract an operand list. -/
def Format.read (f : Format) : TextReader (Option Instruction) := do
  let tokens ← readTokens f.registers.length
  let inst ← readLast f.last { opcode := f.opcode }
  return fillRegisters f.registers tokens inst

/-- **The branches of `ParseProgram` read the operand lists of the table.** -/
theorem parseOperands_text (m : Mnemonic) : parseOperands m.text = m.format.read := by
  cases m <;> rfl

/-- Any other operation is the label of an invalid instruction. -/
theorem parseOperands_of_named_eq_none {op : List Byte} (h : Mnemonic.named op = none) :
    parseOperands op = return some { opcode := .invalid, label := op } := by
  have hne := Mnemonic.ne_text_of_named_eq_none h
  exact (if_neg (hne .li)).trans <| (if_neg (hne .add)).trans <| (if_neg (hne .addi)).trans <|
    (if_neg (hne .lw)).trans <| (if_neg (hne .sw)).trans <|
    (if_neg (hne .dumpProcessorState)).trans <| (if_neg (hne .snapshot)).trans <|
    (if_neg (hne .migrate)).trans <| (if_neg (hne .halt)).trans <| (if_neg (hne .sub)).trans <|
    (if_neg (hne .mul)).trans <| if_neg (hne .div)

/-! ## The numbers of registers -/

/-- The number behind the dollar sign of a register word; `none` where `ParseRegister` takes the word
for register 0 without looking for one. -/
def registerField (word : List Byte) : Option NumberField :=
  let token := trimComma word
  if token.length < 2 ∨ token.head? ≠ some (ascii '$') then none
  else some (NumberField.scan token.tail)

/-- What stands behind the dollar sign of a register word is an `int` with `P`. -/
def WritesInt (P : Int → Prop) (word : List Byte) : Prop :=
  ∀ field ∈ registerField word, field.digits ≠ []
    ∧ (-2 ^ 31 ≤ field.value ∧ field.value < 2 ^ 31) ∧ P field.value

/-- The operation that the first word of a line stands for. -/
def lineMnemonic (line : List Byte) : Option Mnemonic := (words line).head?.bind Mnemonic.named

/-- The words of a line that `ParseProgram` takes for registers. -/
def registerWords (line : List Byte) : List (List Byte) :=
  (lineMnemonic line).elim [] fun m => (words line).tail.take m.format.registers.length

variable {P : Int → Prop}

/-- Trimming leaves no white space. -/
theorem spaceless_trimComma {word : List Byte} (h : Spaceless word) : Spaceless (trimComma word) := by
  rw [trimComma]
  split
  · exact fun b hb => h b (List.mem_of_mem_dropLast hb)
  · exact h

/-- Without white space the conversion starts at the first character. -/
theorem stoi_of_spaceless {text : List Byte} (h : Spaceless text) : stoi text
    = if (NumberField.scan text).digits = [] ∨ (NumberField.scan text).value < -2 ^ 31
        ∨ 2 ^ 31 ≤ (NumberField.scan text).value then none
      else some (NumberField.scan text).value := by
  have hskip : text.dropWhile (IsSpace ·) = text := by
    cases text with
    | nil => rfl
    | cons b text =>
        exact List.dropWhile_cons_of_neg (by simpa using h b (List.mem_cons_self ..))
  rw [stoi, hskip]

/-- What `ParseRegister` makes of a word, by the number behind its dollar sign. -/
theorem parseRegister_eq {word : List Byte} (hword : Spaceless word) :
    parseRegister (trimComma word) = (registerField word).elim (some 0) fun field =>
      if field.digits = [] ∨ field.value < -2 ^ 31 ∨ 2 ^ 31 ≤ field.value then none
      else some field.value := by
  rw [parseRegister, registerField]
  by_cases hskip : (trimComma word).length < 2 ∨ (trimComma word).head? ≠ some (ascii '$')
  · rw [if_pos hskip, if_pos hskip, Option.elim_none]
  · have htail : Spaceless (trimComma word).tail := fun b hb =>
      spaceless_trimComma hword b (List.mem_of_mem_tail hb)
    rw [if_neg hskip, if_neg hskip, stoi_of_spaceless htail, Option.elim_some]

/-- **A register word is read, as a number with `P`, if and only if it writes one.** -/
theorem exists_parseRegister_iff (hzero : P 0) {word : List Byte} (hword : Spaceless word) :
    (∃ number, parseRegister (trimComma word) = some number ∧ P number) ↔ WritesInt P word := by
  rw [parseRegister_eq hword, WritesInt]
  cases registerField word with
  | none =>
      exact ⟨fun _ field hfield => (Option.not_mem_none field hfield).elim,
        fun _ => ⟨0, rfl, hzero⟩⟩
  | some field =>
      rw [Option.elim_some]
      constructor
      · rintro ⟨number, hnumber, hP⟩ field' hfield
        rw [Option.mem_some_iff] at hfield
        rw [← hfield]
        split at hnumber
        · cases hnumber
        · next hint =>
            rw [Option.some.injEq] at hnumber
            rw [not_or, not_or, not_lt, not_le] at hint
            exact ⟨hint.1, hint.2, hnumber ▸ hP⟩
      · intro h
        obtain ⟨hdigits, ⟨hmin, hmax⟩, hP⟩ := h field rfl
        refine ⟨field.value, if_neg ?_, hP⟩
        rw [not_or, not_or, not_lt, not_le]
        exact ⟨hdigits, hmin, hmax⟩

/-- Writing one register operand, as a condition on all but some of them. -/
theorem forall_setRegister_iff {field : RegisterField} {fields : List RegisterField}
    (hfield : field ∉ fields) (inst : Instruction) (number : Int) :
    (∀ field' ∉ fields, P ((inst.setRegister number field).register field'))
      ↔ P number ∧ ∀ field' ∉ field :: fields, P (inst.register field') := by
  simp only [Instruction.register_setRegister, List.mem_cons, not_or]
  constructor
  · intro h
    refine ⟨?_, fun field' hne => ?_⟩
    · simpa using h field hfield
    · simpa only [if_neg hne.1] using h field' hne.2
  · rintro ⟨hnumber, h⟩ field' hne
    by_cases heq : field' = field
    · rwa [if_pos heq]
    · rw [if_neg heq]
      exact h field' ⟨heq, hne⟩

/-- A missing word writes no number that is out of place. -/
theorem writesInt_nil : WritesInt P [] := fun field hfield =>
  (Option.not_mem_none field hfield).elim

/-- All words have a property if the first one and the others have it, where missing words do. -/
theorem forall_words_iff {Q : List Byte → Prop} (hnil : Q []) (others : List (List Byte)) :
    (∀ word ∈ others, Q word) ↔ Q (others.headD []) ∧ ∀ word ∈ others.tail, Q word := by
  cases others with
  | nil => simp [hnil]
  | cons word others => simp

/-- **Register words fill the registers of an operand list with numbers with `P`**, if and only if they
write such numbers; a word that is missing counts as 0. -/
theorem exists_fillRegisters_iff (hzero : P 0) {fields : List RegisterField} (hnodup : fields.Nodup)
    {others : List (List Byte)} (hothers : ∀ word ∈ others, Spaceless word) (inst : Instruction) :
    (∃ inst', fillRegisters fields (others.takeD fields.length []) inst = some inst'
        ∧ ∀ field, P (inst'.register field))
      ↔ (∀ word ∈ others.take fields.length, WritesInt P word)
        ∧ ∀ field ∉ fields, P (inst.register field) := by
  induction fields generalizing others inst with
  | nil => simp [fillRegisters]
  | cons field fields ih =>
      rw [List.nodup_cons] at hnodup
      obtain ⟨hhead, htail⟩ := (forall_words_iff spaceless_nil others).mp hothers
      have hcut : (others.take (fields.length + 1)).headD [] = others.headD []
          ∧ (others.take (fields.length + 1)).tail = others.tail.take fields.length := by
        cases others <;> simp
      have hfill : fillRegisters (field :: fields) (others.takeD (field :: fields).length []) inst
          = (parseRegister (trimComma (others.headD []))).bind fun number =>
            fillRegisters fields (others.tail.takeD fields.length [])
              (inst.setRegister number field) := rfl
      rw [hfill, List.length_cons, forall_words_iff writesInt_nil, hcut.1, hcut.2,
        ← exists_parseRegister_iff hzero hhead]
      -- the first token is read, and the others fill the other registers
      constructor
      · rintro ⟨inst', hread, hP⟩
        obtain ⟨number, hnumber, hread⟩ := Option.bind_eq_some_iff.mp hread
        obtain ⟨hwords, hset⟩ := (ih hnodup.2 htail _).mp ⟨inst', hread, hP⟩
        obtain ⟨hPnumber, hrest⟩ := (forall_setRegister_iff hnodup.1 inst number).mp hset
        exact ⟨⟨⟨number, hnumber, hPnumber⟩, hwords⟩, hrest⟩
      · rintro ⟨⟨⟨number, hnumber, hPnumber⟩, hwords⟩, hrest⟩
        have hset := (forall_setRegister_iff hnodup.1 inst number).mpr ⟨hPnumber, hrest⟩
        obtain ⟨inst', hread, hP⟩ := (ih hnodup.2 htail _).mpr ⟨hwords, hset⟩
        exact ⟨inst', Option.bind_eq_some_iff.mpr ⟨number, hnumber, hread⟩, hP⟩

/-- Filling registers keeps the operation. -/
theorem opcode_of_fillRegisters {fields : List RegisterField} {tokens : List (List Byte)}
    {inst inst' : Instruction} (h : fillRegisters fields tokens inst = some inst') :
    inst'.opcode = inst.opcode := by
  induction fields generalizing tokens inst with
  | nil => rw [← Option.some.inj h]
  | cons field fields ih =>
      cases tokens with
      | nil => rw [← Option.some.inj h]
      | cons token tokens =>
          obtain ⟨number, -, h⟩ := Option.bind_eq_some_iff.mp h
          rw [ih h, Instruction.opcode_setRegister]

/-- What follows the registers is not a register. -/
theorem register_readLast (last : Option LastOperand) (inst : Instruction) (s : TextStream)
    (field : RegisterField) : (readLast last inst s).1.register field = inst.register field := by
  rcases last with _ | _ | _ <;> cases field <;> rfl

/-- What follows the registers is not the operation. -/
theorem opcode_readLast (last : Option LastOperand) (inst : Instruction) (s : TextStream) :
    (readLast last inst s).1.opcode = inst.opcode := by
  rcases last with _ | _ | _ <;> rfl

/-! ## Lines -/

/-- A line, by the first word of it. -/
theorem parseLine_eq (line : List Byte) : parseLine line
    = if (words line).headD [] = [] ∨ ((words line).headD []).head? = some (ascii '#') then some none
      else (parseOperands ((words line).headD []) (readToken [] (ofText line)).2).1.map some := by
  have htoken : (readToken [] (ofText line)).1 = (words line).headD [] := by
    rw [readToken_fst, wordsLeft_ofText]
  rw [← htoken]
  rfl

/-- A line that does not begin with an operation is skipped, or yields an invalid instruction. -/
theorem parseLine_of_lineMnemonic_none {line : List Byte} (h : lineMnemonic line = none) :
    ∃ inst, parseLine line = some inst
      ∧ ∀ i ∈ inst, ∃ label, i = ({ opcode := .invalid, label } : Instruction) := by
  rw [parseLine_eq]
  split
  · exact ⟨none, rfl, fun i hi => (Option.not_mem_none i hi).elim⟩
  · next hop =>
      have hnamed : Mnemonic.named ((words line).headD []) = none := by
        rw [lineMnemonic] at h
        cases hwords : words line with
        | nil =>
            rw [hwords] at hop
            exact absurd (.inl rfl) hop
        | cons op others =>
            rwa [hwords] at h
      rw [parseOperands_of_named_eq_none hnamed]
      exact ⟨_, rfl, fun i hi => ⟨_, (Option.mem_some_iff.mp hi).symm⟩⟩

/-- **A line with an operation**: the words behind it fill the registers of its operand list. -/
theorem parseLine_of_lineMnemonic {line : List Byte} {m : Mnemonic} (h : lineMnemonic line = some m) :
    ∃ s : TextStream, s.wordsLeft = (words line).tail.drop m.format.registers.length
      ∧ parseLine line = (fillRegisters m.format.registers
          ((words line).tail.takeD m.format.registers.length [])
          (readLast m.format.last { opcode := m.format.opcode } s).1).map some := by
  obtain ⟨op, hhead, hop⟩ := Option.bind_eq_some_iff.mp h
  obtain ⟨others, hwords⟩ := List.head?_eq_some_iff.mp hhead
  obtain rfl := Mnemonic.named_eq_some_iff.mp hop
  have hskip : ¬ (m.text = [] ∨ m.text.head? = some (ascii '#')) := by
    rintro (hnil | hhash)
    · have hmem : m.text ∈ words line := hwords ▸ List.mem_cons_self ..
      exact ne_nil_of_mem_words hmem hnil
    · exact m.head?_text_ne hhash
  have hleft : (readToken [] (ofText line)).2.wordsLeft = (words line).tail := by
    rw [wordsLeft_readToken, wordsLeft_ofText]
  rw [← hleft]
  refine ⟨(readTokens m.format.registers.length (readToken [] (ofText line)).2).2,
    wordsLeft_readTokens _ _, ?_⟩
  rw [parseLine_eq, hwords, List.headD_cons, if_neg hskip, parseOperands_text, ← readTokens_fst]
  rfl

/-- **A line is read with registers with `P`**, if and only if its register words write such numbers. -/
theorem exists_parseLine_iff (hzero : P 0) (line : List Byte) :
    (∃ inst, parseLine line = some inst ∧ ∀ i ∈ inst, ∀ field, P (i.register field))
      ↔ ∀ word ∈ registerWords line, WritesInt P word := by
  have hzeros : ∀ (opcode : Opcode) (label : CString) (field : RegisterField),
      P (({ opcode, label } : Instruction).register field) := by
    intro opcode label field
    cases field <;> exact hzero
  rw [registerWords]
  cases hm : lineMnemonic line with
  | none =>
      obtain ⟨inst, hline, hinst⟩ := parseLine_of_lineMnemonic_none hm
      refine ⟨fun _ word hword => absurd hword (List.not_mem_nil), fun _ => ⟨inst, hline, ?_⟩⟩
      intro i hi field
      obtain ⟨label, rfl⟩ := hinst i hi
      exact hzeros _ _ field
  | some m =>
      obtain ⟨s, -, hline⟩ := parseLine_of_lineMnemonic hm
      have hothers : ∀ word ∈ (words line).tail, Spaceless word := fun word hword =>
        spaceless_of_mem_words (List.mem_of_mem_tail hword)
      have hfill := exists_fillRegisters_iff hzero m.nodup_registers hothers
        (readLast m.format.last { opcode := m.format.opcode } s).1
      rw [Option.elim_some, hline]
      constructor
      · rintro ⟨inst, hinst, hP⟩
        obtain ⟨i, hi, rfl⟩ := Option.map_eq_some_iff.mp hinst
        exact (hfill.mp ⟨i, hi, hP i rfl⟩).1
      · intro h
        have hlast : ∀ field ∉ m.format.registers,
            P ((readLast m.format.last { opcode := m.format.opcode } s).1.register field) := by
          intro field _
          rw [register_readLast]
          exact hzeros _ _ field
        obtain ⟨i, hi, hP⟩ := hfill.mpr ⟨h, hlast⟩
        refine ⟨some i, by rw [hi, Option.map_some], fun j hj => ?_⟩
        rw [Option.mem_some_iff] at hj
        rw [← hj]
        exact hP

end VmmShowcase
