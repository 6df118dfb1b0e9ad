import VmmShowcase.Legacy.Operands

/-! # The lines both interpreters read

`ParseProgram` takes a line apart at white space and the legacy `solve` at commas, so they agree on a
line with a blank behind every comma. Without one, `ParseProgram` takes two operands for one token: the
first of them is read, the others are register 0 or the immediate 0. -/

namespace VmmShowcase

open Text TextStream

/-- The instructions both interpreters have. -/
inductive SharedInstruction where
  | li (rd : Fin 32) (imm : Word)
  | add (rd rs rt : Fin 32)
  | addi (rd rs : Fin 32) (imm : Word)
  | sub (rd rs rt : Fin 32)
  | mul (rd rs rt : Fin 32)
  | div (rs rt : Fin 32)
  deriving DecidableEq

/-- A run of blanks. -/
def blanks (k : Nat) : List Byte := List.replicate k space

/-- A register operand. -/
def registerText (i : Fin 32) : List Byte := ascii '$' :: decimal i

/-- An immediate operand. -/
def immediateText (imm : Word) : List Byte := signedDecimal imm.toInt

/-- Two operands, with `k` blanks behind the comma. -/
def twoOperands (k : Nat) (x y : List Byte) : List Byte := x ++ comma :: (blanks k ++ y)

namespace SharedInstruction

/-- A line with an instruction: `k₀` more blanks than one behind the operation, and `k₁` and `k₂` blanks
behind the commas. -/
def line (k₀ k₁ k₂ : Nat) : SharedInstruction → List Byte
  | li rd imm => bytes ['l', 'i'] ++ space :: (blanks k₀
      ++ twoOperands k₁ (registerText rd) (immediateText imm))
  | add rd rs rt => bytes ['a', 'd', 'd'] ++ space :: (blanks k₀
      ++ twoOperands k₁ (registerText rd) (twoOperands k₂ (registerText rs) (registerText rt)))
  | addi rd rs imm => bytes ['a', 'd', 'd', 'i'] ++ space :: (blanks k₀
      ++ twoOperands k₁ (registerText rd) (twoOperands k₂ (registerText rs) (immediateText imm)))
  | sub rd rs rt => bytes ['s', 'u', 'b'] ++ space :: (blanks k₀
      ++ twoOperands k₁ (registerText rd) (twoOperands k₂ (registerText rs) (registerText rt)))
  | mul rd rs rt => bytes ['m', 'u', 'l'] ++ space :: (blanks k₀
      ++ twoOperands k₁ (registerText rd) (twoOperands k₂ (registerText rs) (registerText rt)))
  | div rs rt => bytes ['d', 'i', 'v'] ++ space :: (blanks k₀
      ++ twoOperands k₁ (registerText rs) (registerText rt))

/-- Register 0, which is read where there is no operand. -/
def zeroRegister : Fin 32 := ⟨0, by decide⟩

/-- The two source registers that `ParseProgram` reads where `rs` and `rt` are written. -/
def readRegisters (k₁ k₂ : Nat) (rs rt : Fin 32) : Fin 32 × Fin 32 :=
  if k₁ = 0 then (if k₂ = 0 then zeroRegister else rt, zeroRegister)
  else (rs, if k₂ = 0 then zeroRegister else rt)

/-- The instruction `ParseProgram` reads where `inst` is written. -/
def read (k₁ k₂ : Nat) : (inst : SharedInstruction) → SharedInstruction
  | li rd imm => .li rd (if k₁ = 0 then 0 else imm)
  | add rd rs rt => .add rd (readRegisters k₁ k₂ rs rt).1 (readRegisters k₁ k₂ rs rt).2
  | addi rd rs imm =>
      .addi rd (if k₁ = 0 then zeroRegister else rs) (if k₁ = 0 ∨ k₂ = 0 then 0 else imm)
  | sub rd rs rt => .sub rd (readRegisters k₁ k₂ rs rt).1 (readRegisters k₁ k₂ rs rt).2
  | mul rd rs rt => .mul rd (readRegisters k₁ k₂ rs rt).1 (readRegisters k₁ k₂ rs rt).2
  | div rs rt => .div rs (if k₁ = 0 then zeroRegister else rt)

/-- The `Instruction` that `ParseProgram` makes of an instruction. -/
def decoded : SharedInstruction → Instruction
  | li rd imm => { opcode := .li, rd := rd, imm }
  | add rd rs rt => { opcode := .add, rd := rd, rs := rs, rt := rt }
  | addi rd rs imm => { opcode := .addi, rd := rd, rs := rs, imm }
  | sub rd rs rt => { opcode := .sub, rd := rd, rs := rs, rt := rt }
  | mul rd rs rt => { opcode := .mul, rd := rd, rs := rs, rt := rt }
  | div rs rt => { opcode := .div, rs := rs, rt := rt }

/-- The legacy function an instruction calls. -/
def run : SharedInstruction → VmClass → Option VmClass
  | li rd imm, obj => obj.li rd imm.toInt
  | add rd rs rt, obj => obj.add rd rs rt
  | addi rd rs imm, obj => obj.addi rd rs imm.toInt
  | sub rd rs rt, obj => obj.sub rd rs rt
  | mul rd rs rt, obj => obj.mul rd rs rt
  | div rs rt, obj => obj.divi rs rt

end SharedInstruction

/-! ## Operands -/

/-- Blanks are white space. -/
theorem blank_blanks (k : Nat) : Blank (blanks k) := by
  intro b hb
  rw [List.eq_of_mem_replicate hb]
  decide

/-- A number ends at a comma. -/
theorem undigited_comma (text : List Byte) : Undigited (comma :: text) := by
  intro b hb
  rw [List.head?_cons, Option.mem_some_iff] at hb
  subst hb
  decide

/-- A register operand is a dollar sign and digits. -/
theorem notMem_registerText {b : Byte} (hdigit : ¬ IsDigit b) (hdollar : b ≠ ascii '$') (i : Fin 32) :
    b ∉ registerText i := fun hb =>
  (List.mem_cons.mp hb).elim hdollar (notMem_decimal hdigit i)

/-- An immediate operand is at most a sign and digits. -/
theorem notMem_immediateText {b : Byte} (hdigit : ¬ IsDigit b) (hminus : b ≠ ascii '-') (imm : Word) :
    b ∉ immediateText imm := notMem_signedDecimal hdigit hminus imm.toInt

/-- White space is not among the characters of an operand. -/
theorem ne_of_isSpace {b c : Byte} (h : IsSpace b) (hc : ¬ IsSpace c) : b ≠ c := fun heq => hc (heq ▸ h)

/-- A register operand is a word. -/
theorem spaceless_registerText (i : Fin 32) : Spaceless (registerText i) := fun _ hb hspace =>
  notMem_registerText (not_isDigit_of_isSpace hspace) (ne_of_isSpace hspace (by decide)) i hb

/-- An immediate operand is a word. -/
theorem spaceless_immediateText (imm : Word) : Spaceless (immediateText imm) :=
  spaceless_signedDecimal imm.toInt

/-- The number behind the dollar sign of a register operand is converted, whatever follows but a
digit. -/
theorem stoi_decimal (i : Fin 32) {before post : List Byte} (hbefore : Blank before)
    (hpost : Undigited post) : stoi (before ++ (decimal i ++ post)) = some (i : Int) := by
  rw [← signedDecimal_natCast]
  exact stoi_append (by omega) (by omega) hbefore hpost

/-- **A token that begins with a register operand is that register**, also where a comma and further
operands stick to it. -/
theorem parseRegister_trimComma (i : Fin 32) {post : List Byte} (hpost : Undigited post) :
    parseRegister (trimComma (registerText i ++ post)) = some (i : Int) := by
  have hparse : ∀ {rest}, Undigited rest →
      parseRegister (registerText i ++ rest) = some (i : Int) := by
    intro rest hrest
    have hlen : ¬ (registerText i ++ rest).length < 2 := by
      have hpos := List.length_pos_iff.mpr (decimal_ne_nil i)
      rw [registerText, List.length_append, List.length_cons]
      omega
    rw [parseRegister, if_neg]
    · exact stoi_decimal i blank_nil hrest
    · rintro (h | h)
      · exact hlen h
      · exact h rfl
  rw [trimComma]
  split
  · -- the comma that is trimmed off stands behind the operand
    next hlast =>
      cases post with
      | nil =>
          rw [List.append_nil] at hlast
          exact absurd (List.mem_of_getLast? hlast) (notMem_registerText (by decide) (by decide) i)
      | cons c rest =>
          rw [List.dropLast_append_of_ne_nil (by simp)]
          refine hparse fun b hb => hpost b ?_
          cases rest with
          | nil => simp at hb
          | cons d rest => simpa using hb
  · exact hparse hpost

/-! ## The words of a line -/

/-- A register operand is not empty. -/
theorem registerText_ne_nil (i : Fin 32) : registerText i ≠ [] := List.cons_ne_nil _ _

/-- An immediate operand is not empty. -/
theorem immediateText_ne_nil (imm : Word) : immediateText imm ≠ [] := signedDecimal_ne_nil _

/-- Two operands are not empty. -/
theorem twoOperands_ne_nil {k : Nat} {x y : List Byte} : twoOperands k x y ≠ [] := by
  rw [twoOperands]
  simp

/-- Without a blank behind the comma, two operands make one word with what follows. -/
theorem twoOperands_zero (k : Nat) (x y z : List Byte) :
    twoOperands 0 x (twoOperands k y z) = twoOperands k (twoOperands 0 x y) z := by
  simp only [twoOperands, blanks, List.replicate_zero, List.nil_append, List.append_assoc,
    List.cons_append]

/-- Words without a blank between them are a word. -/
theorem spaceless_twoOperands {x y : List Byte} (hx : Spaceless x) (hy : Spaceless y) :
    Spaceless (twoOperands 0 x y) := by
  intro b hb
  rcases List.mem_append.mp hb with hb | hb
  · exact hx b hb
  · rcases List.mem_cons.mp hb with rfl | hb
    · decide
    · exact hy b hb

/-- The operation of a line is its first word. -/
theorem words_op {op : List Byte} (hop : Spaceless op) (hne : op ≠ []) (k₀ : Nat)
    (operands : List Byte) : words (op ++ space :: (blanks k₀ ++ operands)) = op :: words operands := by
  rw [words_append_cons (by decide), words_of_spaceless hop hne,
    words_append_of_blank (blank_blanks k₀)]
  rfl

/-- A word that is the last operand. -/
theorem words_registerText (i : Fin 32) : words (registerText i) = [registerText i] :=
  words_of_spaceless (spaceless_registerText i) (registerText_ne_nil i)

/-- A word that is the last operand. -/
theorem words_immediateText (imm : Word) : words (immediateText imm) = [immediateText imm] :=
  words_of_spaceless (spaceless_immediateText imm) (immediateText_ne_nil imm)

/-- A comma without a blank behind it does not separate words. -/
theorem words_twoOperands_zero {x y : List Byte} (hx : Spaceless x) (hy : Spaceless y) :
    words (twoOperands 0 x y) = [twoOperands 0 x y] :=
  words_of_spaceless (spaceless_twoOperands hx hy) twoOperands_ne_nil

/-- A blank behind the comma ends the word there. -/
theorem words_twoOperands_succ {x : List Byte} (hx : Spaceless x) (k : Nat) (y : List Byte) :
    words (twoOperands (k + 1) x y) = (x ++ [comma]) :: words y := by
  have hword : Spaceless (x ++ [comma]) := by
    intro b hb
    rcases List.mem_append.mp hb with hb | hb
    · exact hx b hb
    · rw [List.mem_singleton.mp hb]
      decide
  have htext : twoOperands (k + 1) x y = (x ++ [comma]) ++ space :: (blanks k ++ y) := by
    rw [twoOperands, List.append_assoc]
    rfl
  rw [htext, words_op hword (by simp)]

/-! ## What `ParseProgram` reads -/

/-- A register operand that stands alone, up to its comma. -/
theorem parseRegister_registerText (i : Fin 32) :
    parseRegister (trimComma (registerText i)) = some (i : Int) := by
  have h := parseRegister_trimComma i undigited_nil
  rwa [List.append_nil] at h

/-- A register operand with more operands stuck to it. -/
theorem parseRegister_twoOperands (i : Fin 32) (k : Nat) (y : List Byte) :
    parseRegister (trimComma (twoOperands k (registerText i) y)) = some (i : Int) :=
  parseRegister_trimComma i (undigited_comma _)

/-- Two operands stuck to each other, up to the comma behind them. -/
theorem parseRegister_joined (i : Fin 32) (y : List Byte) :
    parseRegister (trimComma (twoOperands 0 (registerText i) y ++ [comma])) = some (i : Int) := by
  rw [twoOperands, List.append_assoc, List.cons_append]
  exact parseRegister_trimComma i (undigited_comma _)

/-- An immediate operand is no register. -/
theorem parseRegister_immediateText (imm : Word) :
    parseRegister (trimComma (immediateText imm)) = some 0 := by
  have hlast : (immediateText imm).getLast? ≠ some (ascii ',') := fun h =>
    notMem_immediateText (by decide) (by decide) imm (List.mem_of_getLast? h)
  have hhead : (immediateText imm).head? ≠ some (ascii '$') := fun h =>
    notMem_immediateText (by decide) (by decide) imm (List.mem_of_head? h)
  rw [trimComma, if_neg hlast, parseRegister, if_pos (.inr hhead)]

/-- The next word fills the next register. -/
theorem fillRegisters_cons {word : List Byte} {number : Int}
    (h : parseRegister (trimComma word) = some number) (others : List (List Byte))
    (field : RegisterField) (fields : List RegisterField) (inst : Instruction) :
    fillRegisters (field :: fields) ((word :: others).takeD (field :: fields).length []) inst
      = fillRegisters fields (others.takeD fields.length []) (inst.setRegister number field) := by
  show (parseRegister (trimComma word)).bind _ = _
  rw [h]
  rfl

/-- Where no word is left the next register is 0. -/
theorem fillRegisters_missing (field : RegisterField) (fields : List RegisterField)
    (inst : Instruction) :
    fillRegisters (field :: fields) (([] : List (List Byte)).takeD (field :: fields).length []) inst
      = fillRegisters fields (([] : List (List Byte)).takeD fields.length [])
        (inst.setRegister 0 field) := rfl

/-- A line with an operation yields what its words fill in. -/
theorem parseLine_of_words {line : List Byte} {m : Mnemonic} {others : List (List Byte)}
    (h : words line = m.text :: others) : ∃ s : TextStream,
      s.wordsLeft = others.drop m.format.registers.length ∧ ∀ inst,
        fillRegisters m.format.registers (others.takeD m.format.registers.length [])
          (readLast m.format.last { opcode := m.format.opcode } s).1 = some inst →
        parseLine line = some (some inst) := by
  have hm : lineMnemonic line = some m := by
    rw [lineMnemonic, h]
    exact Mnemonic.named_eq_some_iff.mpr rfl
  obtain ⟨s, hs, hline⟩ := parseLine_of_lineMnemonic hm
  rw [h] at hs hline
  refine ⟨s, hs, fun inst hfill => ?_⟩
  rw [hline]
  exact congrArg (Option.map some) hfill

/-- **Three register operands** are read as `readRegisters` says. -/
theorem parseLine_threeRegisters {m : Mnemonic} (hregs : m.format.registers = [.rd, .rs, .rt])
    (hlast : m.format.last = none) {line : List Byte} {k₁ k₂ : Nat} {rd rs rt : Fin 32}
    (h : words line = m.text :: words (twoOperands k₁ (registerText rd)
      (twoOperands k₂ (registerText rs) (registerText rt)))) :
    parseLine line = some (some
      { opcode := m.format.opcode, rd := rd
        rs := (SharedInstruction.readRegisters k₁ k₂ rs rt).1
        rt := (SharedInstruction.readRegisters k₁ k₂ rs rt).2 }) := by
  have hd := spaceless_registerText rd
  have hs := spaceless_registerText rs
  have ht := spaceless_registerText rt
  obtain ⟨s, -, hline⟩ := parseLine_of_words h
  rw [hregs, hlast] at hline
  refine hline _ ?_
  -- four cases, by the commas with a blank behind them
  rcases k₁ with _ | k₁ <;> rcases k₂ with _ | k₂
  · rw [words_twoOperands_zero hd (spaceless_twoOperands hs ht)]
    exact (fillRegisters_cons (parseRegister_twoOperands rd _ _) ..).trans <|
      (fillRegisters_missing ..).trans <| fillRegisters_missing ..
  · rw [twoOperands_zero, words_twoOperands_succ (spaceless_twoOperands hd hs), words_registerText]
    exact (fillRegisters_cons (parseRegister_joined rd _) ..).trans <|
      (fillRegisters_cons (parseRegister_registerText rt) ..).trans <|
      fillRegisters_missing ..
  · rw [words_twoOperands_succ hd, words_twoOperands_zero hs ht]
    exact (fillRegisters_cons (parseRegister_trimComma rd (undigited_comma [])) ..).trans <|
      (fillRegisters_cons (parseRegister_twoOperands rs _ _) ..).trans <|
      fillRegisters_missing ..
  · rw [words_twoOperands_succ hd, words_twoOperands_succ hs, words_registerText]
    exact (fillRegisters_cons (parseRegister_trimComma rd (undigited_comma [])) ..).trans <|
      (fillRegisters_cons (parseRegister_trimComma rs (undigited_comma [])) ..).trans <|
      fillRegisters_cons (parseRegister_registerText rt) ..

/-- The immediate that is left behind the registers is read. -/
theorem readLast_immediateText {s : TextStream} {imm : Word} (h : s.wordsLeft = [immediateText imm])
    (inst : Instruction) : (readLast (some .immediate) inst s).1 = { inst with imm } := by
  have himm : numeral (immediateText imm) = some imm.toInt := numeral_signedDecimal _
  have hread := (takesWords_signed himm 0 h).1
  rw [readLast, bind_apply, hread]
  rfl

/-- Where no word is left behind the registers the immediate is 0. -/
theorem readLast_missing {s : TextStream} (h : s.wordsLeft = []) (inst : Instruction) :
    (readLast (some .immediate) inst s).1 = { inst with imm := 0 } := by
  rw [readLast, bind_apply, readSigned, (extract_of_wordsLeft_nil h (0 : Word) _).1]
  rfl

namespace SharedInstruction

/-- **What `ParseProgram` makes of a line.** -/
theorem parseLine_line (inst : SharedInstruction) (k₀ k₁ k₂ : Nat) :
    parseLine (inst.line k₀ k₁ k₂) = some (some (inst.read k₁ k₂).decoded) := by
  have hop : ∀ (m : Mnemonic) (operands : List Byte),
      words (m.text ++ space :: (blanks k₀ ++ operands)) = m.text :: words operands :=
    fun m operands => words_op m.spaceless_text m.text_ne_nil k₀ operands
  cases inst with
  | li rd imm =>
      have hd := spaceless_registerText rd
      obtain ⟨s, hs, hline⟩ := parseLine_of_words (hop .li (twoOperands k₁ (registerText rd)
        (immediateText imm)))
      refine hline _ ?_
      rcases k₁ with _ | k₁
      · rw [words_twoOperands_zero hd (spaceless_immediateText imm)] at hs ⊢
        show fillRegisters _ _ (readLast (some .immediate) _ s).1 = _
        rw [readLast_missing hs]
        exact fillRegisters_cons (parseRegister_twoOperands rd _ _) ..
      · rw [words_twoOperands_succ hd, words_immediateText] at hs ⊢
        show fillRegisters _ _ (readLast (some .immediate) _ s).1 = _
        rw [readLast_immediateText hs]
        exact fillRegisters_cons (parseRegister_trimComma rd (undigited_comma [])) ..
  | add rd rs rt =>
      exact parseLine_threeRegisters rfl rfl (hop .add _)
  | addi rd rs imm =>
      have hd := spaceless_registerText rd
      have hr := spaceless_registerText rs
      have hi := spaceless_immediateText imm
      obtain ⟨s, hs, hline⟩ := parseLine_of_words (hop .addi (twoOperands k₁ (registerText rd)
        (twoOperands k₂ (registerText rs) (immediateText imm))))
      refine hline _ ?_
      rcases k₁ with _ | k₁ <;> rcases k₂ with _ | k₂
      · rw [words_twoOperands_zero hd (spaceless_twoOperands hr hi)] at hs ⊢
        show fillRegisters _ _ (readLast (some .immediate) _ s).1 = _
        rw [readLast_missing hs]
        exact (fillRegisters_cons (parseRegister_twoOperands rd _ _) ..).trans <|
          fillRegisters_missing ..
      · rw [twoOperands_zero, words_twoOperands_succ (spaceless_twoOperands hd hr),
          words_immediateText] at hs ⊢
        show fillRegisters _ _ (readLast (some .immediate) _ s).1 = _
        rw [readLast_missing hs]
        exact (fillRegisters_cons (parseRegister_joined rd _) ..).trans <|
          fillRegisters_cons (parseRegister_immediateText imm) ..
      · rw [words_twoOperands_succ hd, words_twoOperands_zero hr hi] at hs ⊢
        show fillRegisters _ _ (readLast (some .immediate) _ s).1 = _
        rw [readLast_missing hs]
        exact (fillRegisters_cons (parseRegister_trimComma rd (undigited_comma [])) ..).trans <|
          fillRegisters_cons (parseRegister_twoOperands rs _ _) ..
      · rw [words_twoOperands_succ hd, words_twoOperands_succ hr, words_immediateText] at hs ⊢
        show fillRegisters _ _ (readLast (some .immediate) _ s).1 = _
        rw [readLast_immediateText hs]
        exact (fillRegisters_cons (parseRegister_trimComma rd (undigited_comma [])) ..).trans <|
          fillRegisters_cons (parseRegister_trimComma rs (undigited_comma [])) ..
  | sub rd rs rt =>
      exact parseLine_threeRegisters rfl rfl (hop .sub _)
  | mul rd rs rt =>
      exact parseLine_threeRegisters rfl rfl (hop .mul _)
  | div rs rt =>
      have hs := spaceless_registerText rs
      have ht := spaceless_registerText rt
      obtain ⟨s, -, hline⟩ := parseLine_of_words (hop .div (twoOperands k₁ (registerText rs)
        (registerText rt)))
      refine hline _ ?_
      rcases k₁ with _ | k₁
      · rw [words_twoOperands_zero hs ht]
        exact (fillRegisters_cons (parseRegister_twoOperands rs _ _) ..).trans <|
          fillRegisters_missing ..
      · rw [words_twoOperands_succ hs, words_registerText]
        exact (fillRegisters_cons (parseRegister_trimComma rs (undigited_comma [])) ..).trans <|
          fillRegisters_cons (parseRegister_registerText rt) ..

end SharedInstruction

/-! ## What the legacy interpreter reads -/

/-- An operand stands behind any number of blanks. -/
theorem standsIn_blanks {operand : SourceOperand} {word : List Byte} (h : operand.Writes word)
    (k : Nat) : operand.StandsIn (blanks k ++ word) := by
  have hnewline : newline ∉ blanks k ++ word := by
    rw [List.mem_append, not_or]
    refine ⟨fun hmem => absurd (List.eq_of_mem_replicate hmem) (by decide), fun hmem => ?_⟩
    exact absurd (h.isDigit_of_mem hmem (by decide) (by decide) (by decide)) (by decide)
  exact ⟨blanks k, word, [], by rw [List.append_nil], blank_blanks k, blank_nil, hnewline, h⟩

/-- A register operand writes its register. -/
theorem writes_registerText (i : Fin 32) :
    (SourceOperand.register i).Writes (registerText i) := by
  refine writtenRegister_eq_some_iff.mpr ⟨decimal i, rfl, decimal_ne_nil i, ?_, ?_⟩
  · exact fun b => isDigit_of_mem_decimal
  · rw [digitsValue_decimal]

/-- An immediate operand writes its word. -/
theorem writes_immediateText (imm : Word) :
    (SourceOperand.immediate imm).Writes (immediateText imm) := by
  have hmin := BitVec.le_toInt imm
  have hmax := @BitVec.toInt_lt 32 imm
  show (numeral (signedDecimal imm.toInt)).bind _ = some imm
  rw [numeral_signedDecimal, Option.bind_some, if_pos ⟨by simpa using hmin, by simpa using hmax⟩,
    BitVec.ofInt_toInt]

/-- A register operand is converted to the register it names. -/
theorem stoi_registerText (k : Nat) (i : Fin 32) :
    stoi (afterDollar (blanks k ++ registerText i)) = some (i : Int) :=
  (standsIn_blanks (writes_registerText i) k).stoi_register

/-- An immediate operand is converted. -/
theorem stoi_immediateText (k : Nat) (imm : Word) :
    stoi (blanks k ++ immediateText imm) = some imm.toInt :=
  (standsIn_blanks (writes_immediateText imm) k).stoi_immediate

/-- A register is an operand, behind any number of blanks. -/
theorem isOperand_registerText (k : Nat) (i : Fin 32) : IsOperand (blanks k ++ registerText i) :=
  (standsIn_blanks (writes_registerText i) k).isOperand

/-- An immediate is an operand, behind any number of blanks. -/
theorem isOperand_immediateText (k : Nat) (imm : Word) : IsOperand (blanks k ++ immediateText imm) :=
  (standsIn_blanks (writes_immediateText imm) k).isOperand

/-- The operands of a line with two of them. -/
theorem solveOperands_twoOperands (op : List Byte) {k₀ k₁ : Nat} {x y : List Byte}
    (hx : IsOperand (blanks k₀ ++ x)) (hy : IsOperand (blanks k₁ ++ y)) (obj : VmClass) :
    solveOperands op (ofText (blanks k₀ ++ twoOperands k₁ x y)) obj
      = (stoi (afterDollar (blanks k₀ ++ x))).bind fun destReg =>
        execute op destReg (blanks k₁ ++ y) [] obj := by
  rw [twoOperands, ← List.append_assoc]
  exact solveOperands_two hx hy op obj

/-- The operands of a line with three of them. -/
theorem solveOperands_threeOperands (op : List Byte) {k₀ k₁ k₂ : Nat} {x y z : List Byte}
    (hx : IsOperand (blanks k₀ ++ x)) (hy : IsOperand (blanks k₁ ++ y))
    (hz : IsOperand (blanks k₂ ++ z)) (obj : VmClass) :
    solveOperands op (ofText (blanks k₀ ++ twoOperands k₁ x (twoOperands k₂ y z))) obj
      = (stoi (afterDollar (blanks k₀ ++ x))).bind fun destReg =>
        execute op destReg (blanks k₁ ++ y) (blanks k₂ ++ z) obj := by
  rw [twoOperands, twoOperands, ← List.append_assoc, ← List.append_assoc (blanks k₁)]
  exact solveOperands_three hx hy hz op obj

/-- The lines with three registers. -/
theorem solve_threeRegisters {op : List Byte} (hspace : space ∉ op) (hop : op ≠ dumpProcessorState)
    {f : Int → Int → Int → VmClass → Option VmClass} {obj : VmClass}
    (hf : ∀ destReg srcReg1 srcReg2, execute op destReg srcReg1 srcReg2 obj
      = (stoi (afterDollar srcReg1)).bind fun rs =>
        (stoi (afterDollar srcReg2)).bind fun rt => f destReg rs rt obj)
    (k₀ k₁ k₂ : Nat) (rd rs rt : Fin 32) :
    solve (op ++ space :: (blanks k₀ ++ twoOperands k₁ (registerText rd)
        (twoOperands k₂ (registerText rs) (registerText rt)))) obj = f rd rs rt obj := by
  rw [solve_op hspace hop, solveOperands_threeOperands op (isOperand_registerText ..)
    (isOperand_registerText ..) (isOperand_registerText ..), stoi_registerText, Option.bind_some, hf,
    stoi_registerText, Option.bind_some, stoi_registerText, Option.bind_some]

/-- **What the legacy interpreter does with a line**: the written instruction, however many blanks there
are. -/
theorem solve_line (inst : SharedInstruction) (k₀ k₁ k₂ : Nat) (obj : VmClass) :
    solve (inst.line k₀ k₁ k₂) obj = inst.run obj := by
  cases inst with
  | li rd imm =>
      refine (solve_op (by decide) (by decide) _ _).trans ?_
      rw [solveOperands_twoOperands _ (isOperand_registerText ..) (isOperand_immediateText ..),
        stoi_registerText, Option.bind_some]
      show (stoi (blanks k₁ ++ immediateText imm)).bind _ = _
      rw [stoi_immediateText]
      rfl
  | add rd rs rt =>
      exact @solve_threeRegisters (bytes ['a', 'd', 'd']) (by decide) (by decide) VmClass.add obj
        (fun _ _ _ => rfl) k₀ k₁ k₂ rd rs rt
  | addi rd rs imm =>
      refine (solve_op (by decide) (by decide) _ _).trans ?_
      rw [solveOperands_threeOperands _ (isOperand_registerText ..) (isOperand_registerText ..)
        (isOperand_immediateText ..), stoi_registerText, Option.bind_some]
      show (stoi (afterDollar (blanks k₁ ++ registerText rs))).bind (fun rs =>
        (stoi (blanks k₂ ++ immediateText imm)).bind fun imm => obj.addi rd rs imm) = _
      rw [stoi_registerText, Option.bind_some, stoi_immediateText]
      rfl
  | sub rd rs rt =>
      exact @solve_threeRegisters (bytes ['s', 'u', 'b']) (by decide) (by decide) VmClass.sub obj
        (fun _ _ _ => rfl) k₀ k₁ k₂ rd rs rt
  | mul rd rs rt =>
      exact @solve_threeRegisters (bytes ['m', 'u', 'l']) (by decide) (by decide) VmClass.mul obj
        (fun _ _ _ => rfl) k₀ k₁ k₂ rd rs rt
  | div rs rt =>
      refine (solve_op (by decide) (by decide) _ _).trans ?_
      rw [solveOperands_twoOperands _ (isOperand_registerText ..) (isOperand_registerText ..),
        stoi_registerText, Option.bind_some]
      show (stoi (afterDollar (blanks k₁ ++ registerText rt))).bind (fun rt => obj.divi rs rt) = _
      rw [stoi_registerText]
      rfl

end VmmShowcase
