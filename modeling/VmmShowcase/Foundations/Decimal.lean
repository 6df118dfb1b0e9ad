import Mathlib.Data.List.Basic
import Mathlib.Data.Nat.Notation
import VmmShowcase.Foundations.LittleEndian

/-! # Decimal numbers in byte texts

Texts are byte lists. A number is printed without leading zeros, a negative one behind a minus sign.
It is scanned as the C and C++ libraries do: an optional sign, then the longest run of digits, with
whatever comes next left in the text. A printed number is scanned as itself before any text that does
not go on with a digit. -/

namespace VmmShowcase

namespace Text

/-- The byte of an ASCII character. -/
def ascii (c : Char) : Byte := BitVec.ofNat 8 c.toNat

/-- The character of a byte. -/
def char (b : Byte) : Char := Char.ofNat b.toNat

/-- The bytes of an ASCII text. -/
def bytes (s : List Char) : List Byte := s.map ascii

/-- A decimal digit. -/
def IsDigit (b : Byte) : Prop := (char b).isDigit = true

instance : DecidablePred IsDigit := fun b => inferInstanceAs (Decidable ((char b).isDigit = true))

/-- The value of a run of digits. -/
def digitsValue (digits : List Byte) : Nat := Nat.ofDigitChars 10 (digits.map char) 0

/-- A natural number in decimal. -/
def decimal (n : Nat) : List Byte := (Nat.toDigits 10 n).map ascii

/-- An integer in decimal. -/
def signedDecimal (z : Int) : List Byte :=
  if z < 0 then ascii '-' :: decimal z.natAbs else decimal z.natAbs

/-- A number at the front of a text: whether it has a minus sign, its digits, and what follows. -/
structure NumberField where
  negative : Bool
  digits : List Byte
  rest : List Byte
  deriving DecidableEq

namespace NumberField

/-- The number that is written. -/
def value (field : NumberField) : Int :=
  if field.negative then -(digitsValue field.digits : Int) else digitsValue field.digits

/-- The field of a text behind its sign. -/
def unsigned (negative : Bool) (text : List Byte) : NumberField where
  negative := negative
  digits := text.takeWhile (IsDigit ·)
  rest := text.dropWhile (IsDigit ·)

/-- The number at the front of a text. -/
def scan : List Byte → NumberField
  | [] => unsigned false []
  | b :: text =>
      if b = ascii '-' then unsigned true text
      else if b = ascii '+' then unsigned false text
      else unsigned false (b :: text)

end NumberField

/-! ## Digits -/

/-- The byte of a digit character is a digit, and its character is that digit. -/
theorem char_ascii_of_isDigit {c : Char} (h : c.isDigit = true) : char (ascii c) = c := by
  have hlt : c.toNat < 256 := by
    simp only [Char.isDigit, Bool.and_eq_true, decide_eq_true_eq] at h
    have hle : c.val.toNat ≤ '9'.val.toNat := UInt32.le_iff_toNat_le.mp h.2
    exact Nat.lt_of_le_of_lt hle (by decide)
  rw [char, ascii, BitVec.toNat_ofNat, Nat.mod_eq_of_lt hlt, Char.ofNat_toNat]

/-- The characters of a number in decimal are its digits. -/
theorem map_char_decimal (n : Nat) : (decimal n).map char = Nat.toDigits 10 n := by
  rw [decimal, List.map_map]
  refine (List.map_congr_left fun c hc => ?_).trans (List.map_id _)
  exact char_ascii_of_isDigit (Nat.isDigit_of_mem_toDigits (by omega) (by omega) hc)

/-- A number in decimal is made of digits. -/
theorem isDigit_of_mem_decimal {n : Nat} {b : Byte} (h : b ∈ decimal n) : IsDigit b := by
  have hmem : char b ∈ Nat.toDigits 10 n := by
    rw [← map_char_decimal]
    exact List.mem_map_of_mem h
  exact Nat.isDigit_of_mem_toDigits (by omega) (by omega) hmem

/-- A number in decimal has a digit. -/
theorem decimal_ne_nil (n : Nat) : decimal n ≠ [] := by
  rw [decimal, ne_eq, List.map_eq_nil_iff]
  exact Nat.toDigits_ne_nil

/-- **The value of a number in decimal is that number.** -/
@[simp] theorem digitsValue_decimal (n : Nat) : digitsValue (decimal n) = n := by
  rw [digitsValue, map_char_decimal, Nat.ofDigitChars_ten_toDigits]

/-- A sign is not a digit. -/
theorem ne_ascii_of_isDigit {b : Byte} (h : IsDigit b) {c : Char} (hc : ¬ IsDigit (ascii c)) :
    b ≠ ascii c := by
  rintro rfl
  exact hc h

/-! ## Scanning -/

/-- The text does not go on with a digit. -/
def Undigited (text : List Byte) : Prop := ∀ b ∈ text.head?, ¬ IsDigit b

/-- A number ends with the text. -/
theorem undigited_nil : Undigited [] := fun b hb => (Option.not_mem_none b hb).elim

/-- Digits are taken up to a text that does not go on with one. -/
theorem unsigned_append {digits text : List Byte} (hdigits : ∀ b ∈ digits, IsDigit b)
    (htext : Undigited text) (negative : Bool) :
    NumberField.unsigned negative (digits ++ text) = ⟨negative, digits, text⟩ := by
  have htake : text.takeWhile (IsDigit ·) = [] := by
    cases text with
    | nil => rfl
    | cons b text => exact List.takeWhile_cons_of_neg (by simpa using htext b rfl)
  have hdrop : text.dropWhile (IsDigit ·) = text := by
    cases text with
    | nil => rfl
    | cons b text => exact List.dropWhile_cons_of_neg (by simpa using htext b rfl)
  have hall : ∀ b ∈ digits, decide (IsDigit b) = true := fun b hb => decide_eq_true (hdigits b hb)
  rw [NumberField.unsigned, List.takeWhile_append_of_pos hall, List.dropWhile_append_of_pos hall,
    htake, hdrop, List.append_nil]

/-- A number without sign is scanned. -/
theorem scan_digits {digits text : List Byte} (hne : digits ≠ [])
    (hdigits : ∀ b ∈ digits, IsDigit b) (htext : Undigited text) :
    NumberField.scan (digits ++ text) = ⟨false, digits, text⟩ := by
  obtain ⟨b, rest, rfl⟩ := List.exists_cons_of_ne_nil hne
  have hb : IsDigit b := hdigits b (List.mem_cons_self ..)
  rw [List.cons_append, NumberField.scan, if_neg (ne_ascii_of_isDigit hb (by decide)),
    if_neg (ne_ascii_of_isDigit hb (by decide)), ← List.cons_append]
  exact unsigned_append hdigits htext false

/-- A number behind a minus sign is scanned. -/
theorem scan_minus {digits text : List Byte} (hdigits : ∀ b ∈ digits, IsDigit b)
    (htext : Undigited text) :
    NumberField.scan (ascii '-' :: (digits ++ text)) = ⟨true, digits, text⟩ := by
  rw [NumberField.scan, if_pos rfl]
  exact unsigned_append hdigits htext true

/-- A natural number is printed without a sign. -/
theorem signedDecimal_natCast (n : Nat) : signedDecimal n = decimal n := by
  rw [signedDecimal, if_neg (by omega), Int.natAbs_natCast]

/-- Something is printed for every integer. -/
theorem signedDecimal_ne_nil (z : Int) : signedDecimal z ≠ [] := by
  rw [signedDecimal]
  split
  · exact List.cons_ne_nil _ _
  · exact decimal_ne_nil _

/-- Only the sign of a printed integer is not a digit. -/
theorem isDigit_of_mem_signedDecimal {z : Int} {b : Byte} (h : b ∈ signedDecimal z)
    (hminus : b ≠ ascii '-') : IsDigit b := by
  rw [signedDecimal] at h
  split at h
  · exact (List.mem_cons.mp h).elim (absurd · hminus) isDigit_of_mem_decimal
  · exact isDigit_of_mem_decimal h

/-- A printed natural number contains nothing but digits. -/
theorem notMem_decimal {b : Byte} (hdigit : ¬ IsDigit b) (n : Nat) : b ∉ decimal n := fun hb =>
  hdigit (isDigit_of_mem_decimal hb)

/-- A printed integer contains nothing but digits and a minus sign. -/
theorem notMem_signedDecimal {b : Byte} (hdigit : ¬ IsDigit b) (hminus : b ≠ ascii '-') (z : Int) :
    b ∉ signedDecimal z := fun hb => hdigit (isDigit_of_mem_signedDecimal hb hminus)

/-- **A printed integer is scanned as itself.** -/
theorem scan_signedDecimal (z : Int) {text : List Byte} (htext : Undigited text) :
    NumberField.scan (signedDecimal z ++ text) = ⟨decide (z < 0), decimal z.natAbs, text⟩ := by
  have hdigits : ∀ b ∈ decimal z.natAbs, IsDigit b := fun b => isDigit_of_mem_decimal
  rw [signedDecimal]
  by_cases hz : z < 0
  · rw [if_pos hz, decide_eq_true hz]
    exact scan_minus hdigits htext
  · rw [if_neg hz, decide_eq_false hz]
    exact scan_digits (decimal_ne_nil _) hdigits htext

/-- The value of a printed integer's field. -/
theorem value_signedDecimal (z : Int) (rest : List Byte) :
    NumberField.value ⟨decide (z < 0), decimal z.natAbs, rest⟩ = z := by
  rw [NumberField.value, digitsValue_decimal]
  by_cases hz : z < 0
  · rw [if_pos (by simpa using hz)]
    omega
  · rw [if_neg (by simpa using hz)]
    omega

end Text

end VmmShowcase
