import Mathlib.Data.Nat.Notation
import Mathlib.Data.List.Basic
import Mathlib.Tactic.Ring

/-! # Little-endian numerals

The value of a byte list read with its least significant byte first, and the `n`-byte numeral of
a number. What was stored as a numeral is loaded back, up to the width. -/

namespace VmmShowcase

/-- A byte of memory. -/
abbrev Byte := BitVec 8

namespace LittleEndian

/-- The value of a little-endian numeral. -/
def value : List Byte → Nat
  | [] => 0
  | b :: bs => b.toNat + 256 * value bs

/-- The `n` low bytes of `x`, least significant first. -/
def numeral : Nat → Nat → List Byte
  | 0, _ => []
  | n + 1, x => BitVec.ofNat 8 x :: numeral n (x / 256)

@[simp] theorem length_numeral (n x : Nat) : (numeral n x).length = n := by
  induction n generalizing x with
  | zero => rfl
  | succ n ih => rw [numeral, List.length_cons, ih]

/-- The numeral of a number has that number, modulo the width, as its value. -/
theorem value_numeral (n x : Nat) : value (numeral n x) = x % 256 ^ n := by
  induction n generalizing x with
  | zero => rw [numeral, value, Nat.pow_zero, Nat.mod_one]
  | succ n ih =>
      rw [numeral, value, ih, Nat.pow_succ, Nat.mul_comm (256 ^ n) 256, Nat.mod_mul,
        BitVec.toNat_ofNat]

/-- The `n` bytes a bit vector is stored as. -/
def ofBitVec {w : Nat} (n : Nat) (x : BitVec w) : List Byte := numeral n x.toNat

/-- The bit vector stored as a byte list. -/
def toBitVec (w : Nat) (bs : List Byte) : BitVec w := BitVec.ofNat w (value bs)

@[simp] theorem length_ofBitVec {w : Nat} (n : Nat) (x : BitVec w) : (ofBitVec n x).length = n :=
  length_numeral n x.toNat

/-- Loading a stored bit vector gives it back. -/
theorem toBitVec_ofBitVec {w n : Nat} (hw : 2 ^ w = 256 ^ n) (x : BitVec w) :
    toBitVec w (ofBitVec n x) = x := by
  apply BitVec.eq_of_toNat_eq
  have hx : x.toNat < 2 ^ w := x.isLt
  rw [toBitVec, ofBitVec, BitVec.toNat_ofNat, value_numeral, ← hw, Nat.mod_mod,
    Nat.mod_eq_of_lt hx]

/-- The value of a numeral fits its width. -/
theorem value_lt (bs : List Byte) : value bs < 256 ^ bs.length := by
  induction bs with
  | nil => exact Nat.one_pos
  | cons b bs ih =>
      have hb : b.toNat < 256 := b.isLt
      rw [value, List.length_cons, Nat.pow_succ]
      omega

/-- The numeral of a value is what it was the value of. -/
theorem numeral_value (bs : List Byte) : numeral bs.length (value bs) = bs := by
  induction bs with
  | nil => rfl
  | cons b bs ih =>
      have hb : b.toNat < 256 := b.isLt
      have hlow : BitVec.ofNat 8 (b.toNat + 256 * value bs) = b := by
        apply BitVec.eq_of_toNat_eq
        rw [BitVec.toNat_ofNat]
        omega
      have hhigh : (b.toNat + 256 * value bs) / 256 = value bs := by omega
      rw [List.length_cons, value, numeral, hlow, hhigh, ih]

/-- Storing a loaded bit vector gives its bytes back. -/
theorem ofBitVec_toBitVec {w n : Nat} (hw : 2 ^ w = 256 ^ n) {bs : List Byte}
    (hn : bs.length = n) : ofBitVec n (toBitVec w bs) = bs := by
  subst hn
  rw [ofBitVec, toBitVec, BitVec.toNat_ofNat, hw, Nat.mod_eq_of_lt (value_lt bs), numeral_value]

end LittleEndian

end VmmShowcase
