import Mathlib.Data.Nat.Notation
import VmmShowcase.Foundations.LittleEndian

/-! # Xor-multiply checksums

The checksum that folds a byte string by `h ↦ (h ^^^ b) * prime` over `w`-bit words. An invertible
`prime` makes every step a bijection of the state, so two strings that differ before a common
suffix keep different checksums. If moreover the multiples `d * prime` of the small numbers
`0 < d < 256` stay away from zero modulo the width, one byte cannot undo what a change of the byte
before it did, and any change inside two adjacent bytes shows. -/

namespace VmmShowcase

namespace XorMulHash

variable {w : Nat} (prime : BitVec w)

/-- Absorb one byte. -/
def absorb (h : BitVec w) (b : Byte) : BitVec w := (h ^^^ b.setWidth w) * prime

/-- Absorb a byte string, starting from state `h`. -/
def hash (h : BitVec w) (bs : List Byte) : BitVec w := bs.foldl (absorb prime) h

/-- The nonzero multiples of `prime` by a byte value stay a byte value away from zero. -/
def Spreads : Prop :=
  ∀ d, 0 < d → d < 256 → 256 ≤ d * prime.toNat % 2 ^ w ∧ d * prime.toNat % 2 ^ w + 256 ≤ 2 ^ w

@[simp] theorem hash_cons (h : BitVec w) (b : Byte) (bs : List Byte) :
    hash prime h (b :: bs) = hash prime (absorb prime h b) bs := rfl

variable {prime}

/-- Multiplication by an invertible word is injective. -/
theorem mul_prime_injective {inverse : BitVec w} (hinv : prime * inverse = 1#w) {x y : BitVec w}
    (h : x * prime = y * prime) : x = y := by
  calc x = x * prime * inverse := by rw [BitVec.mul_assoc, hinv, BitVec.mul_one]
    _ = y * prime * inverse := by rw [h]
    _ = y := by rw [BitVec.mul_assoc, hinv, BitVec.mul_one]

/-- Absorbing a byte is injective in the state. -/
theorem absorb_injective {inverse : BitVec w} (hinv : prime * inverse = 1#w) {h h' : BitVec w}
    {b : Byte} (heq : absorb prime h b = absorb prime h' b) : h = h' :=
  (BitVec.xor_left_inj _).mp (mul_prime_injective hinv heq)

/-- **Suffix rule.** Different states stay different under a common suffix. -/
theorem hash_injective {inverse : BitVec w} (hinv : prime * inverse = 1#w) {h h' : BitVec w}
    (bs : List Byte) (heq : hash prime h bs = hash prime h' bs) : h = h' := by
  induction bs generalizing h h' with
  | nil => exact heq
  | cons b bs ih => exact absorb_injective hinv (ih heq)

/-- Absorbing a byte is injective in the byte, when bytes fit the word. -/
theorem absorb_byte_injective {inverse : BitVec w} (hinv : prime * inverse = 1#w) (hw : 8 ≤ w)
    {h : BitVec w} {a b : Byte} (heq : absorb prime h a = absorb prime h b) : a = b := by
  have hset := (BitVec.xor_right_inj _).mp (mul_prime_injective hinv heq)
  apply BitVec.eq_of_toNat_eq
  have hpow : 2 ^ 8 ≤ 2 ^ w := Nat.pow_le_pow_right (by omega) hw
  have ha : a.toNat < 2 ^ w := by have := a.isLt; omega
  have hb : b.toNat < 2 ^ w := by have := b.isLt; omega
  have hnat := congrArg BitVec.toNat hset
  rwa [BitVec.toNat_setWidth, BitVec.toNat_setWidth, Nat.mod_eq_of_lt ha,
    Nat.mod_eq_of_lt hb] at hnat

/-- Xor with a byte only touches the low byte of a word. -/
theorem toNat_xor_byte_div (h : BitVec w) (b : Byte) :
    (h ^^^ b.setWidth w).toNat / 256 = h.toNat / 256 := by
  have hb : b.toNat % 2 ^ w / 2 ^ 8 = 0 := by
    have := b.isLt
    have := Nat.mod_le b.toNat (2 ^ w)
    exact Nat.div_eq_of_lt (by omega)
  rw [show 256 = 2 ^ 8 from rfl, BitVec.toNat_xor, BitVec.toNat_setWidth, Nat.xor_div_two_pow, hb,
    Nat.xor_zero]

/-- Two words that differ only in the low byte have products that differ above the low byte. -/
theorem mul_prime_div_ne (hs : Spreads prime) {x y : BitVec w} (hdiv : x.toNat / 256 = y.toNat / 256)
    (hlt : y.toNat < x.toNat) : (x * prime).toNat / 256 ≠ (y * prime).toNat / 256 := by
  intro heq
  obtain ⟨d, hd⟩ := Nat.exists_eq_add_of_lt hlt
  obtain ⟨hlow, hhigh⟩ := hs (d + 1) (by omega) (by omega)
  have hmul : (x * prime).toNat
      = ((y * prime).toNat + (d + 1) * prime.toNat % 2 ^ w) % 2 ^ w := by
    rw [BitVec.toNat_mul, BitVec.toNat_mul, ← Nat.add_mod, hd, ← Nat.add_mul]
    congr 2
  have hy : (y * prime).toNat < 2 ^ w := (y * prime).isLt
  -- the product moved by between `256` and `2 ^ w - 256`, wrapped round at most once
  rcases Nat.lt_or_ge ((y * prime).toNat + (d + 1) * prime.toNat % 2 ^ w) (2 ^ w) with hwrap | hwrap
  · rw [Nat.mod_eq_of_lt hwrap] at hmul
    omega
  · rw [Nat.mod_eq_sub_mod hwrap, Nat.mod_eq_of_lt (by omega)] at hmul
    omega

/-- **Window rule.** From one state, two different pairs of bytes lead to different states. -/
theorem absorb_pair_injective {inverse : BitVec w} (hinv : prime * inverse = 1#w)
    (hs : Spreads prime) (hw : 8 ≤ w) {h : BitVec w} {a b a' b' : Byte}
    (heq : absorb prime (absorb prime h a) b = absorb prime (absorb prime h a') b') :
    a = a' ∧ b = b' := by
  have hxor : absorb prime h a ^^^ b.setWidth w = absorb prime h a' ^^^ b'.setWidth w :=
    mul_prime_injective hinv heq
  -- the last byte only touched the low byte, so above it the two states agreed before
  have hhigh : (absorb prime h a).toNat / 256 = (absorb prime h a').toNat / 256 := by
    rw [← toNat_xor_byte_div _ b, hxor, toNat_xor_byte_div]
  have hlow : (h ^^^ a.setWidth w).toNat / 256 = (h ^^^ a'.setWidth w).toNat / 256 := by
    rw [toNat_xor_byte_div, toNat_xor_byte_div]
  rcases Nat.lt_trichotomy (h ^^^ a.setWidth w).toNat (h ^^^ a'.setWidth w).toNat with
    hlt | hsame | hgt
  · exact absurd hhigh.symm (mul_prime_div_ne hs hlow.symm hlt)
  · have hab : absorb prime h a = absorb prime h a' := by
      rw [absorb, absorb, BitVec.eq_of_toNat_eq hsame]
    obtain rfl : a = a' := absorb_byte_injective hinv hw hab
    exact ⟨rfl, absorb_byte_injective hinv hw heq⟩
  · exact absurd hhigh (mul_prime_div_ne hs hlow hgt)

/-- Two different byte strings of one length that agree outside positions `i` and `i + 1`. -/
structure DiffersInWindow (p q : List Byte) (i : Nat) : Prop where
  length_eq : p.length = q.length
  ne : p ≠ q
  eq_outside : ∀ j, j ≠ i → j ≠ i + 1 → p[j]? = q[j]?

/-- Behind a common first byte the window is one position further left. -/
theorem DiffersInWindow.tail {a b : Byte} {p q : List Byte} {i : Nat}
    (h : DiffersInWindow (a :: p) (b :: q) (i + 1)) : a = b ∧ DiffersInWindow p q i := by
  have hhead := h.eq_outside 0 (by omega) (by omega)
  simp only [List.getElem?_cons_zero, Option.some.injEq] at hhead
  refine ⟨hhead, Nat.succ.inj h.length_eq, ?_, ?_⟩
  · intro heq
    exact h.ne (by rw [hhead, heq])
  · intro j hj hj'
    have houtside := h.eq_outside (j + 1) (by omega) (by omega)
    rwa [List.getElem?_cons_succ, List.getElem?_cons_succ] at houtside

/-- **Burst rule.** Two byte strings that differ inside a window of two bytes have different
checksums. -/
theorem hash_ne_of_differsInWindow {inverse : BitVec w} (hinv : prime * inverse = 1#w)
    (hs : Spreads prime) (hw : 8 ≤ w) {h : BitVec w} {p q : List Byte} {i : Nat}
    (hpq : DiffersInWindow p q i) : hash prime h p ≠ hash prime h q := by
  -- by induction on the position of the window; the common prefix brings both to one state
  induction i generalizing h p q with
  | zero =>
      intro heq
      match p, q, hpq with
      | [], [], hpq => exact hpq.ne rfl
      | [], _ :: _, hpq => exact absurd hpq.length_eq (by simp)
      | _ :: _, [], hpq => exact absurd hpq.length_eq (by simp)
      | [a], [a'], hpq =>
          obtain rfl := absorb_byte_injective hinv hw heq
          exact hpq.ne rfl
      | [_], _ :: _ :: _, hpq => exact absurd hpq.length_eq (by simp)
      | _ :: _ :: _, [_], hpq => exact absurd hpq.length_eq (by simp)
      | a :: b :: r, a' :: b' :: r', hpq =>
          -- the window is the first two bytes, and the rest is a common suffix
          have hr : r = r' := by
            apply List.ext_getElem?
            intro j
            exact hpq.eq_outside (j + 2) (by omega) (by omega)
          subst hr
          simp only [hash_cons] at heq
          obtain ⟨rfl, rfl⟩ := absorb_pair_injective hinv hs hw (hash_injective hinv r heq)
          exact hpq.ne rfl
  | succ i ih =>
      match p, q, hpq with
      | [], [], hpq => exact absurd rfl hpq.ne
      | [], _ :: _, hpq => exact absurd hpq.length_eq (by simp)
      | _ :: _, [], hpq => exact absurd hpq.length_eq (by simp)
      | a :: p, b :: q, hpq =>
          obtain ⟨rfl, htail⟩ := hpq.tail
          rw [hash_cons, hash_cons]
          exact ih htail

end XorMulHash

end VmmShowcase
