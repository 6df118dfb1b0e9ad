import Mathlib.Algebra.Order.Ring.Int
import Mathlib.Data.Nat.Notation

/-! # Words as integers of a signed range

The integers from `-bound` up to `bound`, as two's complement has them. An operation on words computes
that of the integers wherever the exact result is in the range. A signed word is shifted to the right
as an unsigned one where no copies of a sign are shifted in. -/

namespace VmmShowcase

namespace SignedRange

/-- An integer is at least `-bound` and below `bound`. -/
def InRange (bound z : Int) : Prop := -bound ≤ z ∧ z < bound

instance (bound z : Int) : Decidable (InRange bound z) := inferInstanceAs (Decidable (_ ∧ _))

section Words

variable {w : Nat}

/-- An integer in the range is its own residue. -/
theorem bmod_of_inRange {z : Int} (h : InRange (2 ^ w) z) : z.bmod (2 ^ (w + 1)) = z := by
  obtain ⟨hle, hlt⟩ := h
  have hpow : ((2 ^ (w + 1) : Nat) : Int) = 2 * 2 ^ w := by
    rw [Nat.pow_succ, Nat.mul_comm]
    push_cast
    rfl
  exact Int.bmod_eq_of_le_mul_two (by omega) (by omega)

variable {x y : BitVec (w + 1)}

/-- A sum in the range is exact. -/
theorem toInt_add_of_inRange (h : InRange (2 ^ w) (x.toInt + y.toInt)) :
    (x + y).toInt = x.toInt + y.toInt := by
  rw [BitVec.toInt_add, bmod_of_inRange h]

/-- So is a difference. -/
theorem toInt_sub_of_inRange (h : InRange (2 ^ w) (x.toInt - y.toInt)) :
    (x - y).toInt = x.toInt - y.toInt := by
  rw [BitVec.toInt_sub, bmod_of_inRange h]

/-- So is a product. -/
theorem toInt_mul_of_inRange (h : InRange (2 ^ w) (x.toInt * y.toInt)) :
    (x * y).toInt = x.toInt * y.toInt := by
  rw [BitVec.toInt_mul, bmod_of_inRange h]

end Words

/-! ## Shifts -/

/-- Shifting in copies of the sign is shifting in zeros where there is no sign, or nothing is shifted
in. -/
theorem sshiftRight_eq_ushiftRight_iff {w : Nat} (x : BitVec w) (n : Nat) :
    x.sshiftRight n = x >>> n ↔ n = 0 ∨ 0 ≤ x.toInt := by
  constructor
  · intro h
    by_contra hneg
    rw [not_or, not_le] at hneg
    have hmsb : x.msb = true := by
      rw [BitVec.msb_eq_toInt, decide_eq_true hneg.2]
    -- the most significant bit of one is the sign, that of the other is zero
    have heq := congrArg BitVec.msb h
    rw [BitVec.msb_sshiftRight, BitVec.msb_ushiftRight, hmsb,
      decide_eq_true (Nat.pos_of_ne_zero hneg.1)] at heq
    cases heq
  · rintro (rfl | hnonneg)
    · simp
    · have hmsb : x.msb = false := by
        rw [BitVec.msb_eq_toInt, decide_eq_false (Int.not_lt.mpr hnonneg)]
      exact BitVec.sshiftRight_eq_of_msb_false hmsb

end SignedRange

end VmmShowcase
