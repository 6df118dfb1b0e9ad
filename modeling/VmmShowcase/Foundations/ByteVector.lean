import Mathlib.Data.List.TakeDrop
import Mathlib.Data.Nat.Notation

/-! # Vectors addressed by offset

Copying a run of elements out of and into a vector, with the length and the elements of the
result. -/

namespace VmmShowcase

namespace ByteVector

variable {α : Type*}

/-- The `n` elements of a vector from `offset` on. -/
def slice (v : List α) (offset n : Nat) : List α := (v.drop offset).take n

/-- A vector with the elements from `offset` on replaced by those of `src`. -/
def overwrite (v : List α) (offset : Nat) (src : List α) : List α :=
  v.take offset ++ src ++ v.drop (offset + src.length)

/-- Overwriting inside the vector keeps its length. -/
theorem length_overwrite {v src : List α} {offset : Nat} (h : offset + src.length ≤ v.length) :
    (overwrite v offset src).length = v.length := by
  rw [overwrite, List.length_append, List.length_append, List.length_take, List.length_drop]
  omega

/-- The slice between a prefix and a suffix is what stands there. -/
theorem slice_append (pre mid post : List α) :
    slice (pre ++ mid ++ post) pre.length mid.length = mid := by
  rw [slice, List.append_assoc, List.drop_left, List.take_left]

/-- Element `i` of a slice. -/
theorem getElem?_slice (v : List α) (offset n i : Nat) :
    (slice v offset n)[i]? = if i < n then v[offset + i]? else none := by
  rw [slice, List.getElem?_take, List.getElem?_drop]

/-- Element `i` of an overwritten vector. -/
theorem getElem?_overwrite {v src : List α} {offset : Nat} (h : offset + src.length ≤ v.length)
    (i : Nat) : (overwrite v offset src)[i]?
      = if offset ≤ i ∧ i < offset + src.length then src[i - offset]? else v[i]? := by
  have htake : (v.take offset).length = offset := by rw [List.length_take]; omega
  rw [overwrite, List.append_assoc]
  -- before, inside and behind the overwritten run
  rcases Nat.lt_or_ge i offset with hi | hi
  · rw [List.getElem?_append_left (by omega), if_neg (by omega), List.getElem?_take, if_pos hi]
  · rw [List.getElem?_append_right (by omega), htake]
    rcases Nat.lt_or_ge i (offset + src.length) with hi' | hi'
    · rw [List.getElem?_append_left (by omega), if_pos ⟨hi, hi'⟩]
    · rw [List.getElem?_append_right (by omega), if_neg (by omega), List.getElem?_drop]
      congr 1
      omega

/-- What was overwritten is read back. -/
theorem slice_overwrite_self {v src : List α} {offset : Nat} (h : offset + src.length ≤ v.length) :
    slice (overwrite v offset src) offset src.length = src := by
  apply List.ext_getElem?
  intro i
  rw [getElem?_slice]
  by_cases hi : i < src.length
  · rw [if_pos hi, getElem?_overwrite h, if_pos (by omega), Nat.add_sub_cancel_left]
  · rw [if_neg hi, List.getElem?_eq_none (by omega)]

/-- Overwriting leaves the slices beside it alone. -/
theorem slice_overwrite_of_disjoint {v src : List α} {offset i n : Nat}
    (h : offset + src.length ≤ v.length) (hdisjoint : i + n ≤ offset ∨ offset + src.length ≤ i) :
    slice (overwrite v offset src) i n = slice v i n := by
  apply List.ext_getElem?
  intro j
  rw [getElem?_slice, getElem?_slice]
  by_cases hj : j < n
  · rw [if_pos hj, if_pos hj, getElem?_overwrite h, if_neg (by omega)]
  · rw [if_neg hj, if_neg hj]

/-- A slice inside the vector has the length asked for. -/
theorem length_slice {v : List α} {offset n : Nat} (h : offset + n ≤ v.length) :
    (slice v offset n).length = n := by
  rw [slice, List.length_take, List.length_drop]
  omega

end ByteVector

end VmmShowcase
