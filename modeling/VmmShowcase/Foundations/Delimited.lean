import Mathlib.Data.List.TakeWhile
import VmmShowcase.Foundations.Decimal

/-! # Delimited texts

A run of a text up to a delimiter, and what follows it; a zero-terminated string is the run up to its
first zero byte. -/

namespace VmmShowcase

namespace Text

/-- The zero-terminated string in an array. Where the array has no zero byte it is read past the end,
which has no meaning. -/
def zeroTerminated (array : List Byte) : Option (List Byte) :=
  if array.contains 0 then some (array.takeWhile (· ≠ 0)) else none

/-- The text behind the first `mark`, and the whole text if there is none: `find` gives `npos`, and
`npos + 1` is 0. -/
def afterMark (mark : Byte) (text : List Byte) : List Byte :=
  if text.contains mark then (text.dropWhile (· ≠ mark)).tail else text

/-! ## Runs without a mark -/

variable {mark : Byte} {run : List Byte}

/-- A run is not taken beyond its mark. -/
theorem notMem_takeWhile (mark : Byte) (text : List Byte) : mark ∉ text.takeWhile (· ≠ mark) :=
  fun h => by simpa using List.mem_takeWhile_imp h

/-- A run without the mark is taken whole. -/
theorem takeWhile_append_of_notMem (h : mark ∉ run) (text : List Byte) :
    (run ++ text).takeWhile (· ≠ mark) = run ++ text.takeWhile (· ≠ mark) :=
  List.takeWhile_append_of_pos fun _ hb => decide_eq_true fun heq => h (heq ▸ hb)

/-- A run without the mark is dropped whole. -/
theorem dropWhile_append_of_notMem (h : mark ∉ run) (text : List Byte) :
    (run ++ text).dropWhile (· ≠ mark) = text.dropWhile (· ≠ mark) :=
  List.dropWhile_append_of_pos fun _ hb => decide_eq_true fun heq => h (heq ▸ hb)

/-- A run ends at its mark. -/
theorem takeWhile_append_mark (h : mark ∉ run) (text : List Byte) :
    (run ++ mark :: text).takeWhile (· ≠ mark) = run := by
  rw [takeWhile_append_of_notMem h, List.takeWhile_cons_of_neg (by simp), List.append_nil]

/-- What follows a run begins with its mark. -/
theorem dropWhile_append_mark (h : mark ∉ run) (text : List Byte) :
    (run ++ mark :: text).dropWhile (· ≠ mark) = mark :: text := by
  rw [dropWhile_append_of_notMem h, List.dropWhile_cons_of_neg (by simp)]

/-- Behind a run without the mark, the text is what follows the mark. -/
theorem afterMark_append (h : mark ∉ run) (text : List Byte) :
    afterMark mark (run ++ mark :: text) = text := by
  rw [afterMark, if_pos (by simp), dropWhile_append_mark h, List.tail_cons]

/-! ## Zero-terminated strings -/

/-- A zero-terminated string contains no zero byte. -/
theorem notMem_of_zeroTerminated {array text : List Byte} (h : zeroTerminated array = some text) :
    0 ∉ text := by
  rw [zeroTerminated, Option.ite_none_right_eq_some] at h
  rw [← Option.some.inj h.2]
  exact notMem_takeWhile 0 array

/-- An array with a zero byte contains a string. -/
theorem exists_zeroTerminated {array : List Byte} (h : 0 ∈ array) :
    ∃ text, zeroTerminated array = some text :=
  ⟨_, if_pos (List.contains_iff_mem.mpr h)⟩

/-- An array without a zero byte contains no string. -/
theorem zeroTerminated_of_notMem {array : List Byte} (h : 0 ∉ array) : zeroTerminated array = none :=
  if_neg fun hmem => h (List.contains_iff_mem.mp hmem)

/-- **A text without a zero byte** is the front of the string that it makes with the bytes behind it. -/
theorem zeroTerminated_append {text : List Byte} (h : 0 ∉ text) (array : List Byte) :
    zeroTerminated (text ++ array) = (zeroTerminated array).map (text ++ ·) := by
  by_cases harray : 0 ∈ array
  · have hmem : 0 ∈ text ++ array := List.mem_append_right text harray
    rw [zeroTerminated, if_pos (List.contains_iff_mem.mpr hmem), takeWhile_append_of_notMem h,
      zeroTerminated, if_pos (List.contains_iff_mem.mpr harray)]
    rfl
  · have hmem : 0 ∉ text ++ array := by
      rw [List.mem_append, not_or]
      exact ⟨h, harray⟩
    rw [zeroTerminated_of_notMem hmem, zeroTerminated_of_notMem harray]
    rfl

end Text

end VmmShowcase
