import Mathlib.Data.Fin.Tuple.Basic
import VmmShowcase.Foundations.ByteVector
import VmmShowcase.Foundations.LittleEndian

/-! # Readers with a cursor

A reader advances an offset over a byte vector. It has no result when it would touch a byte outside
the vector, so a reader that has one reads inside it. Three properties compose along a sequence of
reads: `Reads` says what a reader makes of an encoding wherever it stands, `Sized` that a reader
needs a fixed number of bytes and nothing else, and `Takes` that it leaves out none of them. -/

namespace VmmShowcase

/-- A reader over a byte vector, with the offset it stands at as its state. -/
abbrev Reader := ReaderT (List Byte) (StateT Nat Option)

namespace Reader

variable {α β : Type}

/-- Read `n` bytes. -/
def bytes (n : Nat) : Reader (List Byte) := fun v offset =>
  if offset + n ≤ v.length then some (ByteVector.slice v offset n, offset + n) else none

/-- Read an `n`-byte little-endian bit vector. -/
def bitVec (w n : Nat) : Reader (BitVec w) := do return LittleEndian.toBitVec w (← bytes n)

/-- Read `n` values one after the other. -/
def array (r : Reader α) : (n : Nat) → Reader (Fin n → α)
  | 0 => return Fin.elim0
  | n + 1 => do
      let x ← r
      let xs ← array r n
      return Fin.cons x xs

/-- A sequence of two reads. -/
theorem bind_apply (r : Reader α) (f : α → Reader β) (v : List Byte) (offset : Nat) :
    (r >>= f) v offset = (r v offset).bind fun p => f p.1 v p.2 := rfl

/-! ## Reading back -/

/-- `r` reads the encoding `enc` as `x`, whatever stands before and after it. -/
def Reads (r : Reader α) (enc : List Byte) (x : α) : Prop :=
  ∀ pre post, r (pre ++ enc ++ post) pre.length = some (x, pre.length + enc.length)

/-- Reading nothing takes no bytes. -/
theorem reads_pure (x : α) : Reads (pure x) [] x := fun _ _ => rfl

/-- Two encodings one after the other are read one after the other. -/
theorem Reads.bind {r : Reader α} {f : α → Reader β} {enc enc' : List Byte} {x : α} {y : β}
    (h : Reads r enc x) (hf : Reads (f x) enc' y) : Reads (r >>= f) (enc ++ enc') y := by
  intro pre post
  -- the rest of the vector, seen from the first and from the second encoding
  have hfirst := h pre (enc' ++ post)
  have hsecond := hf (pre ++ enc) post
  have hsplit : pre ++ (enc ++ enc') ++ post = pre ++ enc ++ (enc' ++ post) := by
    simp only [List.append_assoc]
  rw [List.length_append, List.append_assoc _ enc'] at hsecond
  rw [bind_apply, hsplit, hfirst, Option.bind_some, hsecond, List.length_append, Nat.add_assoc]

/-- What is returned may be computed from what is read. -/
theorem Reads.map {r : Reader α} {enc : List Byte} {x : α} (h : Reads r enc x) (f : α → β) :
    Reads (r >>= fun x => pure (f x)) enc (f x) := by
  have hbind : Reads (r >>= fun x => pure (f x)) (enc ++ []) (f x) := h.bind (reads_pure (f x))
  rwa [List.append_nil] at hbind

/-- `bytes` reads any encoding of its length as itself. -/
theorem reads_bytes (enc : List Byte) : Reads (bytes enc.length) enc enc := by
  intro pre post
  have hfit : pre.length + enc.length ≤ (pre ++ enc ++ post).length := by
    simp only [List.length_append]
    omega
  rw [bytes, if_pos hfit, ByteVector.slice_append]

/-- `bitVec` reads back what a bit vector is stored as. -/
theorem reads_bitVec {w n : Nat} (hw : 2 ^ w = 256 ^ n) (x : BitVec w) :
    Reads (bitVec w n) (LittleEndian.ofBitVec n x) x := by
  have hbytes := (reads_bytes (LittleEndian.ofBitVec n x)).map (LittleEndian.toBitVec w)
  rwa [LittleEndian.length_ofBitVec, LittleEndian.toBitVec_ofBitVec hw] at hbytes

/-- An array is read back from the concatenated encodings of its elements. -/
theorem reads_array {r : Reader α} {enc : α → List Byte} (h : ∀ x, Reads r (enc x) x) {n : Nat}
    (xs : Fin n → α) : Reads (array r n) ((List.ofFn xs).flatMap enc) xs := by
  induction n with
  | zero =>
      rw [Subsingleton.elim xs Fin.elim0]
      exact reads_pure _
  | succ n ih =>
      rw [List.ofFn_succ, List.flatMap_cons]
      -- the rest of the array is read behind its first element
      have htail := (ih (Fin.tail xs)).map fun tail => (Fin.cons (xs 0) tail : Fin (n + 1) → α)
      rw [Fin.cons_self_tail] at htail
      exact (h (xs 0)).bind htail

/-! ## Reading inside the vector -/

/-- From any offset inside the vector, `r` needs exactly the next `n` bytes. -/
def Sized (r : Reader α) (n : Nat) : Prop :=
  ∀ v offset, offset ≤ v.length →
    (r v offset).map Prod.snd = if offset + n ≤ v.length then some (offset + n) else none

/-- A sized reader with its bytes in the vector has a value, and leaves the offset behind them. -/
theorem Sized.exists_eq {r : Reader α} {n : Nat} (h : Sized r n) {v : List Byte} {offset : Nat}
    (hfit : offset + n ≤ v.length) : ∃ x, r v offset = some (x, offset + n) := by
  have hmap := h v offset (by omega)
  rw [if_pos hfit, Option.map_eq_some_iff] at hmap
  obtain ⟨⟨x, _⟩, hr, rfl⟩ := hmap
  exact ⟨x, hr⟩

/-- A sized reader whose bytes are not all in the vector has no value. -/
theorem Sized.eq_none {r : Reader α} {n : Nat} (h : Sized r n) {v : List Byte} {offset : Nat}
    (hoffset : offset ≤ v.length) (hfit : v.length < offset + n) : r v offset = none := by
  have hmap := h v offset hoffset
  rwa [if_neg (by omega), Option.map_eq_none_iff] at hmap

/-- Reading nothing needs no bytes. -/
theorem sized_pure (x : α) : Sized (pure x : Reader α) 0 := by
  intro v offset hoffset
  rw [Nat.add_zero, if_pos hoffset]
  rfl

/-- The bytes of a sequence of reads add up. -/
theorem Sized.bind {r : Reader α} {f : α → Reader β} {m n : Nat} (h : Sized r m)
    (hf : ∀ x, Sized (f x) n) : Sized (r >>= f) (m + n) := by
  intro v offset hoffset
  rw [bind_apply]
  -- the second read is only tried where the first one fits
  rcases Nat.lt_or_ge v.length (offset + m) with hlt | hge
  · rw [h.eq_none hoffset hlt, if_neg (by omega)]
    rfl
  · obtain ⟨x, hx⟩ := h.exists_eq hge
    rw [hx, Option.bind_some, hf x v (offset + m) hge, Nat.add_assoc]

/-- `bytes n` needs `n` bytes. -/
theorem sized_bytes (n : Nat) : Sized (bytes n) n := by
  intro v offset _
  rw [bytes]
  split <;> rfl

/-- `bitVec w n` needs `n` bytes. -/
theorem sized_bitVec (w n : Nat) : Sized (bitVec w n) n :=
  (sized_bytes n).bind fun _ => sized_pure _

/-- The value `bitVec` reads is that of the bytes at its offset. -/
theorem eq_of_bitVec {w n : Nat} {v : List Byte} {offset : Nat} {x : BitVec w} {offset' : Nat}
    (h : bitVec w n v offset = some (x, offset')) :
    x = LittleEndian.toBitVec w (ByteVector.slice v offset n) := by
  rw [bitVec, bind_apply, bytes] at h
  split at h
  · cases h
    rfl
  · cases h

/-- **Bounds rule.** A sized reader and what follows it stay in the vector exactly where the reader
does and, behind it, what follows does. -/
theorem Sized.bind_isSome_iff {r : Reader α} {f : α → Reader β} {n : Nat} (h : Sized r n)
    {v : List Byte} {offset : Nat} (hoffset : offset ≤ v.length) {P : Prop}
    (hf : offset + n ≤ v.length → ∀ x, r v offset = some (x, offset + n) →
      ((f x v (offset + n)).isSome ↔ P)) :
    ((r >>= f) v offset).isSome ↔ offset + n ≤ v.length ∧ P := by
  rw [bind_apply]
  rcases Nat.lt_or_ge v.length (offset + n) with hlt | hge
  · rw [h.eq_none hoffset hlt]
    simp [Nat.not_le.mpr hlt]
  · obtain ⟨x, hx⟩ := h.exists_eq hge
    rw [hx, Option.bind_some, hf hge x hx]
    simp [hge]

/-- An array of sized elements is sized. -/
theorem Sized.array {r : Reader α} {k : Nat} (h : Sized r k) (n : Nat) :
    Sized (array r n) (n * k) := by
  induction n with
  | zero =>
      rw [Nat.zero_mul]
      exact sized_pure _
  | succ n ih =>
      have hsum : (n + 1) * k = k + (n * k + 0) := by ring
      rw [hsum]
      exact h.bind fun _ => ih.bind fun _ => sized_pure _

/-! ## Accounting for what was read -/

/-- What `r` reads stands encoded where it was read, and `r` goes on behind it. -/
def Takes (r : Reader α) (enc : α → List Byte) : Prop :=
  ∀ v offset x offset', r v offset = some (x, offset') →
    v.drop offset = enc x ++ v.drop offset'

/-- The ways a sequence of two reads has a value. -/
theorem bind_eq_some_iff {r : Reader α} {f : α → Reader β} {v : List Byte} {offset : Nat}
    {p : β × Nat} : (r >>= f) v offset = some p
      ↔ ∃ x offset', r v offset = some (x, offset') ∧ f x v offset' = some p := by
  rw [bind_apply, Option.bind_eq_some_iff]
  exact Prod.exists

/-- What `bytes n` reads are `n` bytes. -/
theorem length_of_bytes {n : Nat} {v bs : List Byte} {offset offset' : Nat}
    (h : bytes n v offset = some (bs, offset')) : bs.length = n := by
  rw [bytes] at h
  split at h
  · next hfit =>
      cases h
      exact ByteVector.length_slice hfit
  · cases h

/-- `bytes` takes what it reads. -/
theorem takes_bytes (n : Nat) : Takes (bytes n) id := by
  intro v offset bs offset' h
  rw [bytes] at h
  split at h
  · cases h
    rw [id, ByteVector.slice, ← List.drop_drop, List.take_append_drop]
  · cases h

/-- `bitVec` takes the encoding of what it reads. -/
theorem takes_bitVec {w n : Nat} (hw : 2 ^ w = 256 ^ n) :
    Takes (bitVec w n) (LittleEndian.ofBitVec n) := by
  intro v offset x offset' h
  obtain ⟨bs, offset'', hbytes, hpure⟩ := bind_eq_some_iff.mp h
  have hlen := length_of_bytes hbytes
  cases hpure
  rw [LittleEndian.ofBitVec_toBitVec hw hlen]
  exact takes_bytes n v offset bs offset' hbytes

/-- An array takes the encodings of its elements. -/
theorem Takes.array {r : Reader α} {enc : α → List Byte} (h : Takes r enc) (n : Nat) :
    Takes (array r n) fun xs => (List.ofFn xs).flatMap enc := by
  induction n with
  | zero =>
      intro v offset xs offset' hr
      cases hr
      rfl
  | succ n ih =>
      intro v offset xs offset' hr
      obtain ⟨x, offset₁, hx, hrest⟩ := bind_eq_some_iff.mp hr
      obtain ⟨xs', offset₂, hxs, hpure⟩ := bind_eq_some_iff.mp hrest
      cases hpure
      have hofFn : List.ofFn (Fin.cons x xs' : Fin (n + 1) → α) = x :: List.ofFn xs' := by
        rw [List.ofFn_succ, Fin.cons_zero]
        rfl
      show _ = (List.ofFn (Fin.cons x xs' : Fin (n + 1) → α)).flatMap enc ++ _
      rw [hofFn, List.flatMap_cons, List.append_assoc, h _ _ _ _ hx, ih _ _ _ _ hxs]

end Reader

end VmmShowcase
