import Mathlib.Data.List.Nodup
import Mathlib.Logic.Function.Basic

/-! # Lookup tables and coherent caches

An unordered map is the function that finds a key's value. A cache in front of a map is coherent
when every entry it holds is the map's own; a coherent cache is invisible: looking a key up in the
cache first and in the map only on a miss finds what the map alone finds. Coherence survives
filling on a miss, writing through to both, and clearing. -/

namespace VmmShowcase

/-- An unordered map, as its find function. -/
abbrev Table (κ ν : Type*) := κ → Option ν

namespace Table

variable {κ ν : Type*}

/-- The map without entries. -/
def empty : Table κ ν := fun _ => none

@[simp] theorem empty_apply (k : κ) : (empty : Table κ ν) k = none := rfl

variable [DecidableEq κ]

/-- A map with the entry of `k` set. -/
def insert (t : Table κ ν) (k : κ) (v : ν) : Table κ ν := Function.update t k (some v)

@[simp] theorem insert_self (t : Table κ ν) (k : κ) (v : ν) : t.insert k v k = some v :=
  Function.update_self ..

/-- Setting one entry leaves the others. -/
theorem insert_of_ne (t : Table κ ν) {k k' : κ} (v : ν) (h : k' ≠ k) : t.insert k v k' = t k' :=
  Function.update_of_ne h ..

/-- Every entry of the cache is the table's own. -/
def Coherent (cache table : Table κ ν) : Prop := ∀ k v, cache k = some v → table k = some v

omit [DecidableEq κ] in
/-- An empty cache is coherent. -/
theorem coherent_empty (table : Table κ ν) : Coherent empty table := by
  intro k v h
  exact absurd h (by simp)

/-- Filling an entry from the table keeps a cache coherent. -/
theorem Coherent.fill {cache table : Table κ ν} (h : Coherent cache table) {k : κ} {v : ν}
    (hk : table k = some v) : Coherent (cache.insert k v) table := by
  intro k' v' hk'
  -- the new entry is the table's own, the others were
  by_cases hkk : k' = k
  · subst hkk
    rw [insert_self, Option.some.injEq] at hk'
    rw [hk, hk']
  · rw [insert_of_ne cache v hkk] at hk'
    exact h k' v' hk'

/-- Setting an entry in both cache and table keeps the cache coherent. -/
theorem Coherent.writeThrough {cache table : Table κ ν} (h : Coherent cache table) (k : κ) (v : ν) :
    Coherent (cache.insert k v) (table.insert k v) := by
  intro k' v' hk'
  by_cases hkk : k' = k
  · subst hkk
    rwa [insert_self] at hk' ⊢
  · rw [insert_of_ne cache v hkk] at hk'
    rw [insert_of_ne table v hkk]
    exact h k' v' hk'

/-! ## Iteration -/

/-- The entries of a map, each once, in some order: what an iteration over it comes by. -/
structure Enumerates (entries : List (κ × ν)) (table : Table κ ν) : Prop where
  nodup : (entries.map Prod.fst).Nodup
  mem_iff : ∀ k v, (k, v) ∈ entries ↔ table k = some v

omit [DecidableEq κ] in
/-- Iterations over one map differ by their order only. -/
theorem Enumerates.perm {entries entries' : List (κ × ν)} {table : Table κ ν}
    (h : Enumerates entries table) (h' : Enumerates entries' table) : entries.Perm entries' := by
  refine (List.perm_ext_iff_of_nodup h.nodup.of_map h'.nodup.of_map).mpr fun entry => ?_
  rw [h.mem_iff, h'.mem_iff]

end Table

end VmmShowcase
