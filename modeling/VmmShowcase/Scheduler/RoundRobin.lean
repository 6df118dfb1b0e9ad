import Mathlib.Data.List.Basic
import VmmShowcase.Scheduler.Schedulers

/-! # Round-robin picks

While a machine is live a pick is the first live candidate from the cursor on, and the cursor moves
behind it; so it comes closer to every live machine that was not picked. -/

namespace VmmShowcase

namespace RoundRobinScheduler

/-- Runnable machines are the live ones. -/
theorem any_runnable_iff (statuses : List VmStatus) (i : Nat) :
    statuses[i]?.any (Runnable ·) = true ↔ Live statuses i := by
  have hrunnable : ∀ status : VmStatus, Runnable status ↔ ¬ status.Done := by
    intro status
    cases status <;> decide
  simp [Live, Option.any_eq_true, hrunnable]

/-- How many candidates an index is ahead of the cursor. -/
def ahead (cursor n i : Nat) : Nat := (i + (n - cursor % n)) % n

/-- The candidate `ahead` counts up to is the index. -/
theorem add_ahead_mod (cursor : Nat) {n i : Nat} (hi : i < n) : (cursor + ahead cursor n i) % n = i := by
  have hmod : cursor % n < n := Nat.mod_lt cursor (by omega)
  have hsplit : cursor + (i + (n - cursor % n)) = i + n * (cursor / n + 1) := by
    have := Nat.div_add_mod cursor n
    rw [Nat.mul_add, Nat.mul_one]
    omega
  rw [ahead, Nat.add_mod_mod, hsplit, Nat.add_mul_mod_self_left, Nat.mod_eq_of_lt hi]

/-- `ahead` is the only distance below the number of machines. -/
theorem ahead_eq (cursor : Nat) {n m : Nat} (hm : m < n) : ahead cursor n ((cursor + m) % n) = m := by
  have hmod : cursor % n < n := Nat.mod_lt cursor (by omega)
  have hsplit : cursor + m + (n - cursor % n) = m + n * (cursor / n + 1) := by
    have := Nat.div_add_mod cursor n
    rw [Nat.mul_add, Nat.mul_one]
    omega
  rw [ahead, Nat.mod_add_mod, hsplit, Nat.add_mul_mod_self_left, Nat.mod_eq_of_lt hm]

/-- Behind a candidate before it, an index is ahead by what is left. -/
theorem ahead_behind {cursor n i k : Nat} (hi : i < n) (hk : k < ahead cursor n i) :
    ahead (((cursor + k) % n + 1) % n) n i = ahead cursor n i - k - 1 := by
  have hahead : ahead cursor n i < n := Nat.mod_lt _ (by omega)
  have hnext : (((cursor + k) % n + 1) % n + (ahead cursor n i - k - 1)) % n = i := by
    rw [Nat.mod_add_mod, Nat.add_assoc, Nat.mod_add_mod]
    have hsum : cursor + k + (1 + (ahead cursor n i - k - 1)) = cursor + ahead cursor n i := by
      omega
    rw [hsum, add_ahead_mod cursor hi]
  have hrest : ahead cursor n i - k - 1 < n := by omega
  have hdist := ahead_eq (((cursor + k) % n + 1) % n) hrest
  rwa [hnext] at hdist

/-- Behind itself, an index is as far ahead as can be. -/
theorem ahead_succ_self {n i : Nat} (hi : i < n) : ahead ((i + 1) % n) n i = n - 1 := by
  have hlast : n - 1 < n := by omega
  have hdist := ahead_eq ((i + 1) % n) hlast
  have hround : ((i + 1) % n + (n - 1)) % n = i := by
    rw [Nat.mod_add_mod]
    have hsum : i + 1 + (n - 1) = i + n := by omega
    rw [hsum, Nat.add_mod_right, Nat.mod_eq_of_lt hi]
  rwa [hround] at hdist

/-- Different indices are at different distances. -/
theorem ahead_ne {cursor n i j : Nat} (hi : i < n) (hj : j < n) (hne : i ≠ j) :
    ahead cursor n i ≠ ahead cursor n j := by
  intro heq
  apply hne
  rw [← add_ahead_mod cursor hi, heq, add_ahead_mod cursor hj]

/-- **Inversion of a round-robin pick.** While a machine is live, the first live candidate is picked
and the cursor moves behind it. -/
theorem exists_pickNext {statuses : List VmStatus} {i : Nat} (hi : Live statuses i)
    (s : RoundRobinScheduler) :
    ∃ k ≤ ahead s.cursor statuses.length i,
      Live statuses ((s.cursor + k) % statuses.length)
        ∧ s.pickNext statuses = ((s.cursor + k) % statuses.length,
            { cursor := ((s.cursor + k) % statuses.length + 1) % statuses.length }) := by
  have hahead : ahead s.cursor statuses.length i < statuses.length :=
    Nat.mod_lt _ (by have := hi.lt; omega)
  cases hfind : (List.range statuses.length).find?
      fun i => statuses[(s.cursor + i) % statuses.length]?.any (Runnable ·) with
  | none =>
      -- the live machine is one of the candidates
      have hall := List.find?_range_eq_none.mp hfind _ hahead
      rw [add_ahead_mod _ hi.lt, (any_runnable_iff statuses i).mpr hi] at hall
      exact absurd hall (by simp)
  | some k =>
      obtain ⟨hk, -, hfirst⟩ := List.find?_range_eq_some.mp hfind
      refine ⟨k, ?_, (any_runnable_iff _ _).mp hk, ?_⟩
      · -- the scan would have stopped at the live machine before
        by_contra hlt
        have hskip := hfirst _ (Nat.not_le.mp hlt)
        rw [add_ahead_mod _ hi.lt, (any_runnable_iff statuses i).mpr hi] at hskip
        exact absurd hskip (by simp)
      · simp only [pickNext, hfind]

/-- A pick of another machine brings the cursor closer to a live one. -/
theorem pick_or_ahead_lt {statuses : List VmStatus} {i : Nat} (hi : Live statuses i)
    (s : RoundRobinScheduler) :
    (s.pickNext statuses).1 = i
      ∨ ahead (s.pickNext statuses).2.cursor statuses.length i
        < ahead s.cursor statuses.length i := by
  obtain ⟨k, hk, -, hpick⟩ := exists_pickNext hi s
  have hindex := add_ahead_mod s.cursor hi.lt
  rcases Nat.eq_or_lt_of_le hk with rfl | hlt
  · exact .inl (by rw [hpick, hindex])
  · -- the new distance is what is left behind the candidate that was picked
    refine .inr ?_
    rw [hpick, ahead_behind hi.lt hlt]
    omega

end RoundRobinScheduler

end VmmShowcase
