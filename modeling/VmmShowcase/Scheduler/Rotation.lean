import VmmShowcase.Foundations.CallTrace
import VmmShowcase.Scheduler.RoundRobin

/-! # Round robin takes turns

Between two picks of machine `i` the cursor goes once round, so a machine `j` that is live all the
while is picked exactly once. Which of the two is ahead by less tells whether `j` has had its turn:
every pick of another machine takes the same from both distances, and a pick of `j` puts it behind
`i`. -/

namespace VmmShowcase

namespace RoundRobinScheduler

/-- **What a pick does to the distances** of a live machine `i` and of the others not nearer than
it: machine `i` is picked, or a nearer candidate `k` is and all of them come closer alike. -/
theorem pick_or_closer {statuses : List VmStatus} {i : Nat} (hi : Live statuses i)
    (s : RoundRobinScheduler) :
    s.pickNext statuses = (i, { cursor := (i + 1) % statuses.length })
      ∨ ∃ k < ahead s.cursor statuses.length i,
        ahead s.cursor statuses.length (s.pickNext statuses).1 = k
          ∧ ∀ j < statuses.length, k < ahead s.cursor statuses.length j →
            ahead (s.pickNext statuses).2.cursor statuses.length j
              = ahead s.cursor statuses.length j - k - 1 := by
  obtain ⟨k, hk, -, hpick⟩ := exists_pickNext hi s
  rcases Nat.eq_or_lt_of_le hk with rfl | hlt
  · refine .inl ?_
    rw [hpick, add_ahead_mod s.cursor hi.lt]
  · have hn : ahead s.cursor statuses.length i < statuses.length :=
      Nat.mod_lt _ (by have := hi.lt; omega)
    refine .inr ⟨k, hlt, ?_, fun j hj hkj => ?_⟩
    · rw [hpick]
      exact ahead_eq s.cursor (by omega)
    · rw [hpick]
      exact ahead_behind hj hkj

/-- The picks of machine `j` in the calls of `history`. -/
def picksOf (j : Nat) (history : List (List VmStatus × Nat)) : Nat :=
  (history.map Prod.snd).count j

/-- A pick of machine `j` counts. -/
theorem picksOf_cons (j : Nat) (r : List VmStatus × Nat) (history : List (List VmStatus × Nat)) :
    picksOf j (r :: history) = picksOf j history + if r.2 = j then 1 else 0 := by
  rw [picksOf, List.map_cons, List.count_cons, picksOf]
  simp only [beq_iff_eq]

/-- **Turns.** Let `i` and `j` be live in every call, and let the calls pick `i` in the end and not
before. Then `j` is picked once if it is ahead by less than `i`, and otherwise not. -/
theorem picksOf_eq {n i j : Nat} (hne : i ≠ j) {s : RoundRobinScheduler}
    {calls : List (List VmStatus)} {last : List VmStatus}
    (hlen : ∀ statuses ∈ calls ++ [last], statuses.length = n)
    (hlive : ∀ statuses ∈ calls ++ [last], Live statuses i ∧ Live statuses j)
    (hnot : ∀ r ∈ Component.history pickNext s calls, r.2 ≠ i)
    (hlast : ((Component.after pickNext s calls).pickNext last).1 = i) :
    picksOf j (Component.history pickNext s calls)
      = if ahead s.cursor n j < ahead s.cursor n i then 1 else 0 := by
  induction calls generalizing s with
  | nil =>
      -- the last call picks `i`, so `j` is not nearer
      obtain ⟨hi, hj⟩ := hlive last (by simp)
      have hn := hlen last (by simp)
      have hlast : (s.pickNext last).1 = i := hlast
      show 0 = _
      rw [if_neg]
      intro hlt
      rcases pick_or_closer hj s with hpick | ⟨k, hk, hpicked, -⟩
      · rw [hpick] at hlast
        exact hne hlast.symm
      · rw [hlast, hn] at hpicked
        rw [hn] at hk
        omega
  | cons statuses calls ih =>
      obtain ⟨hi, hj⟩ := hlive statuses (by simp)
      have hn := hlen statuses (by simp)
      have hin : i < n := hn ▸ hi.lt
      have hjn : j < n := hn ▸ hj.lt
      rw [Component.history_cons] at hnot ⊢
      have hpick : (s.pickNext statuses).1 ≠ i := hnot _ List.mem_cons_self
      have hrest : picksOf j (Component.history pickNext (s.pickNext statuses).2 calls)
          = if ahead (s.pickNext statuses).2.cursor n j < ahead (s.pickNext statuses).2.cursor n i
            then 1 else 0 :=
        ih (fun u hu => hlen u (List.mem_cons_of_mem _ hu))
          (fun u hu => hlive u (List.mem_cons_of_mem _ hu))
          (fun r hr => hnot r (List.mem_cons_of_mem _ hr)) hlast
      rw [picksOf_cons, hrest]
      -- the pick is nearer than `i`, which comes closer by its distance
      rcases pick_or_closer hi s with hpicked | ⟨k, hk, hpicked, hcloser⟩
      · exact absurd (congrArg Prod.fst hpicked) hpick
      rw [hn] at hk hpicked hcloser
      have hnexti := hcloser i hin hk
      by_cases hj' : (s.pickNext statuses).1 = j
      · -- `j` has its turn now and is behind `i` from here on
        have hcursor : ahead (s.pickNext statuses).2.cursor n j = n - 1 := by
          rcases pick_or_closer hj s with hpick | ⟨k', hk', hpicked', -⟩
          · rw [hpick, hn]
            exact ahead_succ_self hjn
          · rw [hj'] at hpicked'
            omega
        rw [hj'] at hpicked
        have hbound : ahead s.cursor n i < n := Nat.mod_lt _ (by omega)
        rw [if_pos hj', hcursor, hnexti, if_neg (by omega), if_pos (by omega)]
      · by_cases hkj : k < ahead s.cursor n j
        · rw [if_neg hj', hnexti, hcloser j hjn hkj]
          split <;> split <;> omega
        · -- nearer than the pick there is no live machine
          rcases pick_or_closer hj s with hpick | ⟨k', hk', hpicked', -⟩
          · exact absurd (congrArg Prod.fst hpick) hj'
          · rw [hn] at hk' hpicked'
            omega

/-- While there is a live machine, every pick is one. -/
theorem live_of_mem_history {s : RoundRobinScheduler} {calls : List (List VmStatus)}
    (hlive : ∀ statuses ∈ calls, ∃ i, Live statuses i) :
    ∀ r ∈ Component.history pickNext s calls, Live r.1 r.2 := by
  induction calls generalizing s with
  | nil => simp
  | cons statuses calls ih =>
      obtain ⟨i, hi⟩ := hlive statuses List.mem_cons_self
      obtain ⟨k, -, hpicked, hpick⟩ := exists_pickNext hi s
      intro r hr
      rw [Component.history_cons] at hr
      rcases List.mem_cons.mp hr with rfl | hr
      · rwa [hpick]
      · exact ih (fun u hu => hlive u (List.mem_cons_of_mem _ hu)) r hr

/-- A pick of a live machine leaves the cursor behind it. -/
theorem cursor_of_pick {statuses : List VmStatus} {i : Nat} (hi : Live statuses i)
    {s : RoundRobinScheduler} (hpick : (s.pickNext statuses).1 = i) :
    (s.pickNext statuses).2.cursor = (i + 1) % statuses.length := by
  rcases pick_or_closer hi s with h | ⟨k, hk, hpicked, -⟩
  · rw [h]
  · rw [hpick] at hpicked
    omega

/-- **Round-robin fairness.** Whatever the cursor and the statuses, as long as each call shows a
live machine, every call picks one; and between two consecutive picks of machine `i`, another machine
`j` is picked exactly once if both are live in all calls behind the first of them. -/
theorem pickNext_takesTurns {n : Nat} {s : RoundRobinScheduler} {calls : List (List VmStatus)}
    (hlen : ∀ statuses ∈ calls, statuses.length = n)
    (hlive : ∀ statuses ∈ calls, ∃ i, Live statuses i) :
    (∀ r ∈ Component.history pickNext s calls, Live r.1 r.2)
      ∧ ∀ (before between rest : List (List VmStatus × Nat)) (first last : List VmStatus) (i j : Nat),
        Component.history pickNext s calls
            = before ++ (first, i) :: (between ++ (last, i) :: rest) →
        (∀ r ∈ between, r.2 ≠ i) → i ≠ j →
        (∀ r ∈ between ++ [(last, i)], Live r.1 i ∧ Live r.1 j) → picksOf j between = 1 := by
  refine ⟨live_of_mem_history hlive, ?_⟩
  intro before between rest first last i j hhistory hnot hne hboth
  have hcalls : ∀ r ∈ Component.history pickNext s calls, r.1.length = n := fun r hr =>
    hlen r.1 (Component.mem_calls_of_mem_history hr)
  rw [hhistory] at hcalls
  have hfirst : Live first i := by
    refine live_of_mem_history hlive (s := s) (first, i) ?_
    rw [hhistory]
    simp
  -- the calls of `between` and the one behind them start where the first pick leaves the cursor
  obtain ⟨calls₁, calls₂, -, hsecond⟩ := Component.history_eq_append hhistory
  obtain ⟨calls₂, rfl, hpicked, hsecond⟩ := Component.cons_eq_history hsecond
  have hcursor := cursor_of_pick hfirst hpicked.symm
  rw [hcalls (first, i) (by simp)] at hcursor
  obtain ⟨calls₃, calls₄, rfl, hthird⟩ := Component.history_eq_append hsecond.symm
  obtain ⟨calls₄, rfl, hlast, -⟩ := Component.cons_eq_history hthird
  -- what holds of the history holds of its calls
  have hmem : ∀ u ∈ calls₃ ++ [last], ∃ k,
      (u, k) ∈ Component.history pickNext
        ((Component.after pickNext s calls₁).pickNext first).2 calls₃ ++ [(last, i)] := by
    intro u hu
    rcases List.mem_append.mp hu with hu | hu
    · obtain ⟨k, hk⟩ := Component.exists_mem_history hu
        ((Component.after pickNext s calls₁).pickNext first).2
      exact ⟨k, List.mem_append_left _ hk⟩
    · rw [List.mem_singleton.mp hu]
      exact ⟨i, by simp⟩
  have hlen' : ∀ u ∈ calls₃ ++ [last], u.length = n := by
    intro u hu
    obtain ⟨k, hk⟩ := hmem u hu
    refine hcalls (u, k) ?_
    rw [List.mem_append] at hk
    simp only [List.mem_append, List.mem_cons]
    rcases hk with hk | hk
    · exact .inr (.inr (.inl hk))
    · exact .inr (.inr (.inr (.inl (List.mem_singleton.mp hk))))
  have hlive' : ∀ u ∈ calls₃ ++ [last], Live u i ∧ Live u j := by
    intro u hu
    obtain ⟨k, hk⟩ := hmem u hu
    exact hboth (u, k) hk
  obtain ⟨hi, hj⟩ := hlive' last (by simp)
  have hn := hlen' last (by simp)
  rw [picksOf_eq hne hlen' hlive' hnot hlast.symm, hcursor, ahead_succ_self (hn ▸ hi.lt)]
  -- only `i` itself is a whole round ahead
  have hbound : ahead ((i + 1) % n) n j < n := Nat.mod_lt _ (by have := hi.lt; omega)
  have hdiff : ahead ((i + 1) % n) n i ≠ ahead ((i + 1) % n) n j :=
    ahead_ne (hn ▸ hi.lt) (hn ▸ hj.lt) hne
  rw [ahead_succ_self (hn ▸ hi.lt)] at hdiff
  exact if_pos (by omega)

/-- The theorem for two machines: between two picks of machine 0, with machine 2 halted from the
start, machine 1 is picked once. -/
theorem pickNext_takesTurns_two :
    picksOf 1 [([.blocked, .ready, .halted], 1)] = 1 := by
  have hlive : ∀ statuses ∈ [[VmStatus.ready, .ready, .halted], [.blocked, .ready, .halted],
      [.ready, .ready, .halted]], ∃ i, Live statuses i := by
    intro statuses hmem
    refine ⟨0, ?_⟩
    revert statuses
    decide
  have hturns := (@pickNext_takesTurns 3 { cursor := 2 } _ (by decide) hlive).2
  exact hturns [] [([.blocked, .ready, .halted], 1)] [] [.ready, .ready, .halted]
    [.ready, .ready, .halted] 0 1 (by decide) (by decide) (by decide) (by decide)

end RoundRobinScheduler

end VmmShowcase
