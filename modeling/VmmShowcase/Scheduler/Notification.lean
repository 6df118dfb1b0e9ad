import Mathlib.Data.List.Nodup
import VmmShowcase.Scheduler.Balance

/-! # The MLFQ queues under their whole interface

`NotifyRan` queues a machine that `PickNext` has queued already. So the queues are free of duplicates
while only `PickNext` is called, and never directly behind a `NotifyRan`. -/

namespace VmmShowcase

namespace MlfqScheduler

/-- A call by a client of the scheduler. -/
inductive Call where
  | pickNext (statuses : List VmStatus)
  | notifyRan (vmIndex : Nat)

/-- An interleaving of calls about `n` machines, with the queues it leaves and what `PickNext`
returned last: `NotifyRan` is only called with that index. -/
inductive Interleaving (n : Nat) : List Call → MlfqScheduler → Option Nat → Prop where
  | nil : Interleaving n [] {} none
  | pickNext {calls : List Call} {s : MlfqScheduler} {last : Option Nat}
      (h : Interleaving n calls s last) {statuses : List VmStatus} (hlen : statuses.length = n) :
      Interleaving n (calls ++ [.pickNext statuses]) (s.pickNext statuses).2
        (some (s.pickNext statuses).1)
  | notifyRan {calls : List Call} {s : MlfqScheduler} {idx : Nat}
      (h : Interleaving n calls s (some idx)) :
      Interleaving n (calls ++ [.notifyRan idx]) (s.notifyRan idx) (some idx)

/-- No machine is queued twice, and only one of the `n` machines is. -/
structure Duplicatefree (s : MlfqScheduler) (n : Nat) : Prop where
  nodup : s.queued.Nodup
  length_le : s.queued.length ≤ n

/-- Machines that are queued after a pick were queued before, or are indices of the status vector. -/
theorem Picks.mem_queued_or_lt {statuses : List VmStatus} {s : MlfqScheduler}
    {p : Nat × MlfqScheduler} (h : Picks statuses s p) {i : Nat} (hi : i ∈ p.2.queued) :
    i ∈ s.queued ∨ i < statuses.length := by
  rw [mem_queued] at hi ⊢
  cases h with
  | high hq _ hlive =>
      rw [hq]
      simp only [List.mem_append, List.mem_cons, List.not_mem_nil, or_false] at hi ⊢
      rcases hi with hi | (hi | rfl) | hi
      · exact .inl (.inl (.inr (.inr hi)))
      · exact .inl (.inr (.inl hi))
      · exact .inr hlive.lt
      · exact .inl (.inr (.inr hi))
  | mid _ hq _ hlive =>
      rw [hq]
      simp only [List.mem_append, List.mem_cons, List.not_mem_nil, or_false, false_or] at hi ⊢
      rcases hi with hi | hi | rfl
      · exact .inl (.inr (.inl (.inr (.inr hi))))
      · exact .inl (.inr (.inr hi))
      · exact .inr hlive.lt
  | low _ _ hq _ hlive =>
      rw [hq]
      simp only [List.mem_append, List.mem_cons, List.not_mem_nil, or_false, false_or] at hi ⊢
      rcases hi with rfl | hi
      · exact .inr hlive.lt
      · exact .inl (.inr (.inr (.inr (.inr hi))))
  | rebuild =>
      simp only [rebuildQueues, List.mem_range, List.not_mem_nil, or_false] at hi
      exact .inr hi

/-- What `PickNext` returns is queued when it returns, if there is a machine at all. -/
theorem Picks.fst_mem_queued {statuses : List VmStatus} {s : MlfqScheduler}
    {p : Nat × MlfqScheduler} (h : Picks statuses s p) (hpos : 0 < statuses.length) :
    p.1 ∈ p.2.queued := by
  cases h with
  | high _ _ hlive => exact mem_queued.mpr (.inr (.inl (by simp)))
  | mid _ _ _ hlive => exact mem_queued.mpr (.inr (.inr (by simp)))
  | low _ _ _ _ hlive => exact mem_queued.mpr (.inl (by simp))
  | rebuild => exact mem_queued.mpr (.inl (List.mem_range.mpr hpos))

/-- Without duplicates, indices below `n` are at most `n`. -/
theorem duplicatefree_of_lt {s : MlfqScheduler} {n : Nat} (hnodup : s.queued.Nodup)
    (hlt : ∀ i ∈ s.queued, i < n) : s.Duplicatefree n := by
  refine ⟨hnodup, ?_⟩
  calc s.queued.length ≤ (List.range n).length :=
        (hnodup.subperm fun i hi => List.mem_range.mpr (hlt i hi)).length_le
    _ = n := List.length_range

/-- The queues a pick works on keep what new queues and the ones before satisfy. -/
theorem ready_invariant (P : MlfqScheduler → Prop) {s : MlfqScheduler} {n : Nat} (h : P s)
    (hrebuild : P (rebuildQueues n)) : P (s.ready n) := by
  unfold ready
  split
  · exact h
  · exact hrebuild

/-- While only `PickNext` is called, machines are queued once, and only those there are. -/
theorem Interleaving.picks {n : Nat} {calls : List Call} {s : MlfqScheduler} {last : Option Nat}
    (h : Interleaving n calls s last) (hpicks : ∀ idx, .notifyRan idx ∉ calls) :
    s.queued.Nodup ∧ ∀ i ∈ s.queued, i < n := by
  induction h with
  | nil => exact ⟨List.nodup_nil, by simp [queued]⟩
  | @pickNext calls s last _ statuses hlen ih =>
      have hbefore := ih fun idx hidx => hpicks idx (List.mem_append_left _ hidx)
      have hready : (s.ready n).queued.Nodup ∧ ∀ i ∈ (s.ready n).queued, i < n := by
        refine ready_invariant (fun s => s.queued.Nodup ∧ ∀ i ∈ s.queued, i < n) hbefore ?_
        have hqueued : (rebuildQueues n).queued = List.range n := by simp [queued, rebuildQueues]
        rw [hqueued]
        exact ⟨List.nodup_range, fun i hi => List.mem_range.mp hi⟩
      have hpick := picks_pickNext statuses s
      rw [hlen] at hpick
      refine ⟨hpick.nodup hready.1, fun i hi => ?_⟩
      rcases hpick.mem_queued_or_lt hi with hi | hi
      · exact hready.2 i hi
      · exact hlen ▸ hi
  | @notifyRan calls s idx _ ih =>
      exact absurd (List.mem_append_right calls (List.mem_singleton.mpr rfl)) (hpicks idx)

/-- The index returned last is still queued. -/
theorem Interleaving.last_mem_queued {n : Nat} (hn : 1 ≤ n) {calls : List Call} {s : MlfqScheduler}
    {last : Option Nat} (h : Interleaving n calls s last) :
    ∀ idx ∈ last, idx ∈ s.queued := by
  induction h with
  | nil => simp
  | @pickNext calls s last _ statuses hlen ih =>
      intro idx hidx
      rw [Option.mem_some_iff] at hidx
      rw [← hidx]
      exact (picks_pickNext statuses s).fst_mem_queued (hlen ▸ hn)
  | @notifyRan calls s ran _ ih =>
      intro idx hidx
      rw [Option.mem_some_iff] at hidx
      rw [← hidx]
      exact mem_queued.mpr (.inr (.inr (List.mem_append_right s.low (List.mem_singleton.mpr rfl))))

/-- Queueing a queued machine again makes a duplicate. -/
theorem not_nodup_notifyRan {s : MlfqScheduler} {idx : Nat} (h : idx ∈ s.queued) :
    ¬ (s.notifyRan idx).queued.Nodup := by
  have hqueued : (s.notifyRan idx).queued = s.queued ++ [idx] := by
    simp [queued, notifyRan]
  rw [hqueued, List.nodup_append]
  rintro ⟨-, -, hdisjoint⟩
  exact hdisjoint idx h idx (List.mem_singleton.mpr rfl) rfl

/-- A `NotifyRan` in an interleaving leaves a duplicate behind it. -/
theorem Interleaving.exists_not_nodup {n : Nat} (hn : 1 ≤ n) {calls : List Call}
    {s : MlfqScheduler} {last : Option Nat} (h : Interleaving n calls s last) {idx : Nat}
    (hmem : .notifyRan idx ∈ calls) :
    ∃ calls' s' last', calls' <+: calls ∧ Interleaving n calls' s' last' ∧ ¬ s'.queued.Nodup := by
  induction h with
  | nil => cases hmem
  | @pickNext calls s last _ statuses _ ih =>
      have hmem' : .notifyRan idx ∈ calls := by simpa using hmem
      obtain ⟨calls', s', last', hpre, h', hdup⟩ := ih hmem'
      exact ⟨calls', s', last', hpre.trans (List.prefix_append _ _), h', hdup⟩
  | @notifyRan calls s idx' h _ =>
      refine ⟨_, _, _, List.prefix_refl _, h.notifyRan, ?_⟩
      exact not_nodup_notifyRan (h.last_mem_queued hn idx' rfl)

/-- **Duplicates come from `NotifyRan`.** Along an interleaving of `PickNext` and `NotifyRan` calls the
queues always hold every machine at most once, and so at most `n` entries, exactly if `NotifyRan` is
not called in it. -/
theorem duplicatefree_iff_no_notifyRan {n : Nat} (hn : 1 ≤ n) {calls : List Call}
    {s : MlfqScheduler} {last : Option Nat} (h : Interleaving n calls s last) :
    (∀ calls' s' last', calls' <+: calls → Interleaving n calls' s' last' → s'.Duplicatefree n)
      ↔ ∀ idx, .notifyRan idx ∉ calls := by
  constructor
  · intro hfree idx hmem
    obtain ⟨calls', s', last', hpre, h', hdup⟩ := h.exists_not_nodup hn hmem
    exact hdup (hfree calls' s' last' hpre h').nodup
  · intro hpicks calls' s' last' hpre h'
    obtain ⟨hnodup, hlt⟩ := h'.picks fun idx hmem => hpicks idx (hpre.subset hmem)
    exact duplicatefree_of_lt hnodup hlt

/-- One pick of a single machine, after which the machine is reported. -/
theorem interleaving_pickThenNotify :
    Interleaving 1 [.pickNext [.ready], .notifyRan 0]
      { initialized := true, high := [], mid := [0], low := [0] } (some 0) :=
  (@Interleaving.pickNext 1 [] {} none .nil [.ready] rfl).notifyRan

/-- The theorem at that interleaving. -/
theorem duplicatefree_iff_no_notifyRan_pickThenNotify :
    (∀ calls' s' last', calls' <+: [.pickNext [.ready], .notifyRan 0] →
        Interleaving 1 calls' s' last' → s'.Duplicatefree 1)
      ↔ ∀ idx, Call.notifyRan idx ∉ [Call.pickNext [.ready], .notifyRan 0] :=
  duplicatefree_iff_no_notifyRan (Nat.le_refl 1) interleaving_pickThenNotify

/-- Reporting the machine that was just picked queues it twice. -/
theorem not_duplicatefree_pickThenNotify :
    ¬ ∀ (n : Nat), 1 ≤ n → ∀ (calls : List Call) (s : MlfqScheduler) (last : Option Nat),
      Interleaving n calls s last → s.Duplicatefree n := by
  intro h
  have hfree := h 1 (Nat.le_refl 1) _ _ _ interleaving_pickThenNotify
  exact absurd hfree.length_le (by decide)

end MlfqScheduler

end VmmShowcase
