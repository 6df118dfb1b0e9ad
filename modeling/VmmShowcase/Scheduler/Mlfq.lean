import Mathlib.Data.List.Basic
import VmmShowcase.Scheduler.Schedulers

/-! # MLFQ picks

A pick pops the queues in order up to the first live machine and queues it one level down, from the
lowest level back at the top. If no queued machine is live it rebuilds the queues and answers 0,
whether machine 0 is live or not. -/

namespace VmmShowcase

namespace MlfqScheduler

/-- **Inversion of `pickFromQueue`.** The first live candidate is picked and everything up to it is
popped, or the queue holds no live one and is emptied. -/
theorem pickFromQueue_cases (statuses : List VmStatus) (q : List Nat) :
    (∃ dead idx rest, q = dead ++ idx :: rest ∧ (∀ d ∈ dead, ¬ Live statuses d)
        ∧ Live statuses idx ∧ pickFromQueue statuses q = (idx, rest))
      ∨ ((∀ d ∈ q, ¬ Live statuses d) ∧ pickFromQueue statuses q = (statuses.length, [])) := by
  induction q with
  | nil =>
      refine .inr ⟨by simp, ?_⟩
      rw [pickFromQueue]
      cases statuses <;> rfl
  | cons candidate q ih =>
      by_cases hlive : Live statuses candidate
      · refine .inl ⟨[], candidate, q, rfl, by simp, hlive, ?_⟩
        rw [pickFromQueue, if_pos hlive]
      · rw [pickFromQueue, if_neg hlive]
        rcases ih with ⟨dead, idx, rest, rfl, hdead, hidx, hpick⟩ | ⟨hdead, hpick⟩
        · refine .inl ⟨candidate :: dead, idx, rest, rfl, ?_, hidx, hpick⟩
          rintro d (_ | ⟨_, hd⟩)
          · exact hlive
          · exact hdead d hd
        · refine .inr ⟨?_, hpick⟩
          rintro d (_ | ⟨_, hd⟩)
          · exact hlive
          · exact hdead d hd

/-- The queues `PickNext` works on. -/
def ready (s : MlfqScheduler) (vmCount : Nat) : MlfqScheduler :=
  if s.initialized then s else rebuildQueues vmCount

/-- The ways `PickNext` ends, from the queues it works on. -/
inductive Picks (statuses : List VmStatus) (s : MlfqScheduler) : Nat × MlfqScheduler → Prop where
  | high {dead : List Nat} {idx : Nat} {rest : List Nat} (hq : s.high = dead ++ idx :: rest)
      (hdead : ∀ d ∈ dead, ¬ Live statuses d) (hlive : Live statuses idx) :
      Picks statuses s (idx, { s with high := rest, mid := s.mid ++ [idx] })
  | mid (hhigh : ∀ d ∈ s.high, ¬ Live statuses d) {dead : List Nat} {idx : Nat} {rest : List Nat}
      (hq : s.mid = dead ++ idx :: rest) (hdead : ∀ d ∈ dead, ¬ Live statuses d)
      (hlive : Live statuses idx) :
      Picks statuses s (idx, { s with high := [], mid := rest, low := s.low ++ [idx] })
  | low (hhigh : ∀ d ∈ s.high, ¬ Live statuses d) (hmid : ∀ d ∈ s.mid, ¬ Live statuses d)
      {dead : List Nat} {idx : Nat} {rest : List Nat} (hq : s.low = dead ++ idx :: rest)
      (hdead : ∀ d ∈ dead, ¬ Live statuses d) (hlive : Live statuses idx) :
      Picks statuses s (idx, { s with high := [idx], mid := [], low := rest })
  | rebuild (hhigh : ∀ d ∈ s.high, ¬ Live statuses d) (hmid : ∀ d ∈ s.mid, ¬ Live statuses d)
      (hlow : ∀ d ∈ s.low, ¬ Live statuses d) :
      Picks statuses s (0, rebuildQueues statuses.length)

/-- **Inversion of an MLFQ pick.** -/
theorem picks_pickNext (statuses : List VmStatus) (s : MlfqScheduler) :
    Picks statuses (s.ready statuses.length) (s.pickNext statuses) := by
  have hnot : ¬ statuses.length < statuses.length := Nat.lt_irrefl _
  unfold pickNext
  rw [← ready]
  generalize s.ready statuses.length = s
  rcases pickFromQueue_cases statuses s.high with
    ⟨dead, idx, rest, hq, hdead, hlive, hpick⟩ | ⟨hhigh, hpick⟩
  · simp only [hpick, if_pos hlive.lt]
    exact .high hq hdead hlive
  simp only [hpick, if_neg hnot]
  rcases pickFromQueue_cases statuses s.mid with
    ⟨dead, idx, rest, hq, hdead, hlive, hpick⟩ | ⟨hmid, hpick⟩
  · simp only [hpick, if_pos hlive.lt]
    exact .mid hhigh hq hdead hlive
  simp only [hpick, if_neg hnot]
  rcases pickFromQueue_cases statuses s.low with
    ⟨dead, idx, rest, hq, hdead, hlive, hpick⟩ | ⟨hlow, hpick⟩
  · simp only [hpick, if_pos hlive.lt]
    exact .low hhigh hmid hq hdead hlive
  simp only [hpick, if_neg hnot]
  exact .rebuild hhigh hmid hlow

/-- The queues `PickNext` works on are initialized. -/
theorem initialized_ready (s : MlfqScheduler) (vmCount : Nat) :
    (s.ready vmCount).initialized = true := by
  unfold ready
  split
  · assumption
  · rfl

/-- A pick leaves initialized queues. -/
theorem Picks.initialized {statuses : List VmStatus} {s : MlfqScheduler} {p : Nat × MlfqScheduler}
    (h : Picks statuses s p) (hs : s.initialized = true) : p.2.initialized = true := by
  cases h with
  | high | mid | low => exact hs
  | rebuild => rfl

/-- The machines in the queues. -/
def queued (s : MlfqScheduler) : List Nat := s.high ++ s.mid ++ s.low

/-- Membership in the queues. -/
theorem mem_queued {s : MlfqScheduler} {i : Nat} :
    i ∈ s.queued ↔ i ∈ s.high ∨ i ∈ s.mid ∨ i ∈ s.low := by
  rw [queued, List.mem_append, List.mem_append, or_assoc]

/-- A live machine that is picked is queued again. -/
theorem Picks.requeued {statuses : List VmStatus} {s : MlfqScheduler} {p : Nat × MlfqScheduler}
    (h : Picks statuses s p) (hlive : Live statuses p.1) : p.1 ∈ p.2.queued := by
  rw [mem_queued]
  cases h with
  | high => exact .inr (.inl (by simp))
  | mid => exact .inr (.inr (by simp))
  | low => exact .inl (by simp)
  | rebuild => exact .inl (List.mem_range.mpr hlive.lt)

/-- How many picks of other machines can come before that of a queued one. A machine in the low
queue may see everything queued before it go round all three queues. -/
def distance (s : MlfqScheduler) (i : Nat) : Nat :=
  if i ∈ s.high then s.high.idxOf i
  else if i ∈ s.mid then s.high.length + s.mid.idxOf i
  else 3 * s.low.idxOf i + 2 * s.high.length + s.mid.length

/-- Behind the popped candidates a live machine is that much closer to the front. -/
theorem idxOf_of_popped {statuses : List VmStatus} {q dead rest : List Nat} {idx i : Nat}
    (hq : q = dead ++ idx :: rest) (hdead : ∀ d ∈ dead, ¬ Live statuses d)
    (hi : Live statuses i) (hne : idx ≠ i) (hmem : i ∈ q) :
    i ∈ rest ∧ q.idxOf i = dead.length + (rest.idxOf i + 1) := by
  have hnotdead : i ∉ dead := fun h => hdead i h hi
  subst hq
  have hrest : i ∈ rest := by
    rcases List.mem_append.mp hmem with h | h
    · exact absurd h hnotdead
    · exact (List.mem_cons.mp h).resolve_left (Ne.symm hne)
  refine ⟨hrest, ?_⟩
  rw [List.idxOf_append_of_notMem hnotdead, List.idxOf_cons_ne _ hne]

/-- A pick of another machine leaves a live queued one queued, and closer to its turn. -/
theorem Picks.eq_or_distance_lt {statuses : List VmStatus} {s : MlfqScheduler}
    {p : Nat × MlfqScheduler} (h : Picks statuses s p) {i : Nat} (hi : Live statuses i)
    (hmem : i ∈ s.queued) : p.1 = i ∨ i ∈ p.2.queued ∧ p.2.distance i < s.distance i := by
  have hnotMem : ∀ q : List Nat, (∀ d ∈ q, ¬ Live statuses d) → i ∉ q := fun q hq h => hq i h hi
  rw [mem_queued] at hmem
  simp only [mem_queued]
  cases h with
  | @high dead idx rest hq hdead hlive =>
      by_cases hne : idx = i
      · exact .inl hne
      refine .inr ?_
      by_cases hhigh : i ∈ s.high
      · obtain ⟨hrest, hidx⟩ := idxOf_of_popped hq hdead hi hne hhigh
        refine ⟨.inl hrest, ?_⟩
        simp only [distance, if_pos hhigh, if_pos hrest]
        omega
      -- the pick moves down to the mid queue, where the machine is before it or still lower
      have hrest : i ∉ rest := fun h => hhigh (by simp [hq, h])
      have hlen : s.high.length = dead.length + (rest.length + 1) := by
        rw [hq, List.length_append, List.length_cons]
      by_cases hmid : i ∈ s.mid
      · refine ⟨.inr (.inl (by simp [hmid])), ?_⟩
        have hidx : (s.mid ++ [idx]).idxOf i = s.mid.idxOf i := List.idxOf_append_of_mem hmid
        simp only [distance, if_neg hhigh, if_neg hrest, if_pos hmid, hidx,
          if_pos (List.mem_append_left [idx] hmid)]
        omega
      · have hlow : i ∈ s.low := (hmem.resolve_left hhigh).resolve_left hmid
        have hmid' : i ∉ s.mid ++ [idx] := by simp [hmid, Ne.symm hne]
        refine ⟨.inr (.inr hlow), ?_⟩
        simp only [distance, if_neg hhigh, if_neg hrest, if_neg hmid, if_neg hmid',
          List.length_append, List.length_singleton]
        omega
  | @mid hhigh dead idx rest hq hdead hlive =>
      by_cases hne : idx = i
      · exact .inl hne
      refine .inr ?_
      have hhigh' := hnotMem s.high hhigh
      by_cases hmid : i ∈ s.mid
      · obtain ⟨hrest, hidx⟩ := idxOf_of_popped hq hdead hi hne hmid
        refine ⟨.inr (.inl hrest), ?_⟩
        simp only [distance, if_neg hhigh', if_pos hmid, if_pos hrest, List.not_mem_nil, if_false,
          List.length_nil]
        omega
      · -- the mid queue got shorter, and the pick was appended behind the machine
        have hlow : i ∈ s.low := (hmem.resolve_left hhigh').resolve_left hmid
        have hrest : i ∉ rest := fun h => hmid (by simp [hq, h])
        have hlen : s.mid.length = dead.length + (rest.length + 1) := by
          rw [hq, List.length_append, List.length_cons]
        have hidx : (s.low ++ [idx]).idxOf i = s.low.idxOf i := List.idxOf_append_of_mem hlow
        refine ⟨.inr (.inr (by simp [hlow])), ?_⟩
        simp only [distance, if_neg hhigh', if_neg hmid, if_neg hrest, List.not_mem_nil, if_false,
          List.length_nil, hidx]
        omega
  | @low hhigh hmid dead idx rest hq hdead hlive =>
      by_cases hne : idx = i
      · exact .inl hne
      have hhigh' := hnotMem s.high hhigh
      have hmid' := hnotMem s.mid hmid
      have hlow : i ∈ s.low := (hmem.resolve_left hhigh').resolve_left hmid'
      obtain ⟨hrest, hidx⟩ := idxOf_of_popped hq hdead hi hne hlow
      -- the pick goes round through the high queue, which the factor 3 pays for
      have hidx' : i ∉ [idx] := by simp [Ne.symm hne]
      refine .inr ⟨.inr (.inr hrest), ?_⟩
      simp only [distance, if_neg hhigh', if_neg hmid', if_neg hidx', List.not_mem_nil, if_false,
        List.length_nil, List.length_singleton]
      omega
  | rebuild hhigh hmid hlow =>
      rcases hmem with h | h | h
      · exact absurd hi (hhigh i h)
      · exact absurd hi (hmid i h)
      · exact absurd hi (hlow i h)

end MlfqScheduler

end VmmShowcase
