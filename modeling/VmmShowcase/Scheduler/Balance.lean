import Mathlib.Data.List.Nodup
import VmmShowcase.Foundations.CallTrace
import VmmShowcase.Scheduler.Mlfq

/-! # MLFQ loses nobody and stays balanced

As long as the dead stay dead, the queues hold every live machine once. What a machine was picked so
far shows in its place: after a first round in the high queue and a second one in the middle queue,
machines are taken from the front of the low queue and picked three times in a row before they join
its end. So no live machine is ever more than three picks ahead of another. -/

namespace VmmShowcase

/-- Every machine that is live now was live before. -/
def Fading (statuses statuses' : List VmStatus) : Prop :=
  ∀ i, Live statuses' i → Live statuses i

namespace MlfqScheduler

/-- The shapes of the queues, for machines picked `count` times so far. -/
inductive Shape (s : MlfqScheduler) (count : Nat → Nat) : Prop where
  /-- The first round: the high queue has not been picked from its front on yet. -/
  | first (hhigh : ∀ i ∈ s.high, count i = 0) (hmid : ∀ i ∈ s.mid, count i = 1) (hlow : s.low = [])
  /-- The second round, through the middle queue. -/
  | second (hhigh : s.high = []) (hmid : ∀ i ∈ s.mid, count i = 1) (hlow : ∀ i ∈ s.low, count i = 2)
  /-- Round `m`, three picks for one machine after the other. -/
  | round (m : Nat) (hone : s.high.length + s.mid.length ≤ 1) (hhigh : ∀ i ∈ s.high, count i = m + 1)
      (hmid : ∀ i ∈ s.mid, count i = m + 2) {waiting served : List Nat}
      (hlow : s.low = waiting ++ served) (hwaiting : ∀ i ∈ waiting, count i = m)
      (hserved : ∀ i ∈ served, count i = m + 3)

/-- In every shape, queued machines are at most three picks apart. -/
theorem Shape.count_le {s : MlfqScheduler} {count : Nat → Nat} (h : s.Shape count) {i j : Nat}
    (hi : i ∈ s.queued) (hj : j ∈ s.queued) : count i ≤ count j + 3 := by
  have hbound : ∃ m, ∀ k ∈ s.queued, m ≤ count k ∧ count k ≤ m + 3 := by
    cases h with
    | first hhigh hmid hlow =>
        refine ⟨0, fun k hk => ?_⟩
        rw [mem_queued, hlow] at hk
        rcases hk with hk | hk | hk
        · simp [hhigh k hk]
        · simp [hmid k hk]
        · cases hk
    | second hhigh hmid hlow =>
        refine ⟨0, fun k hk => ?_⟩
        rw [mem_queued, hhigh] at hk
        rcases hk with hk | hk | hk
        · cases hk
        · simp [hmid k hk]
        · simp [hlow k hk]
    | round m hone hhigh hmid hlow hwaiting hserved =>
        refine ⟨m, fun k hk => ?_⟩
        rw [mem_queued, hlow, List.mem_append] at hk
        rcases hk with hk | hk | hk | hk
        · simp [hhigh k hk]
        · simp [hmid k hk]
        · simp [hwaiting k hk]
        · simp [hserved k hk]
  obtain ⟨m, hm⟩ := hbound
  have := hm i hi
  have := hm j hj
  omega

/-- A machine occurs nowhere else in queues without duplicates. -/
theorem notMem_of_nodup {before behind queued : List Nat} {idx : Nat} (h : queued.Nodup)
    (hqueued : queued = before ++ idx :: behind) : idx ∉ before ∧ idx ∉ behind := by
  rw [hqueued, List.nodup_middle, List.nodup_cons, List.mem_append, not_or] at h
  exact h.1

/-- The counts after one more pick. -/
def picked (count : Nat → Nat) (idx : Nat) : Nat → Nat :=
  fun i => if i = idx then count i + 1 else count i

/-- The machine that was picked is counted. -/
theorem picked_self {count : Nat → Nat} {idx m : Nat} (h : count idx = m) :
    ∀ i ∈ [idx], picked count idx i = m + 1 := by
  intro i hi
  rw [List.mem_singleton.mp hi, picked, if_pos rfl, h]

/-- The other machines keep their counts. -/
theorem picked_of_notMem {count : Nat → Nat} {idx m : Nat} {l : List Nat} (hnot : idx ∉ l)
    (h : ∀ i ∈ l, count i = m) : ∀ i ∈ l, picked count idx i = m := by
  intro i hi
  have hne : i ≠ idx := fun heq => hnot (heq ▸ hi)
  rw [picked, if_neg hne, h i hi]

/-- What holds of two queues holds of the queue they make. -/
theorem forall_mem_append_of {count : Nat → Nat} {m : Nat} {l l' : List Nat}
    (h : ∀ i ∈ l, count i = m) (h' : ∀ i ∈ l', count i = m) : ∀ i ∈ l ++ l', count i = m := by
  intro i hi
  rcases List.mem_append.mp hi with hi | hi
  · exact h i hi
  · exact h' i hi

/-- An entry of two lists in a row stands in the first or in the second one. -/
theorem exists_split {waiting served dead rest : List Nat} {idx : Nat}
    (h : waiting ++ served = dead ++ idx :: rest) :
    (∃ waiting', waiting = dead ++ idx :: waiting' ∧ rest = waiting' ++ served)
      ∨ ∃ dead', served = dead' ++ idx :: rest := by
  rcases List.append_eq_append_iff.mp h with ⟨dead', -, hserved⟩ | ⟨mid, hwaiting, hrest⟩
  · exact .inr ⟨dead', hserved⟩
  · cases mid with
    | nil => exact .inr ⟨[], hrest.symm⟩
    | cons k waiting' =>
        rw [List.cons_append, List.cons.injEq] at hrest
        obtain ⟨rfl, rfl⟩ := hrest
        exact .inl ⟨waiting', hwaiting, rfl⟩

/-- **A pick of a live machine keeps the shape**, or leads to the next one. -/
theorem Shape.pick {statuses : List VmStatus} {s : MlfqScheduler} {p : Nat × MlfqScheduler}
    {count : Nat → Nat} (h : s.Shape count) (hnodup : s.queued.Nodup) (hpick : Picks statuses s p)
    (hqueued : ∃ i ∈ s.queued, Live statuses i) : p.2.Shape (picked count p.1) := by
  cases hpick with
  | @high dead idx rest hq hdead hlive =>
      have hqueue : s.queued = dead ++ idx :: (rest ++ s.mid ++ s.low) := by simp [queued, hq]
      obtain ⟨-, hbehind⟩ := notMem_of_nodup hnodup hqueue
      simp only [List.mem_append, not_or] at hbehind
      obtain ⟨⟨hrest, hmid⟩, hlow⟩ := hbehind
      cases h with
      | first hhigh hmid' hlow' =>
          refine .first (picked_of_notMem hrest fun i hi => hhigh i (by simp [hq, hi])) ?_ hlow'
          exact forall_mem_append_of (picked_of_notMem hmid hmid')
            (picked_self (hhigh idx (by simp [hq])))
      | second hhigh => simp [hq] at hhigh
      | @round m hone hhigh hmid' waiting served hlow' hwaiting hserved =>
          -- the machine that is picked was the only one above the low queue
          have hlen : s.high.length = dead.length + (rest.length + 1) := by simp [hq]
          have hlow'' := hlow
          rw [hlow', List.mem_append, not_or] at hlow''
          refine .round m ?_ (picked_of_notMem hrest fun i hi => hhigh i (by simp [hq, hi])) ?_ hlow'
            (picked_of_notMem hlow''.1 hwaiting) (picked_of_notMem hlow''.2 hserved)
          · simp only [List.length_append, List.length_singleton]
            omega
          · exact forall_mem_append_of (picked_of_notMem hmid hmid')
              (picked_self (hhigh idx (by simp [hq])))
  | @mid hhigh dead idx rest hq hdead hlive =>
      have hqueue : s.queued = s.high ++ dead ++ idx :: (rest ++ s.low) := by simp [queued, hq]
      obtain ⟨-, hbehind⟩ := notMem_of_nodup hnodup hqueue
      simp only [List.mem_append, not_or] at hbehind
      obtain ⟨hrest, hlow⟩ := hbehind
      cases h with
      | first _ hmid' hlow' =>
          -- the middle queue is reached: the second round begins
          refine .second rfl (picked_of_notMem hrest fun i hi => hmid' i (by simp [hq, hi])) ?_
          simp only [hlow', List.nil_append]
          exact picked_self (hmid' idx (by simp [hq]))
      | second _ hmid' hlow' =>
          refine .second rfl (picked_of_notMem hrest fun i hi => hmid' i (by simp [hq, hi])) ?_
          exact forall_mem_append_of (picked_of_notMem hlow hlow')
            (picked_self (hmid' idx (by simp [hq])))
      | @round m hone _ hmid' waiting served hlow' hwaiting hserved =>
          have hlen : s.mid.length = dead.length + (rest.length + 1) := by simp [hq]
          rw [hlow', List.mem_append, not_or] at hlow
          -- its third pick in this round, behind which it joins those that were served
          have hserved' : s.low ++ [idx] = waiting ++ (served ++ [idx]) := by simp [hlow']
          refine .round m ?_ (by simp) (picked_of_notMem hrest fun i hi => hmid' i (by simp [hq, hi]))
            hserved' (picked_of_notMem hlow.1 hwaiting) ?_
          · simp only [List.length_nil]
            omega
          · exact forall_mem_append_of (picked_of_notMem hlow.2 hserved)
              (picked_self (hmid' idx (by simp [hq])))
  | @low hhigh hmid dead idx rest hq hdead hlive =>
      have hqueue : s.queued = s.high ++ s.mid ++ dead ++ idx :: rest := by simp [queued, hq]
      obtain ⟨-, hrest⟩ := notMem_of_nodup hnodup hqueue
      cases h with
      | first _ _ hlow' => simp [hlow'] at hq
      | second _ _ hlow' =>
          refine .round 2 (by simp) (picked_self (hlow' idx (by simp [hq]))) (by simp)
            (List.append_nil rest).symm
            (picked_of_notMem hrest fun i hi => hlow' i (by simp [hq, hi])) (by simp)
      | @round m _ _ _ waiting served hlow' hwaiting hserved =>
          rw [hlow'] at hq
          -- the machine that is picked waits in this round, or it was served and begins the next one
          rcases exists_split hq with ⟨waiting', rfl, rfl⟩ | ⟨dead', rfl⟩
          · simp only [List.mem_append, not_or] at hrest
            refine .round m (by simp) (picked_self (hwaiting idx (by simp))) (by simp) rfl
              (picked_of_notMem hrest.1 fun i hi => hwaiting i (by simp [hi]))
              (picked_of_notMem hrest.2 hserved)
          · refine .round (m + 3) (by simp) (picked_self (hserved idx (by simp))) (by simp)
              (List.append_nil rest).symm
              (picked_of_notMem hrest fun i hi => hserved i (by simp [hi])) (by simp)
  | rebuild hhigh hmid hlow =>
      obtain ⟨i, hi, hlive⟩ := hqueued
      rcases mem_queued.mp hi with hi | hi | hi
      · exact absurd hlive (hhigh i hi)
      · exact absurd hlive (hmid i hi)
      · exact absurd hlive (hlow i hi)

/-- A pick leaves no duplicates. -/
theorem Picks.nodup {statuses : List VmStatus} {s : MlfqScheduler} {p : Nat × MlfqScheduler}
    (h : Picks statuses s p) (hnodup : s.queued.Nodup) : p.2.queued.Nodup := by
  cases h with
  | high hq | mid _ hq | low _ _ hq =>
      -- the machine that is picked moves, those before it are gone
      rw [List.nodup_iff_count_le_one] at hnodup ⊢
      intro i
      have hcount := hnodup i
      simp only [queued, hq, List.count_append, List.count_cons, List.count_nil] at hcount ⊢
      omega
  | rebuild =>
      rw [queued, rebuildQueues, List.append_nil, List.append_nil]
      exact List.nodup_range

/-- The queues hold no machine twice and every machine that satisfies `p`, in one of the shapes. -/
structure Balanced (s : MlfqScheduler) (p : Nat → Prop) (count : Nat → Nat) : Prop where
  nodup : s.queued.Nodup
  complete : ∀ i, p i → i ∈ s.queued
  shape : s.Shape count

/-- Rebuilt queues are balanced for machines that were not picked yet. -/
theorem balanced_rebuildQueues (n : Nat) :
    (rebuildQueues n).Balanced (fun i => i < n) (fun _ => 0) := by
  have hqueued : (rebuildQueues n).queued = List.range n := by simp [queued, rebuildQueues]
  refine ⟨?_, ?_, .first (fun _ _ => rfl) (by simp [rebuildQueues]) rfl⟩
  · rw [hqueued]
    exact List.nodup_range
  · intro i hi
    rw [hqueued]
    exact List.mem_range.mpr hi

/-- **A pick keeps balanced queues balanced**, and picks a live machine. -/
theorem Balanced.pick {statuses : List VmStatus} {s : MlfqScheduler} {p : Nat × MlfqScheduler}
    {count : Nat → Nat} (h : s.Balanced (Live statuses) count) (hpick : Picks statuses s p)
    (hlive : ∃ i, Live statuses i) :
    Live statuses p.1 ∧ p.2.Balanced (Live statuses) (picked count p.1) := by
  obtain ⟨i, hi⟩ := hlive
  have hpicked : Live statuses p.1 := by
    cases hpick with
    | high _ _ hidx | mid _ _ _ hidx | low _ _ _ _ hidx => exact hidx
    | rebuild hhigh hmid hlow =>
        rcases mem_queued.mp (h.complete i hi) with hmem | hmem | hmem
        · exact absurd hi (hhigh i hmem)
        · exact absurd hi (hmid i hmem)
        · exact absurd hi (hlow i hmem)
  refine ⟨hpicked, hpick.nodup h.nodup, fun j hj => ?_,
    h.shape.pick h.nodup hpick ⟨i, h.complete i hi, hi⟩⟩
  rcases hpick.eq_or_distance_lt hj (h.complete j hj) with heq | ⟨hmem, -⟩
  · have hrequeued := hpick.requeued hpicked
    rwa [heq] at hrequeued
  · exact hmem

/-- What a history of picks counts. -/
theorem count_concat (picks : List Nat) (idx : Nat) :
    (fun i => (picks ++ [idx]).count i) = picked (fun i => picks.count i) idx := by
  funext i
  rw [picked, List.count_append, List.count_singleton]
  by_cases h : i = idx
  · simp [h]
  · simp [h, Ne.symm h]

/-- The queues a scheduler will work on after some calls are balanced for the machines that were
live in all of them. -/
def BalancedAfter (n : Nat) (calls : List (List VmStatus)) : Prop :=
  ((Component.after pickNext {} calls).ready n).Balanced
    (fun i => i < n ∧ ∀ statuses ∈ calls, Live statuses i)
    (fun i => (Component.trace pickNext {} calls).count i)

/-- One more call picks a live machine and leaves its queues balanced. -/
theorem BalancedAfter.pick {n : Nat} {calls : List (List VmStatus)} {statuses : List VmStatus}
    (h : BalancedAfter n calls) (hlen : statuses.length = n) (hlive : ∃ i, Live statuses i)
    (hfading : ∀ u ∈ calls, Fading u statuses) :
    Live statuses ((Component.after pickNext {} calls).pickNext statuses).1
      ∧ ((Component.after pickNext {} calls).pickNext statuses).2.Balanced (Live statuses)
        (fun i => (Component.trace pickNext {} (calls ++ [statuses])).count i) := by
  have hpicks := picks_pickNext statuses (Component.after pickNext {} calls)
  rw [hlen] at hpicks
  have hbalanced : ((Component.after pickNext {} calls).ready n).Balanced (Live statuses)
      (fun i => (Component.trace pickNext {} calls).count i) :=
    ⟨h.nodup, fun i hi => h.complete i ⟨hlen ▸ hi.lt, fun u hu => hfading u hu i hi⟩, h.shape⟩
  rw [Component.trace_concat, count_concat]
  exact hbalanced.pick hpicks hlive

/-- **Balance along a run** from a new scheduler, while the dead stay dead. -/
theorem balancedAfter {n : Nat} {calls : List (List VmStatus)}
    (hlen : ∀ statuses ∈ calls, statuses.length = n)
    (hlive : ∀ statuses ∈ calls, ∃ i, Live statuses i) (hfading : calls.Pairwise Fading) :
    BalancedAfter n calls := by
  induction calls using List.reverseRecOn with
  | nil =>
      have h := balanced_rebuildQueues n
      exact ⟨h.nodup, fun i hi => h.complete i hi.1, h.shape⟩
  | append_singleton calls statuses ih =>
      rw [List.pairwise_append] at hfading
      obtain ⟨hcalls, -, hlast⟩ := hfading
      have hbefore := ih (fun u hu => hlen u (List.mem_append_left _ hu))
        (fun u hu => hlive u (List.mem_append_left _ hu)) hcalls
      have hmem : statuses ∈ calls ++ [statuses] := by simp
      have hstep := (hbefore.pick (hlen _ hmem) (hlive _ hmem) fun u hu => hlast u hu _ (by simp)).2
      -- a pick initializes the queues, so the next one works on what it left
      have hinit := (picks_pickNext statuses (Component.after pickNext {} calls)).initialized
        (initialized_ready _ _)
      unfold BalancedAfter
      rw [Component.after_concat, ready, if_pos hinit]
      exact ⟨hstep.nodup, fun i hi => hstep.complete i (hi.2 _ hmem), hstep.shape⟩

/-- **MLFQ loses nobody and stays balanced.** From a new scheduler, while the dead stay dead and
somebody is live, every pick is live; behind it the queues hold every live machine exactly once and
none twice; and of any two live machines, neither was picked over three times more than the other. -/
theorem pickNext_balanced {n : Nat} {calls : List (List VmStatus)} {statuses : List VmStatus}
    (hlen : ∀ u ∈ calls ++ [statuses], u.length = n)
    (hlive : ∀ u ∈ calls ++ [statuses], ∃ i, Live u i)
    (hfading : (calls ++ [statuses]).Pairwise Fading) :
    Live statuses ((Component.after pickNext {} calls).pickNext statuses).1
      ∧ (∀ i, Live statuses i →
        (Component.after pickNext {} (calls ++ [statuses])).queued.count i = 1)
      ∧ (∀ i, (Component.after pickNext {} (calls ++ [statuses])).queued.count i ≤ 1)
      ∧ ∀ i j, Live statuses i → Live statuses j →
        (Component.trace pickNext {} (calls ++ [statuses])).count i
          ≤ (Component.trace pickNext {} (calls ++ [statuses])).count j + 3 := by
  rw [List.pairwise_append] at hfading
  obtain ⟨hcalls, -, hlast⟩ := hfading
  have hbefore : BalancedAfter n calls :=
    balancedAfter (fun u hu => hlen u (List.mem_append_left _ hu))
      (fun u hu => hlive u (List.mem_append_left _ hu)) hcalls
  have hmem : statuses ∈ calls ++ [statuses] := by simp
  obtain ⟨hpicked, hbalanced⟩ := hbefore.pick (hlen _ hmem) (hlive _ hmem)
    fun u hu => hlast u hu _ (by simp)
  rw [Component.after_concat]
  refine ⟨hpicked, ?_, ?_, ?_⟩
  · exact fun i hi => List.count_eq_one_of_mem hbalanced.nodup (hbalanced.complete i hi)
  · exact fun i => List.nodup_iff_count_le_one.mp hbalanced.nodup i
  · exact fun i j hi hj =>
      hbalanced.shape.count_le (hbalanced.complete i hi) (hbalanced.complete j hj)

/-- Three live machines, and the third one halts. -/
def thirdHalts : List (List VmStatus) × List VmStatus :=
  ([[.ready, .ready, .ready], [.ready, .ready, .ready]], [.blocked, .ready, .halted])

/-- The theorem for the calls that show `thirdHalts`. -/
theorem pickNext_balanced_thirdHalts :
    (Component.trace pickNext {} (thirdHalts.1 ++ [thirdHalts.2])).count 0
      ≤ (Component.trace pickNext {} (thirdHalts.1 ++ [thirdHalts.2])).count 1 + 3 := by
  have hlive : ∀ u ∈ thirdHalts.1 ++ [thirdHalts.2], ∃ i, Live u i := by
    intro u hu
    refine ⟨0, ?_⟩
    revert u
    decide
  have hfading : (thirdHalts.1 ++ [thirdHalts.2]).Pairwise Fading := by
    have hsame : Fading [.ready, .ready, .ready] [.ready, .ready, .ready] := fun _ hi => hi
    have hhalts : Fading [.ready, .ready, .ready] thirdHalts.2 := by
      intro i hi
      rcases i with _ | _ | _ | i
      · decide
      · decide
      · decide
      · exact absurd hi.lt (by simp [thirdHalts])
    simpa [thirdHalts] using And.intro hsame hhalts
  have h := @pickNext_balanced 3 thirdHalts.1 thirdHalts.2 (by decide) hlive hfading
  exact h.2.2.2 0 1 (by decide) (by decide)

end MlfqScheduler

end VmmShowcase
