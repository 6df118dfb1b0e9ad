import Mathlib.Data.List.TakeWhile
import VmmShowcase.Foundations.Turns
import VmmShowcase.Scheduler.Balance
import VmmShowcase.Scheduler.RoundRobin

/-! # The turns that schedulers give

Round robin gives each of the other machines one turn before a live one, if the cursor comes to it
first. MLFQ gives up to three: a machine in front of another one in the low queue is picked there, comes to
the high queue, and is picked again from there and from the middle queue before it joins the end. The
priority scheduler gives no turns, since it picks one machine as long as that is live. -/

namespace VmmShowcase

/-- `IScheduler::PickNext` on what `Run` passes to it. -/
def Scheduler.serve (scheduler : Scheduler) (seen : List VmStatus × List Int) : Nat × Scheduler :=
  scheduler.pickNext seen.1 seen.2

/-- What `Run` passes to `PickNext` later, for `n` machines: those that were halted or faulted are so
still. -/
def Scheduler.Later (n : Nat) (seen seen' : List VmStatus × List Int) : Prop :=
  seen'.1.length = n ∧ Fading seen.1 seen'.1

namespace RoundRobinScheduler

/-- Behind a candidate, an index that was passed is ahead by the rest of the round. -/
theorem ahead_passed {cursor n j k : Nat} (hj : j < n) (hk : k < n) (hjk : ahead cursor n j < k) :
    ahead (((cursor + k) % n + 1) % n) n j = ahead cursor n j + n - k - 1 := by
  have hnext : (((cursor + k) % n + 1) % n + (ahead cursor n j + n - k - 1)) % n = j := by
    rw [Nat.mod_add_mod, Nat.add_assoc, Nat.mod_add_mod]
    have hsum : cursor + k + (1 + (ahead cursor n j + n - k - 1)) = cursor + ahead cursor n j + n := by
      omega
    rw [hsum, Nat.add_mod_right, add_ahead_mod cursor hj]
  have hrest : ahead cursor n j + n - k - 1 < n := by omega
  have hdist := ahead_eq (((cursor + k) % n + 1) % n) hrest
  rwa [hnext] at hdist

/-- **A pick puts nobody in front.** While another machine is picked, the one picked was in front of a
live machine `i` and is no longer, and those that are still in front of it were. -/
theorem inFront_of_pick {statuses : List VmStatus} {i : Nat} (hi : Live statuses i)
    {s : RoundRobinScheduler} (hne : (s.pickNext statuses).1 ≠ i) :
    ahead s.cursor statuses.length (s.pickNext statuses).1 < ahead s.cursor statuses.length i
      ∧ ∀ j < statuses.length, ahead (s.pickNext statuses).2.cursor statuses.length j
          < ahead (s.pickNext statuses).2.cursor statuses.length i →
        j ≠ (s.pickNext statuses).1 ∧ ahead s.cursor statuses.length j
          < ahead s.cursor statuses.length i := by
  obtain ⟨k, hk, hlive, hpick⟩ := exists_pickNext hi s
  have hn : ahead s.cursor statuses.length i < statuses.length :=
    Nat.mod_lt _ (by have := hi.lt; omega)
  have hlt : k < ahead s.cursor statuses.length i := by
    rcases Nat.eq_or_lt_of_le hk with rfl | hlt
    · exact absurd (by rw [hpick, add_ahead_mod s.cursor hi.lt]) hne
    · exact hlt
  have hpicked : ahead s.cursor statuses.length ((s.cursor + k) % statuses.length) = k :=
    ahead_eq s.cursor (by omega)
  have hcloser := ahead_behind hi.lt hlt
  rw [hpick, hpicked, hcloser]
  refine ⟨hlt, fun j hj hfront => ?_⟩
  rcases Nat.lt_trichotomy (ahead s.cursor statuses.length j) k with hjk | hjk | hjk
  · -- the cursor has passed `j`, which is now behind `i`
    rw [ahead_passed hj (by omega) hjk] at hfront
    omega
  · -- `j` is the machine that was picked
    have hj' : (s.cursor + k) % statuses.length = j := by
      rw [← hjk, add_ahead_mod s.cursor hj]
    rw [hj', ahead_succ_self hj] at hfront
    omega
  · rw [ahead_behind hj hjk] at hfront
    refine ⟨fun hj' => ?_, by omega⟩
    rw [hj', hpicked] at hjk
    exact absurd hjk (Nat.lt_irrefl k)

/-- A pick of a live machine. -/
theorem live_pickNext {statuses : List VmStatus} {i : Nat} (hi : Live statuses i)
    (s : RoundRobinScheduler) : Live statuses (s.pickNext statuses).1 := by
  obtain ⟨k, -, hlive, hpick⟩ := exists_pickNext hi s
  rwa [hpick]

/-- Machine `j` has one turn before machine `i` if the cursor comes to it first. -/
def turns (n : Nat) (s : RoundRobinScheduler) (i j : Nat) : Nat :=
  if ahead s.cursor n j < ahead s.cursor n i then 1 else 0

/-- **A pick of another machine uses up its turn**, and gives none to the others. -/
theorem turns_pickNext_le {statuses : List VmStatus} {i : Nat} (hi : Live statuses i)
    {s : RoundRobinScheduler} (hne : (s.pickNext statuses).1 ≠ i) {j : Nat} (hj : j < statuses.length) :
    turns statuses.length (s.pickNext statuses).2 i j + (if (s.pickNext statuses).1 = j then 1 else 0)
      ≤ turns statuses.length s i j := by
  obtain ⟨hfront, hnobody⟩ := inFront_of_pick hi hne
  by_cases hstill : ahead (s.pickNext statuses).2.cursor statuses.length j
      < ahead (s.pickNext statuses).2.cursor statuses.length i
  · -- a machine that is still in front of `i` was, and was not picked
    obtain ⟨hother, hwas⟩ := hnobody j hj hstill
    rw [turns, turns, if_pos hstill, if_pos hwas, if_neg hother.symm]
  · rw [turns, if_neg hstill, Nat.zero_add]
    -- only the machine that was picked had a turn that is gone
    split
    · next heq => rw [turns, ← heq, if_pos hfront]
    · exact Nat.zero_le _

end RoundRobinScheduler

namespace MlfqScheduler

/-- How often machine `j` is queued before machine `i`, from where it is queued on: behind the pick from
the high queue there is one from the middle queue, and behind the one from the low queue there are these
two. -/
def turns (s : MlfqScheduler) (i j : Nat) : Nat :=
  if i ∈ s.high then (s.high.takeWhile (· ≠ i)).count j
  else if i ∈ s.mid then s.high.count j + (s.mid.takeWhile (· ≠ i)).count j
  else 2 * s.high.count j + s.mid.count j + 3 * (s.low.takeWhile (· ≠ i)).count j

/-- The turns of a machine that is popped with dead ones before it, and those behind it. -/
theorem takeWhile_of_popped {statuses : List VmStatus} {q dead rest : List Nat} {idx i : Nat}
    (hq : q = dead ++ idx :: rest) (hdead : ∀ d ∈ dead, ¬ Live statuses d)
    (hi : Live statuses i) (hne : idx ≠ i) (hmem : i ∈ q) :
    i ∈ rest ∧ q.takeWhile (· ≠ i) = dead ++ idx :: rest.takeWhile (· ≠ i) := by
  obtain ⟨hrest, -⟩ := idxOf_of_popped hq hdead hi hne hmem
  have hnotdead : ∀ d ∈ dead, decide (d ≠ i) = true := by
    intro d hd
    refine decide_eq_true fun heq => ?_
    exact hdead d hd (heq ▸ hi)
  refine ⟨hrest, ?_⟩
  rw [hq, List.takeWhile_append_of_pos hnotdead, List.takeWhile_cons, if_pos (decide_eq_true hne)]

/-- What is queued behind a machine is not in front of it. -/
theorem takeWhile_of_mem {q : List Nat} {i : Nat} (h : i ∈ q) (behind : List Nat) :
    (q ++ behind).takeWhile (· ≠ i) = q.takeWhile (· ≠ i) := by
  induction q with
  | nil => cases h
  | cons b q ih =>
      rw [List.cons_append, List.takeWhile_cons, List.takeWhile_cons]
      by_cases hb : b = i
      · simp [hb]
      · rw [ih ((List.mem_cons.mp h).resolve_left (Ne.symm hb))]

/-- What is popped up to the pick, and what stays. -/
theorem count_popped (dead rest : List Nat) (idx j : Nat) : (dead ++ idx :: rest).count j
    = dead.count j + (if idx = j then 1 else 0) + rest.count j := by
  rw [List.append_cons, List.count_append, List.count_append, List.count_singleton]
  simp only [beq_iff_eq]

/-- The pick joins a queue. -/
theorem count_joined (q : List Nat) (idx j : Nat) :
    (q ++ [idx]).count j = q.count j + (if idx = j then 1 else 0) := by
  rw [List.count_append, List.count_singleton]
  simp only [beq_iff_eq]

/-- A machine is not in front of itself. -/
theorem turns_self (s : MlfqScheduler) (i : Nat) : s.turns i i = 0 := by
  have hfront (q : List Nat) : (q.takeWhile (· ≠ i)).count i = 0 := by
    refine List.count_eq_zero.mpr fun hmem => ?_
    simpa using List.mem_takeWhile_imp hmem
  rw [turns, hfront, hfront, hfront]
  split
  · rfl
  · next hhigh =>
      split
      · rw [List.count_eq_zero.mpr hhigh]
      · next hmid => rw [List.count_eq_zero.mpr hhigh, List.count_eq_zero.mpr hmid]

/-- Queues without duplicates give at most three turns. -/
theorem turns_le {s : MlfqScheduler} (h : s.queued.Nodup) (i j : Nat) : s.turns i j ≤ 3 := by
  have hfront (q : List Nat) : (q.takeWhile (· ≠ i)).count j ≤ q.count j :=
    (List.takeWhile_sublist _).count_le j
  have hhigh := hfront s.high
  have hmid := hfront s.mid
  have hlow := hfront s.low
  have hone := List.nodup_iff_count_le_one.mp h j
  rw [queued, List.count_append, List.count_append] at hone
  rw [turns]
  split
  · omega
  · split <;> omega

/-- **A pick of another machine uses up one of its turns**, and gives none to the others. -/
theorem Picks.turns_le {statuses : List VmStatus} {s : MlfqScheduler} {p : Nat × MlfqScheduler}
    (h : Picks statuses s p) {i : Nat} (hi : Live statuses i) (hmem : i ∈ s.queued) (hne : p.1 ≠ i)
    (j : Nat) : p.2.turns i j + (if p.1 = j then 1 else 0) ≤ s.turns i j := by
  have hnotMem : ∀ q : List Nat, (∀ d ∈ q, ¬ Live statuses d) → i ∉ q := fun q hq h => hq i h hi
  rw [mem_queued] at hmem
  cases h with
  | @high dead idx rest hq hdead hlive =>
      have hcount : s.high.count j = dead.count j + (if idx = j then 1 else 0) + rest.count j :=
        hq ▸ count_popped dead rest idx j
      have hjoined := count_joined s.mid idx j
      by_cases hhigh : i ∈ s.high
      · -- both are in the high queue: the pick is in front there
        obtain ⟨hrest, hfront⟩ := takeWhile_of_popped hq hdead hi hne hhigh
        simp only [turns, if_pos hhigh, if_pos hrest, hfront, count_popped]
        omega
      · have hrest : i ∉ rest := fun h => hhigh (by simp [hq, h])
        by_cases hmid : i ∈ s.mid
        · -- the pick joins the middle queue behind the machine
          simp only [turns, if_neg hhigh, if_neg hrest, if_pos hmid,
            if_pos (List.mem_append_left [idx] hmid), takeWhile_of_mem hmid]
          omega
        · -- the machine is in the low queue, and one of the two turns from above it is used
          have hmid' : i ∉ s.mid ++ [idx] := by simp [hmid, Ne.symm hne]
          simp only [turns, if_neg hhigh, if_neg hrest, if_neg hmid, if_neg hmid']
          omega
  | @mid hhigh dead idx rest hq hdead hlive =>
      have hcount : s.mid.count j = dead.count j + (if idx = j then 1 else 0) + rest.count j :=
        hq ▸ count_popped dead rest idx j
      have hhigh' := hnotMem s.high hhigh
      by_cases hmid : i ∈ s.mid
      · obtain ⟨hrest, hfront⟩ := takeWhile_of_popped hq hdead hi hne hmid
        simp only [turns, if_neg hhigh', if_pos hmid, if_pos hrest, List.not_mem_nil, if_false,
          List.count_nil, hfront, count_popped]
        omega
      · -- the pick joins the low queue behind the machine
        have hlow : i ∈ s.low := (hmem.resolve_left hhigh').resolve_left hmid
        have hrest : i ∉ rest := fun h => hmid (by simp [hq, h])
        simp only [turns, if_neg hhigh', if_neg hmid, if_neg hrest, List.not_mem_nil, if_false,
          List.count_nil, takeWhile_of_mem hlow]
        omega
  | @low hhigh hmid dead idx rest hq hdead hlive =>
      have hhigh' := hnotMem s.high hhigh
      have hmid' := hnotMem s.mid hmid
      have hlow : i ∈ s.low := (hmem.resolve_left hhigh').resolve_left hmid'
      obtain ⟨hrest, hfront⟩ := takeWhile_of_popped hq hdead hi hne hlow
      -- the pick is in front of the machine once more, in the high queue, for two picks
      have hidx' : i ∉ [idx] := by simp [Ne.symm hne]
      have hjoined : [idx].count j = 0 + (if idx = j then 1 else 0) := count_joined [] idx j
      simp only [turns, if_neg hhigh', if_neg hmid', if_neg hidx', List.not_mem_nil, if_false,
        List.count_nil, hfront, count_popped]
      omega
  | rebuild hhigh hmid hlow =>
      rcases hmem with h | h | h
      · exact absurd hi (hhigh i h)
      · exact absurd hi (hmid i h)
      · exact absurd hi (hlow i h)

end MlfqScheduler

namespace Scheduler

/-- A round-robin scheduler of any cursor, shown `n` machines. -/
def RoundRobin (n : Nat) (scheduler : Scheduler) (seen : List VmStatus × List Int) : Prop :=
  seen.1.length = n ∧ ∃ s, scheduler = .roundRobin s

/-- An MLFQ scheduler shown `n` machines, whose queues are balanced and hold every live one. -/
def Mlfq (n : Nat) (scheduler : Scheduler) (seen : List VmStatus × List Int) : Prop :=
  seen.1.length = n ∧ ∃ s count, scheduler = .mlfq s ∧ (s.ready n).Balanced (Live seen.1) count

/-- The turns that machine `j` can have before machine `i`, of `n` machines. -/
def turns (n : Nat) : Scheduler → Nat → Nat → Nat
  | .roundRobin s => s.turns n
  | .mlfq s => (s.ready n).turns
  | .priority => fun _ _ => 0

/-- **Round robin gives every machine one turn.** -/
theorem givesTurns_roundRobin (n : Nat) :
    GivesTurns (Finset.range n) 1 serve (fun seen => Live seen.1) (Later n) (RoundRobin n) (turns n) where
  serves := by
    rintro _ seen i ⟨rfl, s, rfl⟩ hi
    exact ⟨Finset.mem_range.mpr hi.lt, s.live_pickNext hi⟩
  keeps := by
    rintro _ seen seen' ⟨-, s, rfl⟩ - hlater
    exact ⟨hlater.1, (s.pickNext seen.1).2, rfl⟩
  uses := by
    rintro _ seen i ⟨rfl, s, rfl⟩ hi hne j hj
    exact RoundRobinScheduler.turns_pickNext_le hi hne (Finset.mem_range.mp hj)
  le_most := by
    rintro _ seen ⟨-, s, rfl⟩ i j
    show RoundRobinScheduler.turns n s i j ≤ 1
    rw [RoundRobinScheduler.turns]
    split <;> omega
  self := by
    rintro _ seen ⟨-, s, rfl⟩ i
    exact if_neg (Nat.lt_irrefl _)

/-- **MLFQ gives every machine three turns.** -/
theorem givesTurns_mlfq (n : Nat) :
    GivesTurns (Finset.range n) 3 serve (fun seen => Live seen.1) (Later n) (Mlfq n) (turns n) where
  serves := by
    rintro _ seen i ⟨rfl, s, count, rfl, hbalanced⟩ hi
    have hpicks := MlfqScheduler.picks_pickNext seen.1 s
    exact ⟨Finset.mem_range.mpr hi.lt, (hbalanced.pick hpicks ⟨i, hi⟩).1⟩
  keeps := by
    rintro _ seen seen' ⟨rfl, s, count, rfl, hbalanced⟩ hlive hlater
    have hpicks := MlfqScheduler.picks_pickNext seen.1 s
    have hinitialized := hpicks.initialized (MlfqScheduler.initialized_ready s _)
    obtain ⟨-, hafter⟩ := hbalanced.pick hpicks ⟨_, hlive⟩
    -- the queues are not built again
    have hready : (s.pickNext seen.1).2.ready seen.1.length = (s.pickNext seen.1).2 :=
      if_pos hinitialized
    refine ⟨hlater.1, (s.pickNext seen.1).2, MlfqScheduler.picked count (s.pickNext seen.1).1, rfl, ?_⟩
    rw [hready]
    exact ⟨hafter.nodup, fun i hi => hafter.complete i (hlater.2 i hi), hafter.shape⟩
  uses := by
    rintro _ seen i ⟨rfl, s, count, rfl, hbalanced⟩ hi hne j -
    have hpicks := MlfqScheduler.picks_pickNext seen.1 s
    have hinitialized := hpicks.initialized (MlfqScheduler.initialized_ready s _)
    have hturns := hpicks.turns_le hi (hbalanced.complete i hi) hne j
    show ((s.pickNext seen.1).2.ready _).turns i j + _ ≤ _
    rwa [MlfqScheduler.ready, if_pos hinitialized]
  le_most := by
    rintro _ seen ⟨-, s, count, rfl, hbalanced⟩ i j
    exact MlfqScheduler.turns_le hbalanced.nodup i j
  self := by
    rintro _ seen ⟨-, s, count, rfl, -⟩ i
    exact MlfqScheduler.turns_self _ i

end Scheduler

end VmmShowcase
