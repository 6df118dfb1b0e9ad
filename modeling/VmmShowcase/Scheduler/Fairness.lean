import VmmShowcase.Scheduler.Mlfq
import VmmShowcase.Scheduler.Priority
import VmmShowcase.Scheduler.RoundRobin

/-! # Progress and fairness of the schedulers

Two facts about all three schedulers carry the results about the scheduling loop. While a machine is
live, a pick is a live machine, or it is MLFQ's answer after a rebuild of its queues and the next pick
is live. A machine that was just picked and stays live is picked again after finitely many picks. -/

namespace VmmShowcase

namespace Scheduler

/-- 1 if an MLFQ scheduler has no live machine queued and is about to rebuild its queues. -/
def stale (scheduler : Scheduler) (statuses : List VmStatus) : Nat :=
  match scheduler with
  | .mlfq s => if ∀ i ∈ (s.ready statuses.length).queued, ¬ Live statuses i then 1 else 0
  | .roundRobin _ | .priority => 0

/-- `stale` is 0 or 1. -/
theorem stale_le_one (scheduler : Scheduler) (statuses : List VmStatus) :
    scheduler.stale statuses ≤ 1 := by
  cases scheduler with
  | roundRobin | priority => exact Nat.zero_le 1
  | mlfq s =>
      rw [stale]
      split <;> omega

/-- **Progress.** While a machine is live, with a priority above the start value if that matters, a
pick is a live machine, or the queues were rebuilt and are no longer stale. -/
theorem pick_live_or_stale {scheduler : Scheduler} {statuses : List VmStatus}
    {priorities : List Int} {i : Nat} (hi : Live statuses i)
    (hpriority : scheduler = .priority →
      ∃ priority, priorities[i]? = some priority ∧ -1000000 < priority) :
    Live statuses (scheduler.pickNext statuses priorities).1
      ∨ scheduler.stale statuses = 1 ∧ (scheduler.pickNext statuses priorities).2.stale statuses = 0 := by
  cases scheduler with
  | roundRobin s =>
      obtain ⟨k, -, hlive, hpick⟩ := RoundRobinScheduler.exists_pickNext hi s
      exact .inl (by rwa [pickNext, hpick])
  | priority =>
      obtain ⟨priority, hp, habove⟩ := hpriority rfl
      exact .inl (PriorityScheduler.live_pickNext hi hp habove)
  | mlfq s =>
      have hpicks := MlfqScheduler.picks_pickNext statuses s
      rw [pickNext]
      generalize s.pickNext statuses = p at hpicks ⊢
      cases hpicks with
      | high _ _ hlive => exact .inl hlive
      | mid _ _ _ hlive => exact .inl hlive
      | low _ _ _ _ hlive => exact .inl hlive
      | rebuild hhigh hmid hlow =>
          refine .inr ⟨?_, ?_⟩
          · refine if_pos fun j hj => ?_
            rcases MlfqScheduler.mem_queued.mp hj with h | h | h
            · exact hhigh j h
            · exact hmid j h
            · exact hlow j h
          · -- the rebuilt high queue holds every machine
            refine if_neg fun hdead => hdead i ?_ hi
            exact MlfqScheduler.mem_queued.mpr (.inl (List.mem_range.mpr hi.lt))

/-- The scheduler will come to machine `i` as long as it stays live. -/
def Tracks (scheduler : Scheduler) (statuses : List VmStatus) (priorities : List Int) (i : Nat) :
    Prop :=
  match scheduler with
  | .roundRobin _ => True
  | .priority => PriorityScheduler.pickNext statuses priorities = i
  | .mlfq s => s.initialized = true ∧ i ∈ s.queued

/-- A bound on the picks of other machines before that of machine `i`. -/
def distance (scheduler : Scheduler) (vmCount i : Nat) : Nat :=
  match scheduler with
  | .roundRobin s => RoundRobinScheduler.ahead s.cursor vmCount i
  | .priority => 0
  | .mlfq s => s.distance i

/-- A live machine that was picked and stays live is tracked. -/
theorem tracks_of_pick {scheduler : Scheduler} {statuses statuses' : List VmStatus}
    {priorities : List Int} {i : Nat} (hpick : (scheduler.pickNext statuses priorities).1 = i)
    (hi : Live statuses i) (hsame : SameLive statuses statuses') :
    (scheduler.pickNext statuses priorities).2.Tracks statuses' priorities i := by
  cases scheduler with
  | roundRobin s => exact trivial
  | priority =>
      show PriorityScheduler.pickNext statuses' priorities = i
      rw [PriorityScheduler.pickNext_congr hsame]
      exact hpick
  | mlfq s =>
      have hpicks := MlfqScheduler.picks_pickNext statuses s
      have hpick : (s.pickNext statuses).1 = i := hpick
      refine ⟨hpicks.initialized (s.initialized_ready _), ?_⟩
      have hmem := hpicks.requeued (by rwa [hpick])
      rwa [hpick] at hmem

/-- **Fairness.** A pick from a scheduler that tracks a live machine is that machine, or brings it
closer to its turn and keeps it tracked. -/
theorem pick_or_distance_lt {scheduler : Scheduler} {statuses : List VmStatus}
    {priorities : List Int} {i : Nat} (htracks : scheduler.Tracks statuses priorities i)
    (hi : Live statuses i) :
    (scheduler.pickNext statuses priorities).1 = i
      ∨ (scheduler.pickNext statuses priorities).2.distance statuses.length i
          < scheduler.distance statuses.length i
        ∧ ∀ statuses', (scheduler.pickNext statuses priorities).2.Tracks statuses' priorities i := by
  cases scheduler with
  | roundRobin s =>
      rcases RoundRobinScheduler.pick_or_ahead_lt hi s with h | h
      · exact .inl h
      · exact .inr ⟨h, fun _ => trivial⟩
  | priority => exact .inl htracks
  | mlfq s =>
      obtain ⟨hinit, hmem⟩ := htracks
      have hpicks := MlfqScheduler.picks_pickNext statuses s
      have hready : s.ready statuses.length = s := if_pos hinit
      rw [hready] at hpicks
      rcases hpicks.eq_or_distance_lt hi hmem with h | ⟨hmem', hlt⟩
      · exact .inl h
      · exact .inr ⟨hlt, fun _ => ⟨hpicks.initialized hinit, hmem'⟩⟩

end Scheduler

end VmmShowcase
