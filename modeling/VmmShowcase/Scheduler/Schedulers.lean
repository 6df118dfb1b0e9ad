import VmmShowcase.Common.Types

/-! # The three schedulers

`include/scheduler/scheduler.hpp` and `src/scheduler/`. `PickNext` is given the statuses and the
priorities of the machines by index, and returns an index and the scheduler's next state. -/

namespace VmmShowcase

/-- There is a machine at this index and it is neither halted nor faulted. -/
def Live (statuses : List VmStatus) (idx : Nat) : Prop :=
  ∃ status, statuses[idx]? = some status ∧ ¬ status.Done

instance (statuses : List VmStatus) (idx : Nat) : Decidable (Live statuses idx) :=
  decidable_of_iff (statuses[idx]?.any (fun status => decide ¬ status.Done) = true)
    (by simp [Live, Option.any_eq_true])

/-- The same machines are live. -/
structure SameLive (statuses statuses' : List VmStatus) : Prop where
  length_eq : statuses'.length = statuses.length
  live_iff : ∀ i, Live statuses' i ↔ Live statuses i

/-- A live machine has an index in range. -/
theorem Live.lt {statuses : List VmStatus} {i : Nat} (h : Live statuses i) :
    i < statuses.length := by
  obtain ⟨status, hstatus, -⟩ := h
  exact (List.getElem?_eq_some_iff.mp hstatus).1

/-! ## Round robin -/

/-- `RoundRobinScheduler`. -/
structure RoundRobinScheduler where
  cursor : Nat := 0
  deriving DecidableEq

/-- The statuses `RoundRobinScheduler` looks for. -/
def RoundRobinScheduler.Runnable (status : VmStatus) : Prop :=
  status = .ready ∨ status = .running ∨ status = .blocked

instance (status : VmStatus) : Decidable (RoundRobinScheduler.Runnable status) :=
  inferInstanceAs (Decidable (_ ∨ _))

/-- `RoundRobinScheduler::PickNext`: the first runnable machine at or behind the cursor. -/
def RoundRobinScheduler.pickNext (s : RoundRobinScheduler) (statuses : List VmStatus) :
    Nat × RoundRobinScheduler :=
  let candidate (i : Nat) := (s.cursor + i) % statuses.length
  match (List.range statuses.length).find? fun i => statuses[candidate i]?.any (Runnable ·) with
  | some i => (candidate i, { cursor := (candidate i + 1) % statuses.length })
  | none => (0, s)

/-! ## Priority -/

/-- The body of the loop in `PriorityScheduler::PickNext`, on the best priority and its index. -/
def PriorityScheduler.consider (statuses : List VmStatus) (priorities : List Int)
    (best : Int × Nat) (i : Nat) : Int × Nat :=
  if Live statuses i then
    match priorities[i]? with
    | some priority => if priority > best.1 then (priority, i) else best
    | none => best
  else best

/-- `PriorityScheduler::PickNext`: the first live machine of the highest priority, among those above
the start value; index 0 if there is none. -/
def PriorityScheduler.pickNext (statuses : List VmStatus) (priorities : List Int) : Nat :=
  ((List.range statuses.length).foldl (consider statuses priorities) (-1000000, 0)).2

/-! ## Multi-level feedback queues -/

/-- `MlfqScheduler`. -/
structure MlfqScheduler where
  initialized : Bool := false
  high : List Nat := []
  mid : List Nat := []
  low : List Nat := []
  deriving DecidableEq

namespace MlfqScheduler

/-- `RebuildQueues`. -/
def rebuildQueues (vmCount : Nat) : MlfqScheduler where
  initialized := true
  high := List.range vmCount

/-- `pickFromQueue`: pop candidates until one is live; the second part is what stays queued. -/
def pickFromQueue (statuses : List VmStatus) : List Nat → Nat × List Nat
  | [] => (if statuses.isEmpty then 0 else statuses.length, [])
  | candidate :: q => if Live statuses candidate then (candidate, q) else pickFromQueue statuses q

/-- `MlfqScheduler::PickNext`. -/
def pickNext (s : MlfqScheduler) (statuses : List VmStatus) : Nat × MlfqScheduler :=
  let s := if s.initialized then s else rebuildQueues statuses.length
  let (idx, high) := pickFromQueue statuses s.high
  if idx < statuses.length then (idx, { s with high := high, mid := s.mid ++ [idx] })
  else
    let (idx, mid) := pickFromQueue statuses s.mid
    if idx < statuses.length then (idx, { s with high := high, mid := mid, low := s.low ++ [idx] })
    else
      let (idx, low) := pickFromQueue statuses s.low
      if idx < statuses.length then
        (idx, { s with high := high ++ [idx], mid := mid, low := low })
      else (0, rebuildQueues statuses.length)

/-- `NotifyRan`; nothing in the repository calls it. -/
def notifyRan (s : MlfqScheduler) (vmIndex : Nat) : MlfqScheduler :=
  { s with low := s.low ++ [vmIndex] }

end MlfqScheduler

/-! ## The interface -/

/-- `IScheduler`, one of its three implementations. -/
inductive Scheduler where
  | roundRobin (s : RoundRobinScheduler)
  | priority
  | mlfq (s : MlfqScheduler)
  deriving DecidableEq

/-- `IScheduler::PickNext`. -/
def Scheduler.pickNext (scheduler : Scheduler) (statuses : List VmStatus) (priorities : List Int) :
    Nat × Scheduler :=
  match scheduler with
  | .roundRobin s => ((s.pickNext statuses).1, .roundRobin (s.pickNext statuses).2)
  | .priority => (PriorityScheduler.pickNext statuses priorities, .priority)
  | .mlfq s => ((s.pickNext statuses).1, .mlfq (s.pickNext statuses).2)

end VmmShowcase
