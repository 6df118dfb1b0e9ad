import VmmShowcase.Hypervisor.Dispatches
import VmmShowcase.Hypervisor.Ownership
import VmmShowcase.Scheduler.Priority

/-! # The priority scheduler runs machines one after another

A machine that is picked stays the strict choice until it is halted or faulted, for the others change
neither their priorities nor, while they wait, their statuses. So the dispatches of a run are sorted by
priority, and by index where priorities are equal. This holds whatever the machines do: one that migrates
is never done, and keeps all that come behind it waiting. Machines that the scheduler does not see are no
exception, since of these it only ever picks the first one of all, and only when nothing else is left. -/

namespace VmmShowcase

namespace PriorityScheduler

/-- Machine `i` comes before machine `j`, or is that machine. -/
def Precedes (priorities : List Int) (i j : Nat) : Prop :=
  ∀ priority ∈ priorities[i]?, ∀ priority' ∈ priorities[j]?,
    priority' < priority ∨ priority' = priority ∧ i ≤ j

/-- The priority of machine `i` is above the start value of `PickNext`. -/
def Above (priorities : List Int) (i : Nat) : Prop := ∃ priority ∈ priorities[i]?, -1000000 < priority

/-- The strict choice comes before every live machine. -/
theorem StrictChoice.precedes {statuses : List VmStatus} {priorities : List Int} {i j : Nat}
    (h : StrictChoice statuses priorities i) (hj : Live statuses j) : Precedes priorities i j := by
  intro priority hpriority priority' hpriority'
  rcases Int.lt_or_eq_of_le (h.highest j hj priority' hpriority' priority hpriority) with hlt | heq
  · exact .inl hlt
  · refine .inr ⟨heq, h.lowest j hj ?_⟩
    rw [Option.mem_def.mp hpriority, Option.mem_def.mp hpriority', heq]

/-- What is picked comes before every live machine that can be seen. -/
theorem precedes_of_pick {statuses : List VmStatus} {priorities : List Int} {j : Nat}
    (hj : Live statuses j) (habove : Above priorities j) :
    Precedes priorities (pickNext statuses priorities) j := by
  rcases pickNext_cases statuses priorities with ⟨-, hstrict⟩ | ⟨hhidden, -⟩
  · exact hstrict.precedes hj
  · exact absurd ⟨j, hj, habove⟩ hhidden

end PriorityScheduler

/-- The machine that an event says was dispatched. -/
def Event.dispatchedIndex : Event → Option Nat
  | .dispatched idx => some idx
  | _ => none

/-- The machines that were dispatched, in order. -/
def dispatchesOf (log : List Event) : List Nat := log.filterMap Event.dispatchedIndex

namespace HypervisorCore

open PriorityScheduler (Above Precedes)

variable {τ : Type} {transport : Transport τ}

/-- A dispatch is one entry. -/
theorem MigrationLog.dispatchesOf_append {idx : Nat} {vm vm' : VirtualMachine} {events : List Event}
    (h : @MigrationLog τ idx vm vm' events) (log : List Event) :
    dispatchesOf (log ++ .dispatched idx :: events) = dispatchesOf log ++ [idx] := by
  have hnone : dispatchesOf events = [] := by
    rcases h with rfl | ⟨-, packet, outcome, -, rfl⟩
    · rfl
    · refine List.filterMap_eq_nil_iff.mpr fun e he => ?_
      rcases List.mem_append.mp he with he | he
      · obtain ⟨accepted, -, rfl⟩ := List.mem_map.mp he
        rfl
      · rw [List.mem_singleton.mp he]
        split <;> rfl
  rw [dispatchesOf, List.filterMap_append, List.filterMap_cons]
  exact congrArg (dispatchesOf log ++ idx :: ·) hnone

/-- An iteration changes no priority. -/
theorem Turn.priorities_eq {core core' : HypervisorCore τ} (h : core.Turn core') :
    core'.priorities = core.priorities := by
  cases h with
  | skip => rfl
  | dispatch hvm _ hafter hdispatched => exact hdispatched.priorities_eq hvm hafter

/-- The dispatches so far are in order, and come before every live machine that can be seen; one that
cannot be seen is dispatched only at index 0. -/
structure InOrder (priorities : List Int) (core : HypervisorCore τ) : Prop where
  priorities_eq : core.priorities = priorities
  scheduler_eq : core.scheduler = .priority
  sorted : (dispatchesOf core.log).Pairwise (Precedes priorities)
  live : ∀ i ∈ dispatchesOf core.log, ∀ j, Live core.statuses j → Above priorities j →
    Precedes priorities i j
  above : ∀ i ∈ dispatchesOf core.log, (∀ priority ∈ priorities[i]?, -1000000 < priority) ∨ i = 0

/-- What was dispatched comes before the machine that is picked. -/
theorem InOrder.precedes_pick {priorities : List Int} {core : HypervisorCore τ}
    (h : InOrder priorities core) (hlive : Live core.statuses core.pick.1) {i : Nat}
    (hi : i ∈ dispatchesOf core.log) : Precedes priorities i core.pick.1 := by
  have hpick : core.pick.1 = PriorityScheduler.pickNext core.statuses priorities := by
    rw [pick, h.scheduler_eq, h.priorities_eq]
    rfl
  rw [hpick] at hlive ⊢
  intro priority hpriority priority' hpriority'
  rcases PriorityScheduler.pickNext_cases core.statuses priorities with
    ⟨⟨j, hj, best, hbest, hlt⟩, hstrict⟩ | ⟨hhidden, hzero⟩
  · -- the strict choice can be seen, as another machine can
    have hle := hstrict.highest j hj best hbest priority' hpriority'
    exact h.live i hi _ hlive ⟨priority', hpriority', by omega⟩ priority hpriority priority' hpriority'
  · -- no live machine can be seen: the pick is machine 0, with a priority that is not above the start value
    have hle : priority' ≤ -1000000 := by
      by_contra hgt
      exact hhidden ⟨_, hlive, priority', hpriority', by omega⟩
    rw [hzero, Option.mem_def] at hpriority'
    rw [Option.mem_def] at hpriority
    rcases h.above i hi with habove | rfl
    · have hlt := habove priority hpriority
      omega
    · rw [hpriority, Option.some.injEq] at hpriority'
      exact .inr ⟨hpriority'.symm, Nat.zero_le _⟩

/-- An iteration keeps the dispatches in order. -/
theorem InOrder.turn {priorities : List Int} {core core' : HypervisorCore τ}
    (h : InOrder priorities core) (hturn : core.Turn core') : InOrder priorities core' := by
  have hpriorities := hturn.priorities_eq.trans h.priorities_eq
  have hscheduler : core'.scheduler = .priority := by
    rw [hturn.scheduler_eq]
    exact pick_eq_priority_iff.mpr h.scheduler_eq
  have hshrinks {j : Nat} (hj : Live core'.statuses j) : Live core.statuses j := hturn.live hj
  cases hturn with
  | skip => exact ⟨hpriorities, hscheduler, h.sorted, h.live, h.above⟩
  | @dispatch vm vm' _ hvm hlive _ hdispatched =>
      obtain ⟨events, hlog, hevents⟩ := hdispatched.log_eq
      have hpicked : Live core.statuses core.pick.1 := live_statuses_iff.mpr ⟨vm, hvm, hlive⟩
      have hpick : core.pick.1 = PriorityScheduler.pickNext core.statuses priorities := by
        rw [pick, h.scheduler_eq, h.priorities_eq]
        rfl
      have hdispatches : dispatchesOf core'.log = dispatchesOf core.log ++ [core.pick.1] := by
        rw [hlog]
        exact hevents.dispatchesOf_append core.log
      refine ⟨hpriorities, hscheduler, ?_, ?_, ?_⟩
      · -- what was dispatched comes before the pick
        rw [hdispatches]
        refine List.pairwise_append.mpr ⟨h.sorted, List.pairwise_singleton _ _, fun i hi j hj => ?_⟩
        rw [List.mem_singleton.mp hj]
        exact h.precedes_pick hpicked hi
      · -- the pick comes before every other machine that is live and can be seen
        intro i hi j hj habove
        rw [hdispatches] at hi
        rcases List.mem_append.mp hi with hi | hi
        · exact h.live i hi j (hshrinks hj) habove
        · rw [List.mem_singleton.mp hi, hpick]
          exact PriorityScheduler.precedes_of_pick (hshrinks hj) habove
      · -- a pick is a machine that can be seen, or machine 0
        intro i hi
        rw [hdispatches] at hi
        rcases List.mem_append.mp hi with hi | hi
        · exact h.above i hi
        · rw [List.mem_singleton.mp hi, hpick]
          rcases PriorityScheduler.pickNext_cases core.statuses priorities with
            ⟨⟨j, hj, best, hbest, hlt⟩, hstrict⟩ | ⟨-, hzero⟩
          · refine .inl fun priority hpriority => ?_
            have hle := hstrict.highest j hj best hbest priority hpriority
            omega
          · exact .inr hzero

/-- **The priority scheduler runs machines one after another.** For any new machines and any transport,
at every head of the loop of `Run` the dispatches are sorted by priority, higher ones first, and by index
where priorities are equal; and while a machine whose priority is above the start value of `PickNext` is
live, no machine that comes behind it has been dispatched. -/
theorem run_inOrder (machines : List (VmConfig × Program)) (t : τ) (transport : Transport τ)
    {core : HypervisorCore τ}
    (hreach : Loop.Reaches (body transport) (newCore machines .priority t) core) :
    (dispatchesOf core.log).Pairwise (Precedes (machines.map fun p => p.1.priority))
      ∧ ∀ i, Live core.statuses i → Above (machines.map fun p => p.1.priority) i →
        ∀ j ∈ dispatchesOf core.log, Precedes (machines.map fun p => p.1.priority) j i := by
  have hnew : InOrder (machines.map fun p => p.1.priority) (newCore machines .priority t) := by
    refine ⟨?_, rfl, .nil, fun i hi => absurd hi List.not_mem_nil, fun i hi =>
      absurd hi List.not_mem_nil⟩
    rw [priorities, newCore, List.map_map]
    rfl
  have horder : InOrder (machines.map fun p => p.1.priority) core :=
    hreach.invariant (InOrder _) (fun _ _ h hbody => h.turn (turn_of_body hbody)) hnew
  exact ⟨horder.sorted, fun i hi habove j hj => horder.live j hj i hi habove⟩

/-- The theorem behind the first dispatch of the machine with the higher priority. -/
theorem run_inOrder_twoMachines : ∃ core : HypervisorCore Unit, core.log = [.dispatched 1]
    ∧ ∀ i, Live core.statuses i → Above [1, 2] i → ∀ j ∈ dispatchesOf core.log, Precedes [1, 2] j i :=
  ⟨_, rfl, (run_inOrder [({ name := [0x61], memoryBytes := 16 }, VirtualMachine.storeAndLoad),
    ({ name := [0x62], priority := 2, memoryBytes := 16 }, VirtualMachine.storeAndLoad)] ()
    acceptingTransport (.single rfl)).2⟩

end HypervisorCore

end VmmShowcase
