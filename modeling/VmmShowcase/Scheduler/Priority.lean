import Mathlib.Data.List.Basic
import VmmShowcase.Scheduler.Schedulers

/-! # Priority picks

`PickNext` starts from a fixed priority and index 0, so its pick is a live machine only while one
has a priority above the start value. With one, it is the strict choice: the first of the live machines
of the highest priority. -/

namespace VmmShowcase

namespace PriorityScheduler

/-- What the loop of `PickNext` has found after `m` machines: nothing but its start value, or a live
machine. With a live machine above the start value among them, it has found one. -/
structure Found (statuses : List VmStatus) (priorities : List Int) (m : Nat) (best : Int × Nat) :
    Prop where
  live : best = (-1000000, 0) ∨ Live statuses best.2
  ge : ∀ i < m, Live statuses i → ∀ priority, priorities[i]? = some priority → priority ≤ best.1

/-- What was found before stays true of a result that is no worse and covers the next machine. -/
theorem Found.succ {statuses : List VmStatus} {priorities : List Int} {m : Nat}
    {best best' : Int × Nat} (h : Found statuses priorities m best)
    (hlive : best' = (-1000000, 0) ∨ Live statuses best'.2) (hle : best.1 ≤ best'.1)
    (hnext : Live statuses m → ∀ priority, priorities[m]? = some priority → priority ≤ best'.1) :
    Found statuses priorities (m + 1) best' := by
  refine ⟨hlive, ?_⟩
  intro i hi hlive' priority hpriority
  rcases Nat.lt_succ_iff_lt_or_eq.mp hi with hi | rfl
  · exact Int.le_trans (h.ge i hi hlive' priority hpriority) hle
  · exact hnext hlive' priority hpriority

/-- One round of the loop. -/
theorem Found.consider {statuses : List VmStatus} {priorities : List Int} {m : Nat}
    {best : Int × Nat} (h : Found statuses priorities m best) :
    Found statuses priorities (m + 1) (consider statuses priorities best m) := by
  unfold PriorityScheduler.consider
  by_cases hlive : Live statuses m
  · rw [if_pos hlive]
    cases hp : priorities[m]? with
    | none =>
        refine h.succ h.live (Int.le_refl _) ?_
        intro _ priority hpriority
        rw [hp] at hpriority
        cases hpriority
    | some priority =>
        by_cases hgt : priority > best.1
        · simp only [if_pos hgt]
          refine h.succ (.inr hlive) (Int.le_of_lt hgt) ?_
          intro _ priority' hpriority
          rw [hp, Option.some.injEq] at hpriority
          exact Int.le_of_eq hpriority.symm
        · -- a tie leaves the earlier machine
          simp only [if_neg hgt]
          refine h.succ h.live (Int.le_refl _) ?_
          intro _ priority' hpriority
          rw [hp, Option.some.injEq] at hpriority
          omega
  · rw [if_neg hlive]
    exact h.succ h.live (Int.le_refl _) fun hlive' => absurd hlive' hlive

/-- What the loop has found at its end. -/
theorem found_range (statuses : List VmStatus) (priorities : List Int) (m : Nat) :
    Found statuses priorities m
      ((List.range m).foldl (consider statuses priorities) (-1000000, 0)) := by
  induction m with
  | zero => exact ⟨.inl rfl, fun i hi => absurd hi (Nat.not_lt_zero i)⟩
  | succ m ih =>
      rw [List.range_succ, List.foldl_append, List.foldl_cons, List.foldl_nil]
      exact ih.consider

/-- While a live machine has a priority above the start value, the pick is live. -/
theorem live_pickNext {statuses : List VmStatus} {priorities : List Int} {i : Nat}
    (hi : Live statuses i) {priority : Int} (hp : priorities[i]? = some priority)
    (habove : -1000000 < priority) : Live statuses (pickNext statuses priorities) := by
  obtain ⟨hlive, hge⟩ := found_range statuses priorities statuses.length
  rcases hlive with hstart | hlive
  · have hle := hge i hi.lt hi priority hp
    rw [hstart] at hle
    omega
  · exact hlive

/-- A priority pick only looks at which machines are live, and at the priorities. -/
theorem pickNext_congr {statuses statuses' : List VmStatus} (h : SameLive statuses statuses')
    (priorities : List Int) : pickNext statuses' priorities = pickNext statuses priorities := by
  have hconsider : consider statuses' priorities = consider statuses priorities := by
    funext best i
    simp only [consider, h.live_iff]
  rw [pickNext, pickNext, hconsider, h.length_eq]

/-! ## Strict choice -/

/-- `idx` is the lowest index among the live machines of the highest priority. -/
structure StrictChoice (statuses : List VmStatus) (priorities : List Int) (idx : Nat) : Prop where
  live : Live statuses idx
  highest : ∀ i, Live statuses i → ∀ priority ∈ priorities[i]?, ∀ best ∈ priorities[idx]?,
    priority ≤ best
  lowest : ∀ i, Live statuses i → priorities[i]? = priorities[idx]? → idx ≤ i

/-- The best priority found belongs to the machine it was found with, and no live machine before that
one has it. -/
structure Leads (statuses : List VmStatus) (priorities : List Int) (best : Int × Nat) : Prop where
  priority_eq : priorities[best.2]? = some best.1
  above : -1000000 < best.1
  first : ∀ i < best.2, Live statuses i → ∀ priority, priorities[i]? = some priority →
    priority < best.1

/-- One round of the loop, on what it has found. -/
theorem Leads.consider {statuses : List VmStatus} {priorities : List Int} {m : Nat}
    {best : Int × Nat} (hfound : Found statuses priorities m best)
    (h : best = (-1000000, 0) ∨ Leads statuses priorities best) :
    PriorityScheduler.consider statuses priorities best m = (-1000000, 0)
      ∨ Leads statuses priorities (PriorityScheduler.consider statuses priorities best m) := by
  unfold PriorityScheduler.consider
  by_cases hlive : Live statuses m
  · rw [if_pos hlive]
    cases hp : priorities[m]? with
    | none => exact h
    | some priority =>
        by_cases hgt : priority > best.1
        · -- everything before this machine is no better than what it beats
          simp only [if_pos hgt]
          have habove : -1000000 < priority := by
            rcases h with rfl | hleads
            · exact hgt
            · exact Int.lt_trans hleads.above hgt
          refine .inr ⟨hp, habove, ?_⟩
          intro i hi hlive' priority' hpriority
          exact Int.lt_of_le_of_lt (hfound.ge i hi hlive' priority' hpriority) hgt
        · simp only [if_neg hgt]
          exact h
  · rw [if_neg hlive]
    exact h

/-- What the loop has found at its end leads. -/
theorem leads_range (statuses : List VmStatus) (priorities : List Int) (m : Nat) :
    (List.range m).foldl (consider statuses priorities) (-1000000, 0) = (-1000000, 0)
      ∨ Leads statuses priorities
        ((List.range m).foldl (consider statuses priorities) (-1000000, 0)) := by
  induction m with
  | zero => exact .inl rfl
  | succ m ih =>
      rw [List.range_succ, List.foldl_append, List.foldl_cons, List.foldl_nil]
      exact Leads.consider (found_range statuses priorities m) ih

/-- There is a live machine whose priority is above the start value. -/
def Visible (statuses : List VmStatus) (priorities : List Int) : Prop :=
  ∃ i, Live statuses i ∧ ∃ priority ∈ priorities[i]?, -1000000 < priority

/-- **Inversion of a priority pick.** A visible machine gives the strict choice, and without one the
pick is index 0, whoever is there. -/
theorem pickNext_cases (statuses : List VmStatus) (priorities : List Int) :
    (Visible statuses priorities
        ∧ StrictChoice statuses priorities (pickNext statuses priorities))
      ∨ ¬ Visible statuses priorities ∧ pickNext statuses priorities = 0 := by
  obtain ⟨hlive, hge⟩ := found_range statuses priorities statuses.length
  have hleads := leads_range statuses priorities statuses.length
  rw [← pickNext] at hlive
  generalize hbest : (List.range statuses.length).foldl (consider statuses priorities)
    (-1000000, 0) = best at hlive hge hleads
  have hpick : pickNext statuses priorities = best.2 := by rw [pickNext, hbest]
  rcases hleads with hstart | hleads
  · refine .inr ⟨?_, by rw [hpick, hstart]⟩
    rintro ⟨i, hi, priority, hpriority, habove⟩
    have hle := hge i hi.lt hi priority hpriority
    rw [hstart] at hle
    omega
  · have hlive' : Live statuses best.2 := by
      rcases hlive with hstart | hlive
      · have habove := hleads.above
        rw [hstart] at habove
        exact absurd habove (Int.lt_irrefl _)
      · exact hpick ▸ hlive
    refine .inl ⟨⟨best.2, hlive', best.1, hleads.priority_eq, hleads.above⟩, ?_⟩
    rw [hpick]
    refine ⟨hlive', ?_, ?_⟩
    · intro i hi priority hpriority best' hbest'
      rw [Option.mem_def, hleads.priority_eq, Option.some.injEq] at hbest'
      exact hbest' ▸ hge i hi.lt hi priority hpriority
    · intro i hi heq
      by_contra hlt
      rw [hleads.priority_eq] at heq
      exact absurd (hleads.first i (Nat.lt_of_not_le hlt) hi _ heq) (Int.lt_irrefl _)

/-- The pick is the strict choice exactly if a machine is visible, or machine 0 is live and no live
machine has a higher priority. -/
theorem strictChoice_pickNext_iff_cases {statuses : List VmStatus} {priorities : List Int} :
    StrictChoice statuses priorities (pickNext statuses priorities)
      ↔ Visible statuses priorities
        ∨ Live statuses 0 ∧ ∀ i, Live statuses i → ∀ priority ∈ priorities[i]?,
          ∀ first ∈ priorities[0]?, priority ≤ first := by
  rcases pickNext_cases statuses priorities with ⟨hvisible, hstrict⟩ | ⟨hhidden, hpick⟩
  · exact iff_of_true hstrict (.inl hvisible)
  rw [hpick]
  constructor
  · exact fun hstrict => .inr ⟨hstrict.live, hstrict.highest⟩
  · rintro (hvisible | ⟨hlive, hhighest⟩)
    · exact absurd hvisible hhidden
    · exact ⟨hlive, hhighest, fun i _ _ => Nat.zero_le i⟩

/-- The pick is live exactly if a machine is visible or machine 0 is live. -/
theorem live_pickNext_iff {statuses : List VmStatus} {priorities : List Int} :
    Live statuses (pickNext statuses priorities)
      ↔ Visible statuses priorities ∨ Live statuses 0 := by
  rcases pickNext_cases statuses priorities with ⟨hvisible, hstrict⟩ | ⟨hhidden, hpick⟩
  · exact iff_of_true hstrict.live (.inl hvisible)
  · rw [hpick, or_iff_right hhidden]

end PriorityScheduler

end VmmShowcase
