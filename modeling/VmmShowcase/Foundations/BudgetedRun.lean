import Mathlib.Data.Option.Basic
import Mathlib.Data.Nat.Notation

/-! # Running a deterministic stepper under a budget

A stepper `step : σ → Option (Bool × σ)` either advances (`true`), stops (`false`, possibly
recording in the state why it stopped), or has no defined behaviour (`none`). `run step n s` takes
at most `n` advancing steps and returns how many it took. The rules below are the ones a scheduler
needs: runs compose, a long enough budget is as good as any longer one, invariants carry along a
run, and two steppers that simulate each other step by step have the same runs. -/

namespace VmmShowcase

namespace BudgetedRun

variable {σ τ : Type*} (step : σ → Option (Bool × σ))

/-- Take at most `n` advancing steps from a state; the result carries the number of advances.
`none` when a step that is taken has no defined behaviour. -/
def run : Nat → σ → Option (Nat × σ)
  | 0, s => some (0, s)
  | n + 1, s =>
      match step s with
      | none => none
      | some (false, s') => some (0, s')
      | some (true, s') => (run n s').map fun p => (p.1 + 1, p.2)

@[simp] theorem run_zero (s : σ) : run step 0 s = some (0, s) := rfl

variable {step}

/-- A run whose first step is undefined is undefined. -/
theorem run_succ_none {n : Nat} {s : σ} (h : step s = none) : run step (n + 1) s = none := by
  rw [run, h]

/-- A run whose first step stops has advanced nowhere. -/
theorem run_succ_stop {n : Nat} {s s' : σ} (h : step s = some (false, s')) :
    run step (n + 1) s = some (0, s') := by
  rw [run, h]

/-- A run whose first step advances spends one unit of its budget. -/
theorem run_succ_advance {n : Nat} {s s' : σ} (h : step s = some (true, s')) :
    run step (n + 1) s = (run step n s').map fun p => (p.1 + 1, p.2) := by
  rw [run, h]

/-- **Inversion of a run.** The first step stops, or it advances and the rest of the budget is run
from where it leads. -/
theorem run_succ_cases {n r : Nat} {s s' : σ} (h : run step (n + 1) s = some (r, s')) :
    (r = 0 ∧ step s = some (false, s'))
      ∨ ∃ t r', r = r' + 1 ∧ step s = some (true, t) ∧ run step n t = some (r', s') := by
  match hs : step s with
  | none =>
      rw [run_succ_none hs] at h
      cases h
  | some (false, t) =>
      rw [run_succ_stop hs] at h
      cases h
      exact .inl ⟨rfl, rfl⟩
  | some (true, t) =>
      rw [run_succ_advance hs, Option.map_eq_some_iff] at h
      obtain ⟨⟨r', t'⟩, hrun, heq⟩ := h
      cases heq
      exact .inr ⟨t, r', rfl, rfl, hrun⟩

/-- **Runs compose.** A run with budget `m + n` is a run with budget `m`, continued with budget
`n` exactly when the first part used its budget up. -/
theorem run_add (m n : Nat) (s : σ) :
    run step (m + n) s = (run step m s).bind fun p =>
      if p.1 = m then (run step n p.2).map fun q => (p.1 + q.1, q.2) else some p := by
  -- by induction on the first budget: both sides take the same first step
  induction m generalizing s with
  | zero => simp
  | succ m ih =>
      rw [Nat.succ_add]
      match hs : step s with
      | none => rw [run_succ_none hs, run_succ_none hs, Option.bind_none]
      | some (false, t) =>
          rw [run_succ_stop hs, run_succ_stop hs, Option.bind_some, if_neg (by omega)]
      | some (true, t) =>
          rw [run_succ_advance hs, run_succ_advance hs, ih t]
          cases hm : run step m t with
          | none => rfl
          | some p =>
              simp only [Option.bind_some, Option.map_some, Nat.add_right_cancel_iff]
              by_cases hp : p.1 = m
              · -- the counts differ by the advance that was peeled off
                rw [if_pos hp, if_pos hp, Option.map_map]
                congr 1
                funext q
                simp only [Function.comp_apply, Prod.mk.injEq, and_true]
                omega
              · rw [if_neg hp, if_neg hp, Option.map_some]

/-- `n` advances in a row lead from one state to another. -/
inductive Advances (step : σ → Option (Bool × σ)) : Nat → σ → σ → Prop where
  | zero (s : σ) : Advances step 0 s s
  | succ {n : Nat} {s t u : σ} (h : step s = some (true, t)) (hrest : Advances step n t u) :
      Advances step (n + 1) s u

/-- What every advance preserves, a sequence of advances preserves. -/
theorem Advances.invariant (I : σ → Prop) (hI : ∀ s s', I s → step s = some (true, s') → I s')
    {n : Nat} {s s' : σ} (h : Advances step n s s') (h₀ : I s) : I s' := by
  induction h with
  | zero => exact h₀
  | succ hstep _ ih => exact ih (hI _ _ h₀ hstep)

/-- A run with just the budget of a sequence of advances makes them all. -/
theorem Advances.run_eq {n : Nat} {s t : σ} (h : Advances step n s t) :
    run step n s = some (n, t) := by
  induction h with
  | zero => rfl
  | succ hstep _ ih => rw [run_succ_advance hstep, ih, Option.map_some]

/-- A run whose budget exceeds a sequence of advances goes on behind it. -/
theorem Advances.run_add {n : Nat} {s t : σ} (h : Advances step n s t) (k : Nat) :
    run step (n + k) s = (run step k t).map fun p => (n + p.1, p.2) := by
  rw [BudgetedRun.run_add, h.run_eq, Option.bind_some, if_pos rfl]

/-- A sequence of advances comes by after each number of them. -/
theorem Advances.split {m n : Nat} {s u : σ} (h : Advances step (m + n) s u) :
    ∃ t, Advances step m s t ∧ Advances step n t u := by
  induction m generalizing s with
  | zero =>
      rw [Nat.zero_add] at h
      exact ⟨s, .zero s, h⟩
  | succ m ih =>
      rw [Nat.succ_add] at h
      cases h with
      | succ hstep hrest =>
          obtain ⟨t, hm, hn⟩ := ih hrest
          exact ⟨t, .succ hstep hm, hn⟩

/-- Sequences of advances compose. -/
theorem Advances.trans {m n : Nat} {s t u : σ} (h : Advances step m s t)
    (h' : Advances step n t u) : Advances step (m + n) s u := by
  induction h with
  | zero =>
      rw [Nat.zero_add]
      exact h'
  | succ hstep _ ih =>
      rw [Nat.succ_add]
      exact .succ hstep (ih h')

/-- **Where a run ends.** It ends behind as many advances as it counts, on a stopping step if these
are fewer than its budget. -/
theorem exists_advances {n r : Nat} {s s' : σ} (h : run step n s = some (r, s')) :
    ∃ t, Advances step r s t
      ∧ ((r < n ∧ step t = some (false, s')) ∨ (r = n ∧ s' = t)) := by
  induction n generalizing s r with
  | zero =>
      rw [run_zero] at h
      cases h
      exact ⟨s', .zero s', .inr ⟨rfl, rfl⟩⟩
  | succ n ih =>
      rcases run_succ_cases h with ⟨rfl, hs⟩ | ⟨t, r', rfl, hs, hrun⟩
      · exact ⟨s, .zero s, .inl ⟨Nat.succ_pos n, hs⟩⟩
      · obtain ⟨u, hu, hend⟩ := ih hrun
        refine ⟨u, .succ hs hu, ?_⟩
        rcases hend with ⟨hlt, hstop⟩ | ⟨rfl, hs'⟩
        · exact .inl ⟨Nat.succ_lt_succ hlt, hstop⟩
        · exact .inr ⟨rfl, hs'⟩

/-- **The ways a run ends.** If every advance preserves `I`, a run ends on a stopping step, taken in
a state that satisfies `I`, or uses its budget up and ends in such a state. -/
theorem run_cases (I : σ → Prop) (hI : ∀ s s', I s → step s = some (true, s') → I s')
    {n r : Nat} {s s' : σ} (h₀ : I s) (h : run step n s = some (r, s')) :
    (r < n ∧ ∃ t, I t ∧ step t = some (false, s')) ∨ (r = n ∧ I s') := by
  obtain ⟨t, hadvances, hend⟩ := exists_advances h
  have ht := hadvances.invariant I hI h₀
  rcases hend with ⟨hlt, hstop⟩ | ⟨rfl, rfl⟩
  · exact .inl ⟨hlt, t, ht, hstop⟩
  · exact .inr ⟨rfl, ht⟩

/-- **Invariant rule.** What every step preserves, stopping steps included, a run preserves. -/
theorem run_invariant (I : σ → Prop)
    (hI : ∀ s b s', I s → step s = some (b, s') → I s')
    {n r : Nat} {s s' : σ} (h₀ : I s) (h : run step n s = some (r, s')) : I s' := by
  rcases run_cases I (fun s s' => hI s true s') h₀ h with ⟨-, t, ht, hstop⟩ | ⟨-, hs'⟩
  · exact hI t false s' ht hstop
  · exact hs'

/-- **Definedness rule.** If every step taken inside `I` is defined and every advance preserves
`I`, runs are defined. -/
theorem exists_run (I : σ → Prop) (hdef : ∀ s, I s → ∃ p, step s = some p)
    (hI : ∀ s s', I s → step s = some (true, s') → I s') (s : σ) (h₀ : I s) (n : Nat) :
    ∃ p, run step n s = some p := by
  induction n generalizing s with
  | zero => exact ⟨_, rfl⟩
  | succ n ih =>
      obtain ⟨⟨b, t⟩, hs⟩ := hdef s h₀
      cases b with
      | false => exact ⟨_, run_succ_stop hs⟩
      | true =>
          obtain ⟨p, hp⟩ := ih t (hI s t h₀ hs)
          exact ⟨_, by rw [run_succ_advance hs, hp, Option.map_some]⟩

/-- **Saturation rule.** If every advance lowers `μ` and the stepper stops in place where `μ` is
zero, then all budgets of at least `μ s` give the same run from `s`. -/
theorem run_saturate (μ : σ → Nat) (hμ : ∀ s s', step s = some (true, s') → μ s' < μ s)
    (hstop : ∀ s, μ s = 0 → step s = some (false, s)) {m n : Nat} {s : σ}
    (hm : μ s ≤ m) (hn : μ s ≤ n) : run step m s = run step n s := by
  induction m generalizing s n with
  | zero =>
      cases n with
      | zero => rfl
      | succ n => rw [run_zero, run_succ_stop (hstop s (Nat.le_zero.mp hm))]
  | succ m ih =>
      cases n with
      | zero =>
          -- nothing is left to do, so the longer budget stops at once
          rw [run_zero, run_succ_stop (hstop s (Nat.le_zero.mp hn))]
      | succ n =>
          match hs : step s with
          | none => rw [run_succ_none hs, run_succ_none hs]
          | some (false, t) => rw [run_succ_stop hs, run_succ_stop hs]
          | some (true, t) =>
              have hlt := hμ s t hs
              have hmn : run step m t = run step n t := ih (by omega) (by omega)
              rw [run_succ_advance hs, run_succ_advance hs, hmn]

/-- **Measure rule.** If every advance lowers `μ` and no stop raises it, a run lowers it by at least
the number of its advances. -/
theorem run_measure (μ : σ → Nat) (hμ : ∀ s s', step s = some (true, s') → μ s' < μ s)
    (hstop : ∀ s s', step s = some (false, s') → μ s' ≤ μ s) {n r : Nat} {s s' : σ}
    (h : run step n s = some (r, s')) : μ s' + r ≤ μ s := by
  induction n generalizing s r with
  | zero =>
      rw [run_zero] at h
      cases h
      exact Nat.le_refl _
  | succ n ih =>
      rcases run_succ_cases h with ⟨rfl, hs⟩ | ⟨t, r', rfl, hs, hrun⟩
      · exact hstop s s' hs
      · have hrest := ih hrun
        have hadvance := hμ s t hs
        omega

/-- Related options are both `none`, or hold related values. -/
theorem rel_cases {R : σ → τ → Prop} {x : Option σ} {y : Option τ} (h : Option.Rel R x y) :
    (x = none ∧ y = none) ∨ ∃ a b, x = some a ∧ y = some b ∧ R a b := by
  cases h with
  | none => exact .inl ⟨rfl, rfl⟩
  | some h => exact .inr ⟨_, _, rfl, rfl, h⟩

/-- **Simulation rule.** If related states step to related states in the same way, then related
states have related runs: both undefined, or both defined with the same number of advances. -/
theorem run_simulates {step' : τ → Option (Bool × τ)} (R : σ → τ → Prop)
    (hR : ∀ s t, R s t → Option.Rel (fun p q => p.1 = q.1 ∧ R p.2 q.2) (step s) (step' t))
    (n : Nat) {s : σ} {t : τ} (h : R s t) :
    Option.Rel (fun p q => p.1 = q.1 ∧ R p.2 q.2) (run step n s) (run step' n t) := by
  induction n generalizing s t with
  | zero => exact .some ⟨rfl, h⟩
  | succ n ih =>
      rcases rel_cases (hR s t h) with ⟨hs, ht⟩ | ⟨⟨b, s'⟩, ⟨b', t'⟩, hs, ht, hb, hst⟩
      · rw [run_succ_none hs, run_succ_none ht]
        exact .none
      -- both sides advance, or both stop
      obtain rfl : b = b' := hb
      cases b with
      | false =>
          rw [run_succ_stop hs, run_succ_stop ht]
          exact .some ⟨rfl, hst⟩
      | true =>
          rw [run_succ_advance hs, run_succ_advance ht]
          rcases rel_cases (ih hst) with ⟨hs', ht'⟩ | ⟨p, q, hs', ht', hpq⟩
          · rw [hs', ht']
            exact .none
          · rw [hs', ht']
            exact .some ⟨congrArg (· + 1) hpq.1, hpq.2⟩

/-! ## What a run emits -/

/-! ## What holds on the way -/

section Throughout

variable {P : σ → Prop}

/-- `P` holds in all states that are met before the `n`-th advance. -/
def Throughout (step : σ → Option (Bool × σ)) (P : σ → Prop) (n : Nat) (s : σ) : Prop :=
  ∀ k < n, ∀ t, Advances step k s t → P t

/-- Before the first advance there is no state. -/
theorem throughout_zero (s : σ) : Throughout step P 0 s := fun k hk =>
  absurd hk (Nat.not_lt_zero k)

/-- The first state, and those behind it. -/
theorem throughout_succ_iff {n : Nat} {s : σ} :
    Throughout step P (n + 1) s ↔ P s ∧ ∀ t, step s = some (true, t) → Throughout step P n t := by
  constructor
  · intro h
    exact ⟨h 0 (Nat.succ_pos n) s (.zero s), fun t hstep k hk u hu =>
      h (k + 1) (Nat.succ_lt_succ hk) u (.succ hstep hu)⟩
  · rintro ⟨hfirst, hrest⟩ k hk u hu
    cases hu with
    | zero => exact hfirst
    | succ hstep hu => exact hrest _ hstep _ (Nat.lt_of_succ_lt_succ hk) u hu

/-- The states before the `m`-th advance, and those behind it. -/
theorem throughout_add_iff {m n : Nat} {s : σ} :
    Throughout step P (m + n) s
      ↔ Throughout step P m s ∧ ∀ t, Advances step m s t → Throughout step P n t := by
  constructor
  · intro h
    exact ⟨fun k hk => h k (by omega), fun t ht k hk u hu => h (m + k) (by omega) u (ht.trans hu)⟩
  · rintro ⟨hfirst, hrest⟩ k hk u hu
    by_cases hlt : k < m
    · exact hfirst k hlt u hu
    · obtain ⟨j, rfl⟩ := Nat.exists_eq_add_of_le (Nat.not_lt.mp hlt)
      obtain ⟨t, ht, htu⟩ := hu.split
      exact hrest t ht j (by omega) u htu

end Throughout

section Output

variable {ω : Type*} (emit : σ → List ω)

/-- What the steps of a run emit, in order. The step that stops a run, or has no defined behaviour,
is one of them. -/
def output (step : σ → Option (Bool × σ)) (emit : σ → List ω) : Nat → σ → List ω
  | 0, _ => []
  | n + 1, s =>
      match step s with
      | some (true, t) => emit s ++ output step emit n t
      | _ => emit s

/-- A step that advances emits before the rest of the run. -/
theorem output_succ_advance {n : Nat} {s t : σ} (h : step s = some (true, t)) :
    output step emit (n + 1) s = emit s ++ output step emit n t := by
  rw [output, h]

/-- Nothing is emitted behind a step that stops. -/
theorem output_succ_stop {n : Nat} {s t : σ} (h : step s = some (false, t)) :
    output step emit (n + 1) s = emit s := by
  rw [output, h]

/-- A sequence of advances emits before what the rest of the budget does. -/
theorem Advances.output_add {m : Nat} {s t : σ} (h : Advances step m s t) (n : Nat) :
    output step emit (m + n) s = output step emit m s ++ output step emit n t := by
  induction h with
  | zero => rw [Nat.zero_add]; rfl
  | @succ m s t u hstep _ ih =>
      rw [Nat.succ_add, output_succ_advance emit hstep, output_succ_advance emit hstep, ih,
        List.append_assoc]

/-- Budgets that reach a step that stops make a run emit the same. -/
theorem Advances.output_eq {m n : Nat} {s t u : σ} (h : Advances step m s t)
    (hstop : step t = some (false, u)) (hn : m < n) :
    output step emit n s = output step emit m s ++ emit t := by
  obtain ⟨k, rfl⟩ := Nat.exists_eq_add_of_lt hn
  rw [Nat.add_assoc, h.output_add, output_succ_stop emit hstop]

/-- **Saturation rule for what is emitted.** If every advance lowers `μ`, and where `μ` is zero the
stepper stops in place and emits nothing, all budgets of at least `μ s` emit the same from `s`. -/
theorem output_saturate (μ : σ → Nat) (hμ : ∀ s s', step s = some (true, s') → μ s' < μ s)
    (hstop : ∀ s, μ s = 0 → step s = some (false, s)) (hemit : ∀ s, μ s = 0 → emit s = [])
    {m n : Nat} {s : σ} (hm : μ s ≤ m) (hn : μ s ≤ n) :
    output step emit m s = output step emit n s := by
  have hnone {k : Nat} {t : σ} (h : μ t = 0) : output step emit k t = [] := by
    cases k with
    | zero => rfl
    | succ k => rw [output_succ_stop emit (hstop t h), hemit t h]
  induction m generalizing s n with
  | zero => rw [hnone (Nat.le_zero.mp hm), hnone (Nat.le_zero.mp hm)]
  | succ m ih =>
      cases n with
      | zero => rw [hnone (Nat.le_zero.mp hn), hnone (Nat.le_zero.mp hn)]
      | succ n =>
          rw [output, output]
          match hs : step s with
          | none => rfl
          | some (false, t) => rfl
          | some (true, t) =>
              have hlt := hμ s t hs
              exact congrArg (emit s ++ ·) (ih (by omega) (by omega))

end Output

end BudgetedRun

end VmmShowcase
