import Mathlib.Logic.Relation
import Mathlib.Order.RelClasses

/-! # Semantics of an unbounded loop

A `while (true)` loop is given by its body, which from a loop head either leaves the loop, goes
round to the next head, or has no defined behaviour. `Terminates` is its big-step meaning,
`Reaches` relates a head to the heads that follow it. The rules: invariants hold at every head
that is reached, a well-founded measure gives termination, an invariant that forbids the exit
gives non-termination, and a measure that drops until some event happens makes it happen. -/

namespace VmmShowcase

/-- What one execution of a loop body does. -/
inductive LoopStep (σ : Type*) where
  /-- The loop is left in the given state. -/
  | exit (s : σ)
  /-- Control returns to the loop head in the given state. -/
  | next (s : σ)
  /-- The body has no defined behaviour. -/
  | undefined

namespace Loop

variable {σ : Type*} (body : σ → LoopStep σ)

/-- Run a loop for at most `fuel` executions of its body; `none` when it has not been left by then
or its behaviour is not defined. -/
def runFor : Nat → σ → Option σ
  | 0, _ => none
  | fuel + 1, s =>
      match body s with
      | .exit s' => some s'
      | .next s' => runFor fuel s'
      | .undefined => none

/-- The loop started at head `s` is left, in state `s'`. -/
def Terminates (s s' : σ) : Prop := ∃ fuel, runFor body fuel s = some s'

/-- One round of the loop leads from head `s` to head `s'`. -/
def Round (s s' : σ) : Prop := body s = .next s'

/-- The loop started at head `s` comes to head `s'` after any number of rounds. -/
def Reaches : σ → σ → Prop := Relation.ReflTransGen (Round body)

variable {body}

/-- A loop whose body leaves it terminates there. -/
theorem terminates_of_exit {s s' : σ} (h : body s = .exit s') : Terminates body s s' :=
  ⟨1, by rw [runFor, h]⟩

/-- A loop terminates from a head exactly as it does from the next one. -/
theorem terminates_iff_of_next {s t s' : σ} (h : body s = .next t) :
    Terminates body s s' ↔ Terminates body t s' := by
  constructor
  · rintro ⟨fuel, hrun⟩
    cases fuel with
    | zero => exact absurd hrun (by simp [runFor])
    | succ fuel => exact ⟨fuel, by rwa [runFor, h] at hrun⟩
  · rintro ⟨fuel, hrun⟩
    exact ⟨fuel + 1, by rwa [runFor, h]⟩

/-- **Exit rule.** A loop that terminates does so from a reached head whose body leaves it. -/
theorem Terminates.exists_exit {s s' : σ} (h : Terminates body s s') :
    ∃ t, Reaches body s t ∧ body t = .exit s' := by
  obtain ⟨fuel, hrun⟩ := h
  -- each unit of fuel is one round towards the exit
  induction fuel generalizing s with
  | zero => exact absurd hrun (by simp [runFor])
  | succ fuel ih =>
      rw [runFor] at hrun
      match hb : body s with
      | .exit t =>
          rw [hb, Option.some.injEq] at hrun
          exact ⟨s, .refl, by rw [hb, hrun]⟩
      | .next t =>
          rw [hb] at hrun
          obtain ⟨u, hu, hexit⟩ := ih hrun
          exact ⟨u, .head hb hu, hexit⟩
      | .undefined => rw [hb] at hrun; exact absurd hrun (by simp)

/-- A terminating loop has one final state. -/
theorem Terminates.unique {s s₁ s₂ : σ} (h₁ : Terminates body s s₁) (h₂ : Terminates body s s₂) :
    s₁ = s₂ := by
  obtain ⟨t, hreach, hexit⟩ := h₁.exists_exit
  -- along the rounds of the first run, the second one takes the same
  induction hreach using Relation.ReflTransGen.head_induction_on with
  | refl =>
      obtain ⟨fuel, hrun⟩ := h₂
      cases fuel with
      | zero => exact absurd hrun (by simp [runFor])
      | succ fuel => rwa [runFor, hexit, Option.some.injEq] at hrun
  | head hround _ ih =>
      exact ih ((terminates_iff_of_next hround).mp h₁) ((terminates_iff_of_next hround).mp h₂)

/-- **Invariant rule.** What every round preserves holds at every head that is reached. -/
theorem Reaches.invariant (I : σ → Prop) (hI : ∀ s s', I s → body s = .next s' → I s')
    {s t : σ} (h : Reaches body s t) (h₀ : I s) : I t := by
  induction h with
  | refl => exact h₀
  | tail _ hround ih => exact hI _ _ ih hround

/-- **Termination rule.** If from every head satisfying `I` the body leaves the loop, or goes
round to a head that satisfies `I` and has a smaller measure, the loop terminates. -/
theorem terminates_of_measure {α : Type*} [LT α] [WellFoundedLT α] (μ : σ → α) (I : σ → Prop)
    (hI : ∀ s, I s → (∃ s', body s = .exit s') ∨ ∃ s', body s = .next s' ∧ I s' ∧ μ s' < μ s)
    {s : σ} (h₀ : I s) : ∃ s', Terminates body s s' := by
  induction hm : μ s using WellFoundedLT.induction generalizing s with
  | ind m ih =>
      rcases hI s h₀ with ⟨s', hexit⟩ | ⟨t, hnext, ht, hlt⟩
      · exact ⟨s', terminates_of_exit hexit⟩
      · obtain ⟨s', hs'⟩ := ih (μ t) (hm ▸ hlt) ht rfl
        exact ⟨s', (terminates_iff_of_next hnext).mpr hs'⟩

/-- **Bounded termination rule.** If from every head satisfying `I` the body leaves the loop, or goes
round to a head that satisfies `I` and has a smaller number, the loop is left within one execution of
its body more than the number of its first head, from a head that satisfies `I`. -/
theorem exists_runFor_of_measure (μ : σ → Nat) (I : σ → Prop)
    (hI : ∀ s, I s → (∃ s', body s = .exit s') ∨ ∃ s', body s = .next s' ∧ I s' ∧ μ s' < μ s)
    {s : σ} (h₀ : I s) {fuel : Nat} (hfuel : μ s < fuel) :
    ∃ t s', runFor body fuel s = some s' ∧ I t ∧ body t = .exit s' := by
  induction fuel generalizing s with
  | zero => exact absurd hfuel (Nat.not_lt_zero _)
  | succ fuel ih =>
      rcases hI s h₀ with ⟨s', hexit⟩ | ⟨t, hnext, ht, hlt⟩
      · exact ⟨s, s', by rw [runFor, hexit], h₀, hexit⟩
      · obtain ⟨u, s', hrun, hu⟩ := ih ht (by omega)
        exact ⟨u, s', by rwa [runFor, hnext], hu⟩

/-- **Non-termination rule.** If a preserved property forbids leaving the loop, the loop does not
terminate. -/
theorem not_terminates_of_invariant (I : σ → Prop)
    (hI : ∀ s s', I s → body s = .next s' → I s') (hexit : ∀ s s', I s → body s ≠ .exit s')
    {s s' : σ} (h₀ : I s) : ¬ Terminates body s s' := by
  intro h
  obtain ⟨t, hreach, ht⟩ := h.exists_exit
  exact hexit t s' (Reaches.invariant I hI hreach h₀) ht

/-- **Progress rule.** If from every head satisfying `I` the event `P` happens, or the loop goes
round to a head that satisfies `I` and has a smaller measure, then a head where `P` happens is
reached. -/
theorem reaches_of_measure {α : Type*} [LT α] [WellFoundedLT α] (μ : σ → α) (I P : σ → Prop)
    (hI : ∀ s, I s → P s ∨ ∃ s', body s = .next s' ∧ I s' ∧ μ s' < μ s)
    {s : σ} (h₀ : I s) : ∃ t, Reaches body s t ∧ I t ∧ P t := by
  induction hm : μ s using WellFoundedLT.induction generalizing s with
  | ind m ih =>
      rcases hI s h₀ with hP | ⟨t, hnext, ht, hlt⟩
      · exact ⟨s, .refl, h₀, hP⟩
      · obtain ⟨u, hreach, hu⟩ := ih (μ t) (hm ▸ hlt) ht rfl
        exact ⟨u, .head hnext hreach, hu⟩

/-! ## Loops that write -/

section Recording

variable {ω : Type*} {emit : σ → List ω}

/-- A loop beside what its rounds write, in order. -/
def recording (body : σ → LoopStep σ) (emit : σ → List ω) (p : σ × List ω) : LoopStep (σ × List ω) :=
  match body p.1 with
  | .exit s => .exit (s, p.2)
  | .next s => .next (s, p.2 ++ emit p.1)
  | .undefined => .undefined

/-- A loop is left beside its writing exactly where it is left with nothing more written. -/
theorem recording_eq_exit_iff {p q : σ × List ω} :
    recording body emit p = .exit q ↔ body p.1 = .exit q.1 ∧ q.2 = p.2 := by
  obtain ⟨s, out⟩ := p
  obtain ⟨s', out'⟩ := q
  rw [recording]
  cases body s with
  | exit t => simp [eq_comm]
  | next t => simp
  | undefined => simp

/-- A loop goes round beside its writing exactly as it does alone. -/
theorem recording_eq_next_iff {p q : σ × List ω} :
    recording body emit p = .next q ↔ body p.1 = .next q.1 ∧ q.2 = p.2 ++ emit p.1 := by
  obtain ⟨s, out⟩ := p
  obtain ⟨s', out'⟩ := q
  rw [recording]
  cases body s with
  | exit t => simp
  | next t => simp [eq_comm]
  | undefined => simp

/-- **Writing does not change a loop.** It terminates beside what it writes exactly as it does alone. -/
theorem terminates_recording_iff {s s' : σ} {out : List ω} :
    (∃ out', Terminates (recording body emit) (s, out) (s', out')) ↔ Terminates body s s' := by
  constructor
  · rintro ⟨out', fuel, hrun⟩
    refine ⟨fuel, ?_⟩
    induction fuel generalizing s out with
    | zero => cases hrun
    | succ fuel ih =>
        rw [runFor, recording] at hrun
        rw [runFor]
        cases hbody : body s with
        | exit t =>
            simp only [hbody, Option.some.injEq, Prod.mk.injEq] at hrun
            rw [hrun.1]
        | next t =>
            simp only [hbody] at hrun
            exact ih hrun
        | undefined =>
            simp only [hbody] at hrun
            cases hrun
  · intro h
    obtain ⟨t, hreach, hexit⟩ := h.exists_exit
    induction hreach using Relation.ReflTransGen.head_induction_on generalizing out with
    | refl => exact ⟨out, terminates_of_exit (recording_eq_exit_iff.mpr ⟨hexit, rfl⟩)⟩
    | @head s u hround _ ih =>
        have hterm : Terminates body u s' := (terminates_iff_of_next hround).mp h
        obtain ⟨out', hout'⟩ := @ih (out ++ emit s) hterm
        have hnext : recording body emit (s, out) = .next (u, out ++ emit s) :=
          recording_eq_next_iff.mpr ⟨hround, rfl⟩
        exact ⟨out', (terminates_iff_of_next hnext).mpr hout'⟩

end Recording

end Loop

end VmmShowcase
