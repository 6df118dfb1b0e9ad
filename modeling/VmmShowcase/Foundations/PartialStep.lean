import VmmShowcase.Foundations.BudgetedRun

/-! # Partial steps that preserve a relation

A step that may have no value preserves a relation if related states have no value together, or related
values. Steps are made of readings of the state, tests and further steps, and the relation passes through
all of these. -/

namespace VmmShowcase

namespace PartialStep

variable {α σ : Type*} {R : σ → σ → Prop}

/-- From related states the step has no value, or related values. -/
def Preserves (R : σ → σ → Prop) (f : σ → Option σ) : Prop :=
  ∀ ⦃s t⦄, R s t → Option.Rel R (f s) (f t)

/-- The step that does nothing. -/
theorem preserves_some : Preserves R some := fun _ _ h => .some h

/-- The step that has no value. -/
theorem preserves_none : Preserves R fun _ => none := fun _ _ _ => .none

/-- A test that does not depend on the state. -/
theorem Preserves.ite {p : Prop} [Decidable p] {f g : σ → Option σ} (hf : Preserves R f)
    (hg : Preserves R g) : Preserves R fun s => if p then f s else g s := by
  intro s t h
  split
  · exact hf h
  · exact hg h

/-- **Reading rule.** What is read is the same in related states. -/
theorem Preserves.bind {o : σ → Option α} {f : α → σ → Option σ} (ho : ∀ s t, R s t → o s = o t)
    (hf : ∀ a, Preserves R (f a)) : Preserves R fun s => (o s).bind fun a => f a s := by
  intro s t h
  simp only [ho s t h]
  cases o t with
  | none => exact .none
  | some a => exact hf a h

/-- **Sequence rule.** -/
theorem Preserves.andThen {f g : σ → Option σ} (hf : Preserves R f) (hg : Preserves R g) :
    Preserves R fun s => (f s).bind g := by
  intro s t h
  rcases BudgetedRun.rel_cases (hf h) with ⟨hs, ht⟩ | ⟨s', t', hs, ht, h'⟩
  · simp only [hs, ht]
    exact .none
  · simp only [hs, ht]
    exact hg h'

/-- A view that is the same in related states is the same in what the step makes of them. -/
theorem Preserves.map_eq {f : σ → Option σ} (hf : Preserves R f) {view : σ → α}
    (hview : ∀ s t, R s t → view s = view t) {s t : σ} (h : R s t) :
    (f s).map view = (f t).map view := by
  rcases BudgetedRun.rel_cases (hf h) with ⟨hs, ht⟩ | ⟨s', t', hs, ht, h'⟩
  · rw [hs, ht]
  · rw [hs, ht, Option.map_some, Option.map_some, hview s' t' h']

end PartialStep

end VmmShowcase
