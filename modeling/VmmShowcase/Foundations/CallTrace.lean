import Mathlib.Data.List.Basic

/-! # Components answering calls

A component is a function from a state and a call to a reply and the next state. `trace` is its
reply to every call of a sequence, `history` pairs each call with its reply. Two components whose
states are related, and that give equal replies and related states on related states, cannot be told
apart by any sequence of calls. -/

namespace VmmShowcase

namespace Component

variable {σ τ ι ρ : Type*} (call : σ → ι → ρ × σ)

/-- The replies to a sequence of calls. -/
def trace : σ → List ι → List ρ
  | _, [] => []
  | s, i :: calls => (call s i).1 :: trace (call s i).2 calls

/-- The state after a sequence of calls. -/
def after (s : σ) (calls : List ι) : σ := calls.foldl (fun s i => (call s i).2) s

@[simp] theorem trace_nil (s : σ) : trace call s [] = [] := rfl

@[simp] theorem trace_cons (s : σ) (i : ι) (calls : List ι) :
    trace call s (i :: calls) = (call s i).1 :: trace call (call s i).2 calls := rfl

/-- The calls of a sequence with their replies. -/
def history : σ → List ι → List (ι × ρ)
  | _, [] => []
  | s, i :: calls => (i, (call s i).1) :: history (call s i).2 calls

@[simp] theorem history_nil (s : σ) : history call s [] = [] := rfl

@[simp] theorem history_cons (s : σ) (i : ι) (calls : List ι) :
    history call s (i :: calls) = (i, (call s i).1) :: history call (call s i).2 calls := rfl

/-- The calls of a history are those that were made. -/
theorem map_fst_history (s : σ) (calls : List ι) : (history call s calls).map Prod.fst = calls := by
  induction calls generalizing s with
  | nil => rfl
  | cons i calls ih => rw [history_cons, List.map_cons, ih]

/-- The last call of a sequence is made in the state the others leave. -/
theorem after_concat (s : σ) (calls : List ι) (i : ι) :
    after call s (calls ++ [i]) = (call (after call s calls) i).2 := by
  rw [after, List.foldl_append]
  rfl

/-- The last reply of a trace is given in the state the other calls leave. -/
theorem trace_concat (s : σ) (calls : List ι) (i : ι) :
    trace call s (calls ++ [i]) = trace call s calls ++ [(call (after call s calls) i).1] := by
  induction calls generalizing s with
  | nil => rfl
  | cons j calls ih =>
      rw [List.cons_append, trace_cons, trace_cons, ih, List.cons_append]
      rfl

variable {call}

/-- What stands in a history was called. -/
theorem mem_calls_of_mem_history {s : σ} {calls : List ι} {r : ι × ρ} (h : r ∈ history call s calls) :
    r.1 ∈ calls := by
  have hmem := List.mem_map_of_mem (f := Prod.fst) h
  rwa [map_fst_history] at hmem

/-- What was called stands in the history, with a reply. -/
theorem exists_mem_history {calls : List ι} {i : ι} (h : i ∈ calls) (s : σ) :
    ∃ reply, (i, reply) ∈ history call s calls := by
  rw [← map_fst_history call s calls] at h
  obtain ⟨r, hr, rfl⟩ := List.mem_map.mp h
  exact ⟨r.2, hr⟩

/-- A history begins with a call and its reply. -/
theorem cons_eq_history {s : σ} {calls : List ι} {i : ι} {reply : ρ} {rest : List (ι × ρ)}
    (h : (i, reply) :: rest = history call s calls) :
    ∃ calls', calls = i :: calls' ∧ reply = (call s i).1
      ∧ rest = history call (call s i).2 calls' := by
  cases calls with
  | nil => cases h
  | cons j calls =>
      rw [history_cons, List.cons.injEq, Prod.mk.injEq] at h
      obtain ⟨⟨rfl, hreply⟩, hrest⟩ := h
      exact ⟨calls, rfl, hreply, hrest⟩

/-- **Splitting rule.** The second part of a history is a history from where the first part leads. -/
theorem history_eq_append {s : σ} {calls : List ι} {first second : List (ι × ρ)}
    (h : history call s calls = first ++ second) :
    ∃ calls₁ calls₂, first = history call s calls₁
      ∧ second = history call (after call s calls₁) calls₂ := by
  induction first generalizing s calls with
  | nil => exact ⟨[], calls, rfl, h.symm⟩
  | cons r first ih =>
      cases calls with
      | nil => cases h
      | cons i calls =>
          rw [history_cons, List.cons_append, List.cons.injEq] at h
          obtain ⟨rfl, hrest⟩ := h
          obtain ⟨calls₁, calls₂, rfl, rfl⟩ := ih hrest
          exact ⟨i :: calls₁, calls₂, rfl, rfl⟩

/-- **Invariant rule.** What every call preserves holds after every sequence of calls. -/
theorem after_invariant (I : σ → Prop) (hI : ∀ s i, I s → I (call s i).2) {s : σ} (h₀ : I s)
    (calls : List ι) : I (after call s calls) := by
  induction calls generalizing s with
  | nil => exact h₀
  | cons i calls ih => exact ih (hI s i h₀)

/-- **Bisimulation rule.** Related states have equal traces, for calls that satisfy `C`. -/
theorem trace_eq_of_bisimulation {call' : τ → ι → ρ × τ} (R : σ → τ → Prop) (C : ι → Prop)
    (hR : ∀ s t i, C i → R s t → (call s i).1 = (call' t i).1 ∧ R (call s i).2 (call' t i).2)
    {s : σ} {t : τ} (h : R s t) {calls : List ι} (hC : ∀ i ∈ calls, C i) :
    trace call s calls = trace call' t calls := by
  induction calls generalizing s t with
  | nil => rfl
  | cons i calls ih =>
      obtain ⟨hreply, hnext⟩ := hR s t i (hC i (by simp)) h
      have hrest := ih hnext fun j hj => hC j (by simp [hj])
      rw [trace_cons, trace_cons, hreply, hrest]

end Component

end VmmShowcase
