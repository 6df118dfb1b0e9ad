import Mathlib.Algebra.Group.Action.Defs
import Mathlib.Algebra.Order.BigOperators.Group.Finset

/-! # Servers that give turns

A server serves one client at a time. It gives turns if every state says how often each of the other
clients can still be served before a waiting one: to be served uses up a turn, and serving one client
gives no turns to the others. Then the turns in front of a client are fewer after each service of another
one, so that nobody waits for longer than they last. -/

namespace VmmShowcase

variable {σ α ι : Type*} [DecidableEq ι]

/-- `turns s i j` is how often a server in state `s` can serve client `j` before client `i`; it is at most
`most`. The server is shown who `waits`, and next time something `later`. -/
structure GivesTurns (clients : Finset ι) (most : Nat) (serve : σ → α → ι × σ) (waits : α → ι → Prop)
    (later : α → α → Prop) (ok : σ → α → Prop) (turns : σ → ι → ι → Nat) : Prop where
  /-- A client is served that waits, if there is one. -/
  serves : ∀ {s a i}, ok s a → waits a i → i ∈ clients ∧ waits a (serve s a).1
  keeps : ∀ {s a b}, ok s a → waits a (serve s a).1 → later a b → ok (serve s a).2 b
  /-- Serving another client before client `i` uses up one of its turns, and adds none to the others. -/
  uses : ∀ {s a i}, ok s a → waits a i → (serve s a).1 ≠ i → ∀ j ∈ clients,
    turns (serve s a).2 i j + (if (serve s a).1 = j then 1 else 0) ≤ turns s i j
  le_most : ∀ {s a}, ok s a → ∀ i j, turns s i j ≤ most
  self : ∀ {s a}, ok s a → ∀ i, turns s i i = 0

namespace GivesTurns

variable {clients : Finset ι} {most : Nat} {serve : σ → α → ι × σ} {waits : α → ι → Prop}
  {later : α → α → Prop} {ok : σ → α → Prop} {turns : σ → ι → ι → Nat}

/-- Serving another client leaves fewer turns in front of one that waits. -/
theorem sum_turns_lt (h : GivesTurns clients most serve waits later ok turns) {s : σ} {a : α} {i : ι}
    (hok : ok s a) (hi : waits a i) (hne : (serve s a).1 ≠ i) :
    ∑ j ∈ clients, turns (serve s a).2 i j < ∑ j ∈ clients, turns s i j := by
  have huses := h.uses hok hi hne
  have hserved := (h.serves hok (h.serves hok hi).2).1
  refine Finset.sum_lt_sum (fun j hj => Nat.le_of_add_right_le (huses j hj)) ⟨_, hserved, ?_⟩
  have hused := huses _ hserved
  rw [if_pos rfl] at hused
  exact hused

/-- There are at most `most` turns of each of the others in front of a client. -/
theorem sum_turns_le (h : GivesTurns clients most serve waits later ok turns) {s : σ} {a : α} {i : ι}
    (hok : ok s a) (hi : i ∈ clients) :
    ∑ j ∈ clients, turns s i j ≤ most * (clients.card - 1) := by
  calc ∑ j ∈ clients, turns s i j
      = turns s i i + ∑ j ∈ clients.erase i, turns s i j := (Finset.add_sum_erase _ _ hi).symm
    _ = ∑ j ∈ clients.erase i, turns s i j := by rw [h.self hok, Nat.zero_add]
    _ ≤ (clients.erase i).card • most := Finset.sum_le_card_nsmul _ _ _ fun j _ => h.le_most hok i j
    _ = most * (clients.card - 1) := by rw [Finset.card_erase_of_mem hi, smul_eq_mul, Nat.mul_comm]

end GivesTurns

end VmmShowcase
