import Mathlib.Data.Nat.Notation
import Mathlib.Order.Basic

/-! A loop whose body either goes on with another state or breaks: how many rounds it makes, the
state it ends in, and why it ends at all. -/

set_option autoImplicit false

namespace Loops

variable {α : Type} {step : α → Option α}

/-- From the first state the loop makes so many rounds and then breaks in the last state. -/
inductive Ends (step : α → Option α) : α → ℕ → α → Prop
  | stop {s : α} : step s = none → Ends step s 0 s
  | next {s s' t : α} {k : ℕ} : step s = some s' → Ends step s' k t → Ends step s (k + 1) t

/-- A loop ends if a measure gets smaller in every round, and it makes no more rounds than that. -/
theorem exists_ends {P : α → Prop} (measure : α → ℕ)
    (hstep : ∀ s s', P s → step s = some s' → P s' ∧ measure s' < measure s) {s : α} (hs : P s) :
    ∃ k t, Ends step s k t ∧ k ≤ measure s := by
  -- by induction on a bound of the measure
  have hbounded : ∀ n s, P s → measure s ≤ n → ∃ k t, Ends step s k t ∧ k ≤ measure s := by
    intro n
    induction n with
    | zero =>
      intro s hs hn
      cases hnext : step s with
      | none => exact ⟨0, s, .stop hnext, Nat.zero_le _⟩
      | some s' =>
        have hlt := (hstep s s' hs hnext).2
        omega
    | succ n ih =>
      intro s hs hn
      cases hnext : step s with
      | none => exact ⟨0, s, .stop hnext, Nat.zero_le _⟩
      | some s' =>
        obtain ⟨hs', hlt⟩ := hstep s s' hs hnext
        obtain ⟨k, t, hends, hk⟩ := ih s' hs' (by omega)
        exact ⟨k + 1, t, .next hnext hends, by omega⟩
  exact hbounded (measure s) s hs (Nat.le_refl _)

/-- The states that follow, for so many rounds at most, when the loop is not left before. -/
def later (step : α → Option α) : ℕ → α → List α
  | 0, _ => []
  | n + 1, s =>
    match step s with
    | some s' => s' :: later step n s'
    | none => []

/-- Where a loop ends that is left at a good state: the first good one, or the last. -/
def firstGood (good : α → Bool) : α → List α → α
  | s, [] => s
  | s, s' :: rest => if good s then s else firstGood good s' rest

variable {good : α → Bool} {s : α} {l l' : List α}

theorem firstGood_self (h : good s = true) : firstGood good s l = s := by
  cases l with
  | nil => rfl
  | cons s' l => exact if_pos h

theorem firstGood_mem : firstGood good s l ∈ s :: l := by
  induction l generalizing s with
  | nil => exact List.mem_cons_self
  | cons s' l ih =>
    rw [firstGood]
    split_ifs
    · exact List.mem_cons_self
    · exact List.mem_cons_of_mem s ih

/-- A loop ends in a good state if and only if it would come to one. -/
theorem good_firstGood : good (firstGood good s l) = true ↔ ∃ t ∈ s :: l, good t = true := by
  refine ⟨fun h => ⟨_, firstGood_mem, h⟩, ?_⟩
  induction l generalizing s with
  | nil =>
    rintro ⟨t, ht, hgood⟩
    exact List.mem_singleton.mp ht ▸ hgood
  | cons s' l ih =>
    rintro ⟨t, ht, hgood⟩
    rw [firstGood]
    split_ifs with hs
    · exact hs
    · rcases List.mem_cons.mp ht with rfl | ht
      · exact absurd hgood hs
      · exact ih ⟨t, ht, hgood⟩

/-- Else it ends in the last state. -/
theorem firstGood_last (h : ∀ t ∈ s :: l, good t = false) : firstGood good s l = l.getLastD s := by
  induction l generalizing s with
  | nil => rfl
  | cons s' l ih =>
    have hs := h s List.mem_cons_self
    rw [firstGood, if_neg (Bool.eq_false_iff.mp hs), List.getLastD_cons]
    exact ih fun t ht => h t (List.mem_cons_of_mem s ht)

/-- One loop after another that is left at the same states. -/
theorem firstGood_append : firstGood good s (l ++ l') = firstGood good (firstGood good s l) l' := by
  induction l generalizing s with
  | nil => rfl
  | cons s' l ih =>
    rw [List.cons_append, firstGood, firstGood]
    split_ifs with hs
    · exact (firstGood_self hs).symm
    · exact ih

end Loops
