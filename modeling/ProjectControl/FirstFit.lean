import Mathlib

/-! First fit: what comes is taken when it is admitted after all that was taken before, or is put
into the first group in which it is in conflict with nothing. -/

set_option autoImplicit false

namespace FirstFit

section Selections

variable {α : Type*} {admits : List α → α → Bool} {fits : List α → Bool} {taken xs : List α}

/-- `admits taken x` decides about `x` once `taken` has been taken. -/
def select (admits : List α → α → Bool) (taken : List α) : List α → List α
  | [] => taken
  | x :: rest => select admits (if admits taken x then taken ++ [x] else taken) rest

theorem select_nil_of_none (h : ∀ x ∈ xs, admits [] x = false) : select admits [] xs = [] := by
  induction xs with
  | nil => rfl
  | cons x rest ih =>
    have hx : ¬admits [] x = true := Bool.eq_false_iff.mp (h x List.mem_cons_self)
    rw [select, if_neg hx]
    exact ih fun y hy => h y (List.mem_cons_of_mem x hy)

/-- What is taken later is what was taken before it, and each of the rest when its turn came. -/
theorem forall_mem_select_iff (P : α → Prop) : (∀ x ∈ select admits taken xs, P x) ↔
    (∀ x ∈ taken, P x) ∧ ∀ before x after, xs = before ++ x :: after →
      admits (select admits taken before) x = true → P x := by
  induction xs generalizing taken with
  | nil =>
    refine ⟨fun h => ⟨h, fun before x after hxs => ?_⟩, fun h => h.1⟩
    exact absurd hxs.symm (List.append_ne_nil_of_right_ne_nil before (List.cons_ne_nil x after))
  | cons y rest ih =>
    rw [select, ih]
    constructor
    · rintro ⟨htaken, hrest⟩
      refine ⟨fun x hx => htaken x ?_, fun before x after hxs hx => ?_⟩
      · split_ifs
        · exact List.mem_append_left _ hx
        · exact hx
      · cases before with
        | nil =>
          obtain ⟨rfl, rfl⟩ := List.cons.inj hxs
          rw [select] at hx
          rw [if_pos hx] at htaken
          exact htaken y (List.mem_append_right taken (List.mem_singleton_self y))
        | cons z before =>
          obtain ⟨rfl, rfl⟩ := List.cons.inj hxs
          exact hrest before x after rfl hx
    · rintro ⟨htaken, hrest⟩
      refine ⟨fun x hx => ?_, fun before x after hxs hx => ?_⟩
      · split_ifs at hx with hy
        · rcases List.mem_append.mp hx with hx | hx
          · exact htaken x hx
          · obtain rfl := List.mem_singleton.mp hx
            exact hrest [] x rest rfl hy
        · exact htaken x hx
      · exact hrest (y :: before) x after (congrArg (y :: ·) hxs) hx

/-- What is only admitted where it fits leaves a selection that fits. -/
theorem select_fits (hadmits : ∀ taken x, admits taken x = true → fits (taken ++ [x]) = true)
    (htaken : fits taken = true) : fits (select admits taken xs) = true := by
  induction xs generalizing taken with
  | nil => exact htaken
  | cons x rest ih =>
    rw [select]
    split_ifs with hx
    · exact ih (hadmits taken x hx)
    · exact ih htaken

/-- Whether the selection fits is decided at the start: by the empty selection, or by one element
that is admitted alone. -/
theorem select_fits_iff (hadmits : ∀ taken x, admits taken x = true → fits (taken ++ [x]) = true) :
    fits (select admits [] xs) = true ↔ fits [] = true ∨ ∃ x ∈ xs, admits [] x = true := by
  constructor
  · intro hfits
    by_cases hsome : ∃ x ∈ xs, admits [] x = true
    · exact .inr hsome
    · have hnone : ∀ x ∈ xs, admits [] x = false := fun x hx =>
        Bool.eq_false_iff.mpr fun hadmitted => hsome ⟨x, hx, hadmitted⟩
      rw [select_nil_of_none hnone] at hfits
      exact .inl hfits
  · rintro (hempty | ⟨x, hx, hadmitted⟩)
    · exact select_fits hadmits hempty
    · induction xs with
      | nil => cases hx
      | cons y rest ih =>
        rw [select]
        split_ifs with hy
        · exact select_fits hadmits (hadmits [] y hy)
        · rcases List.mem_cons.mp hx with rfl | hx
          · exact absurd hadmitted hy
          · exact ih hx

end Selections

section Groups

variable {α : Type*} (conflict : α → α → Bool)

def place (x : α) : List (List α) → List (List α)
  | [] => [[x]]
  | group :: rest =>
    if group.all (fun other => !conflict x other) then (group ++ [x]) :: rest
    else group :: place x rest

def groups (xs : List α) : List (List α) := xs.foldl (fun placed x => place conflict x placed) []

variable {conflict} {x : α} {placed : List (List α)} {group : List α}

/-- A group with members, of which none is in conflict with an earlier one. -/
def Compatible (conflict : α → α → Bool) (group : List α) : Prop :=
  group ≠ [] ∧ group.Pairwise fun earlier later => conflict later earlier = false

end Groups

end FirstFit
