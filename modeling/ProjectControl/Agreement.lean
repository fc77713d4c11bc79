import Mathlib.Data.List.Forall2
import Mathlib.Data.List.Sort

/-! Two computations of which both fail or both return values that correspond, and what makes a
loop, a collection or a sort deaf to the order of its input. -/

set_option autoImplicit false

section Agree

variable {ε δ α β γ κ : Type} {R : α → β → Prop} {x : Except ε α} {y : Except δ β}

/-- Both computations fail, or both return and `R` holds between what they return. -/
inductive Agree (R : α → β → Prop) : Except ε α → Except δ β → Prop
  | error {e : ε} {e' : δ} : Agree R (.error e) (.error e')
  | ok {a : α} {b : β} (h : R a b) : Agree R (.ok a) (.ok b)

namespace Agree

theorem pure {a : α} {b : β} (h : R a b) :
    Agree R (Pure.pure a : Except ε α) (Pure.pure b : Except δ β) := ok h

theorem throw {e : ε} {e' : δ} :
    Agree R (throw e : Except ε α) (throw e' : Except δ β) := error

/-- What is returned by one of the two is returned by the other. -/
theorem of_imp (hx : ∀ a, x = .ok a → ∃ b, y = .ok b ∧ R a b)
    (hy : ∀ b, y = .ok b → ∃ a, x = .ok a) : Agree R x y := by
  cases x with
  | ok a =>
    obtain ⟨b, rfl, hab⟩ := hx a rfl
    exact ok hab
  | error e =>
    cases y with
    | error e' => exact error
    | ok b =>
      obtain ⟨a, ha⟩ := hy b rfl
      cases ha

theorem refl {R : α → α → Prop} (h : ∀ a, x = .ok a → R a a) : Agree R x x := by
  cases x with
  | error e => exact error
  | ok a => exact ok (h a rfl)

theorem bind {φ ψ : Type} {S : φ → ψ → Prop} {f : α → Except ε φ} {g : β → Except δ ψ}
    (hxy : Agree R x y) (hfg : ∀ a b, R a b → Agree S (f a) (g b)) :
    Agree S (x >>= f) (y >>= g) := by
  cases hxy with
  | error => exact error
  | ok h => exact hfg _ _ h

theorem ite {p q : Prop} [Decidable p] [Decidable q] {x' : Except ε α} {y' : Except δ β}
    (hpq : p ↔ q) (h : p → Agree R x y) (h' : ¬ p → Agree R x' y') :
    Agree R (if p then x else x') (if q then y else y') := by
  by_cases hp : p
  · rw [if_pos hp, if_pos (hpq.mp hp)]
    exact h hp
  · rw [if_neg hp, if_neg (fun hq => hp (hpq.mpr hq))]
    exact h' hp

theorem mapError {ε' δ' : Type} {f : ε → ε'} {g : δ → δ'} (hxy : Agree R x y) :
    Agree R (x.mapError f) (y.mapError g) := by
  cases hxy with
  | error => exact error
  | ok h => exact ok h

end Agree

/-- A loop of checks passes if every item does. -/
theorem forM_check_iff {p : κ → Prop} [DecidablePred p] {failure : κ → ε} {items : List κ} :
    items.forM (fun k => if p k then (.ok () : Except ε Unit) else .error (failure k)) = .ok () ↔
      ∀ k ∈ items, p k := by
  induction items with
  | nil => exact ⟨fun _ _ hk => absurd hk List.not_mem_nil, fun _ => rfl⟩
  | cons k items ih =>
    rw [List.forall_mem_cons, ← ih, List.forM_eq_forM, List.forM_cons]
    by_cases hk : p k
    · rw [if_pos hk]
      exact ⟨fun h => ⟨hk, h⟩, fun h => h.2⟩
    · rw [if_neg hk]
      constructor
      · intro h
        cases h
      · exact fun h => absurd h.1 hk

/-- A loop over numbered items that checks each and keeps what it makes of it. -/
theorem mapM_check_iff (p : κ → Prop) [DecidablePred p] (failure : κ × ℕ → ε) (f : κ → α)
    {items : List κ} {n : ℕ} {found : List α} :
    (items.zipIdx n).mapM (fun k => if p k.1 then (.error (failure k) : Except ε α)
      else .ok (f k.1)) = .ok found ↔ (∀ k ∈ items, ¬ p k) ∧ items.map f = found := by
  induction items generalizing n found with
  | nil =>
    constructor
    · intro h
      cases h
      exact ⟨fun _ hk => absurd hk List.not_mem_nil, rfl⟩
    · rintro ⟨-, rfl⟩
      rfl
  | cons k items ih =>
    rw [List.zipIdx_cons, List.mapM_cons, List.forall_mem_cons]
    by_cases hk : p k
    · rw [if_pos hk]
      constructor
      · intro h
        cases h
      · exact fun h => absurd hk h.1.1
    · rw [if_neg hk]
      constructor
      · intro h
        cases hrest : (items.zipIdx (n + 1)).mapM (fun k => if p k.1 then
          (.error (failure k) : Except ε α) else .ok (f k.1)) with
        | error e =>
          rw [hrest] at h
          cases h
        | ok rest =>
          rw [hrest] at h
          cases h
          obtain ⟨hall, rfl⟩ := ih.mp hrest
          exact ⟨⟨hk, hall⟩, rfl⟩
      · rintro ⟨⟨-, hall⟩, rfl⟩
        rw [ih.mpr ⟨hall, rfl⟩]
        rfl

end Agree

section Uniform

variable {ε α β κ : Type} {P : (κ → α) → Prop}

/-- A computation with a parameter that has no say in whether it fails: it always does, or it
always returns and what it returns satisfies `P`. -/
def Uniform (x : κ → Except ε α) (P : (κ → α) → Prop) : Prop :=
  (∀ k, ∃ e, x k = .error e) ∨ ∃ f, (∀ k, x k = .ok (f k)) ∧ P f

namespace Uniform

theorem error {e : ε} : Uniform (fun _ : κ => (.error e : Except ε α)) P :=
  .inl (fun _ => ⟨e, rfl⟩)

theorem ok {f : κ → α} (h : P f) : Uniform (fun k => (.ok (f k) : Except ε α)) P :=
  .inr ⟨f, fun _ => rfl, h⟩

theorem bind {x : κ → Except ε α} {g : κ → α → Except ε β} {Q : (κ → β) → Prop}
    (hx : Uniform x P) (hg : ∀ f, P f → Uniform (fun k => g k (f k)) Q) :
    Uniform (fun k => x k >>= g k) Q := by
  rcases hx with herror | ⟨f, hf, hP⟩
  · refine .inl (fun k => ?_)
    obtain ⟨e, he⟩ := herror k
    exact ⟨e, congrArg (· >>= g k) he⟩
  · have heq : (fun k => x k >>= g k) = fun k => g k (f k) :=
      funext (fun k => congrArg (· >>= g k) (hf k))
    rw [heq]
    exact hg f hP

/-- A step without the parameter. -/
theorem bind_const {x : Except ε α} {g : κ → α → Except ε β} {Q : (κ → β) → Prop}
    (hg : ∀ a, Uniform (fun k => g k a) Q) : Uniform (fun k => x >>= g k) Q := by
  cases x with
  | error e => exact error
  | ok a => exact hg a

theorem mapM {γ : Type} {f : κ → γ → Except ε α} {items : List γ}
    (h : ∀ c ∈ items, Uniform (fun k => f k c) (fun _ => True)) :
    Uniform (fun k => items.mapM (f k)) (fun _ => True) := by
  induction items with
  | nil => exact ok trivial
  | cons c items ih =>
    simp only [List.mapM_cons]
    refine bind (h c List.mem_cons_self) (fun first _ => ?_)
    refine bind (ih (fun c hc => h c (List.mem_cons_of_mem _ hc))) (fun rest _ => ?_)
    exact ok trivial

end Uniform

end Uniform

section Sorting

variable {α κ : Type} {f : α → κ} {r : κ → κ → Prop} [DecidableRel r] [Std.Total r]
  [IsTrans κ r] [Std.Antisymm r] {items items' : List α}

/-- Items of different keys are sorted by their keys to one list, in whatever order they come. -/
theorem insertionSort_eq_of_perm (h : items.Perm items') (hnodup : (items.map f).Nodup) :
    items.insertionSort (fun a b => r (f a) (f b)) =
      items'.insertionSort (fun a b => r (f a) (f b)) := by
  have htotal : Std.Total (fun a b => r (f a) (f b)) := ⟨fun a b => Std.Total.total (f a) (f b)⟩
  have htrans : IsTrans α (fun a b => r (f a) (f b)) :=
    ⟨fun a b c => IsTrans.trans (f a) (f b) (f c)⟩
  have hsorted (items : List α) : (items.insertionSort (fun a b => r (f a) (f b))).Pairwise
      (fun a b => r (f a) (f b)) := List.pairwise_insertionSort _ items
  have hperm (items : List α) : (items.insertionSort (fun a b => r (f a) (f b))).Perm items :=
    List.perm_insertionSort _ items
  refine List.Perm.eq_of_pairwise ?_ (hsorted items) (hsorted items')
    ((hperm items).trans (h.trans (hperm items').symm))
  intro a b ha hb hab hba
  have ha : a ∈ items := (hperm items).mem_iff.mp ha
  have hb : b ∈ items := h.mem_iff.mpr ((hperm items').mem_iff.mp hb)
  exact List.inj_on_of_nodup_map hnodup ha hb (Std.Antisymm.antisymm _ _ hab hba)

end Sorting
