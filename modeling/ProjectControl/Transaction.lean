import Mathlib.Data.List.Forall2
import Mathlib.Logic.Basic

/-! Rules for computations that either commit a result or fail, and for runs of a state
machine whose transactions are such computations. -/

set_option autoImplicit false

section Ensures

variable {ε α β γ : Type} {x : Except ε α} {P Q : α → Prop}

/-- Every result that the computation commits satisfies `P`. -/
def Ensures (x : Except ε α) (P : α → Prop) : Prop := ∀ a, x = .ok a → P a

namespace Ensures

theorem pure {a : α} (h : P a) : Ensures (Pure.pure a : Except ε α) P := by
  intro b hb
  cases hb
  exact h

theorem ok {a : α} (h : P a) : Ensures (.ok a : Except ε α) P := pure h

theorem error {e : ε} : Ensures (.error e : Except ε α) P := by
  intro b hb
  cases hb

theorem throw {e : ε} : Ensures (throw e : Except ε α) P := error

theorem mono (h : Ensures x P) (hPQ : ∀ a, P a → Q a) : Ensures x Q :=
  fun a ha => hPQ a (h a ha)

theorem and (hP : Ensures x P) (hQ : Ensures x Q) : Ensures x (fun a => P a ∧ Q a) :=
  fun a ha => ⟨hP a ha, hQ a ha⟩

theorem ok_of_toOption {a : α} (h : x.toOption = some a) : x = .ok a := by
  cases x with
  | error e => cases h
  | ok b =>
    cases h
    rfl

theorem of_eq : Ensures x (fun a => x = .ok a) := fun _ h => h

theorem bind_eq_ok {f : α → Except ε β} {b : β} :
    (x >>= f) = .ok b ↔ ∃ a, x = .ok a ∧ f a = .ok b := by
  cases x with
  | error e => simp [Bind.bind, Except.bind]
  | ok a => simp [Bind.bind, Except.bind]

theorem bind {f : α → Except ε β} {R : β → Prop} (hx : Ensures x P)
    (hf : ∀ a, P a → Ensures (f a) R) : Ensures (x >>= f) R := by
  intro b hb
  cases x with
  | error e => cases hb
  | ok a => exact hf a (hx a rfl) b hb

theorem map {f : α → β} {R : β → Prop} (hx : Ensures x (fun a => R (f a))) :
    Ensures (f <$> x) R := by
  intro b hb
  cases x with
  | error e => cases hb
  | ok a =>
    cases hb
    exact hx a rfl

theorem ite {p : Prop} [Decidable p] {y : Except ε α} (hx : p → Ensures x P)
    (hy : ¬ p → Ensures y P) : Ensures (if p then x else y) P := by
  by_cases h : p
  · rw [if_pos h]
    exact hx h
  · rw [if_neg h]
    exact hy h

/-- A loop keeps an invariant that each of its rounds keeps. -/
theorem foldlM {f : α → β → Except ε α} {items : List β} {a : α} (h : P a)
    (hf : ∀ a, ∀ b ∈ items, P a → Ensures (f a b) P) : Ensures (items.foldlM f a) P := by
  induction items generalizing a with
  | nil => exact pure h
  | cons b rest ih =>
    refine bind (hf a b List.mem_cons_self h) (fun a' h' => ih h' ?_)
    exact fun a b hb => hf a b (List.mem_cons_of_mem _ hb)

/-- A loop of checks passes only if each of them does. -/
theorem forM {check : β → Except ε Unit} {items : List β} {R : β → Prop}
    (h : ∀ b ∈ items, Ensures (check b) (fun _ => R b)) :
    Ensures (items.forM check) (fun _ => ∀ b ∈ items, R b) := by
  induction items with
  | nil => exact pure (fun _ hb => nomatch hb)
  | cons first rest ih =>
    refine bind (h first List.mem_cons_self) (fun _ hfirst => ?_)
    refine (ih (fun b hb => h b (List.mem_cons_of_mem _ hb))).mono (fun _ hrest => ?_)
    exact List.forall_mem_cons.mpr ⟨hfirst, hrest⟩

/-- A loop that collects results is pointwise. -/
theorem mapM {f : α → Except ε β} {items : List α} {R : α → β → Prop}
    (h : ∀ a ∈ items, Ensures (f a) (R a)) : Ensures (items.mapM f) (List.Forall₂ R items) := by
  induction items with
  | nil => exact pure .nil
  | cons a items ih =>
    rw [List.mapM_cons]
    refine bind (h a List.mem_cons_self) (fun b hb => ?_)
    refine bind (ih (fun a ha => h a (List.mem_cons_of_mem _ ha))) (fun rest hrest => ?_)
    exact pure (.cons hb hrest)

/-- The round of one item takes the loop from `P` to `Q`, and the others keep both. -/
theorem foldlM_reaches {f : α → β → Except ε α} {items : List β} {b : β} {a : α} (hb : b ∈ items)
    (hP : ∀ a, ∀ c ∈ items, P a → Ensures (f a c) P) (hPQ : ∀ a, P a → Ensures (f a b) Q)
    (hQ : ∀ a, ∀ c ∈ items, Q a → Ensures (f a c) Q) (h : P a) :
    Ensures (items.foldlM f a) Q := by
  induction items generalizing a with
  | nil => cases hb
  | cons c rest ih =>
    rcases List.mem_cons.mp hb with rfl | hrest
    · refine bind (hPQ a h) (fun a' h' => foldlM h' ?_)
      exact fun a c hc => hQ a c (List.mem_cons_of_mem _ hc)
    · refine bind (hP a c List.mem_cons_self h) (fun a' h' => ih hrest ?_ ?_ h')
      · exact fun a d hd => hP a d (List.mem_cons_of_mem _ hd)
      · exact fun a d hd => hQ a d (List.mem_cons_of_mem _ hd)

/-- Two loops whose states correspond by `φ` do the same, if their rounds do. -/
theorem foldlM_simulates {δ : Type} {f : α → β → Except ε α} {g : δ → β → Except ε δ}
    (φ : α → δ) {items : List β} {a : α} (h : P a)
    (hf : ∀ a, ∀ b ∈ items, P a → Ensures (f a b) P ∧ g (φ a) b = φ <$> f a b) :
    items.foldlM g (φ a) = φ <$> items.foldlM f a := by
  induction items generalizing a with
  | nil => rfl
  | cons b rest ih =>
    obtain ⟨hkeeps, hround⟩ := hf a b List.mem_cons_self h
    rw [List.foldlM_cons, List.foldlM_cons, hround]
    cases hab : f a b with
    | error e => rfl
    | ok a' => exact ih (hkeeps a' hab) (fun a c hc => hf a c (List.mem_cons_of_mem _ hc))

end Ensures

end Ensures

section Commits

variable {ε α β : Type} {x : Except ε α} {P Q : α → Prop}

/-- The computation commits, and what it commits satisfies `P`. -/
def Commits (x : Except ε α) (P : α → Prop) : Prop := ∃ a, x = .ok a ∧ P a

namespace Commits

theorem pure {a : α} (h : P a) : Commits (Pure.pure a : Except ε α) P := ⟨a, rfl, h⟩

theorem mono (h : Commits x P) (hPQ : ∀ a, P a → Q a) : Commits x Q := by
  obtain ⟨a, ha, hP⟩ := h
  exact ⟨a, ha, hPQ a hP⟩

theorem bind {f : α → Except ε β} {R : β → Prop} (hx : Commits x P)
    (hf : ∀ a, P a → Commits (f a) R) : Commits (x >>= f) R := by
  obtain ⟨a, ha, hP⟩ := hx
  obtain ⟨b, hb, hR⟩ := hf a hP
  subst ha
  exact ⟨b, hb, hR⟩

theorem map {f : α → β} {R : β → Prop} (hx : Commits x (fun a => R (f a))) :
    Commits (f <$> x) R := by
  obtain ⟨a, ha, hR⟩ := hx
  subst ha
  exact ⟨f a, rfl, hR⟩

theorem foldlM {f : α → β → Except ε α} {items : List β} {a : α} (h : P a)
    (hf : ∀ a, ∀ b ∈ items, P a → Commits (f a b) P) : Commits (items.foldlM f a) P := by
  induction items generalizing a with
  | nil => exact pure h
  | cons b rest ih =>
    refine bind (hf a b List.mem_cons_self h) (fun a' h' => ih h' ?_)
    exact fun a b hb => hf a b (List.mem_cons_of_mem _ hb)

/-- A loop whose rounds all succeed, with what each of them gives. -/
theorem mapM {f : α → Except ε β} {R : α → β → Prop} {items : List α}
    (hf : ∀ a ∈ items, Commits (f a) (R a)) : Commits (items.mapM f) (List.Forall₂ R items) := by
  induction items with
  | nil => exact pure .nil
  | cons a rest ih =>
    rw [List.mapM_cons]
    refine bind (hf a List.mem_cons_self) (fun b hb => ?_)
    exact bind (ih (fun c hc => hf c (List.mem_cons_of_mem _ hc))) (fun bs hbs => pure (.cons hb hbs))

end Commits

end Commits

section Raises

variable {ε α β : Type} {x : Except ε α} {E : ε → Prop}

/-- Every error that the computation raises satisfies `E`. -/
def Raises (x : Except ε α) (E : ε → Prop) : Prop := ∀ e, x = .error e → E e

namespace Raises

theorem pure {a : α} : Raises (Pure.pure a : Except ε α) E := by
  intro e he
  cases he

theorem throw {e : ε} (h : E e) : Raises (throw e : Except ε α) E := by
  intro e' he
  cases he
  exact h

theorem bind {f : α → Except ε β} (hx : Raises x E) (hf : ∀ a, x = .ok a → Raises (f a) E) :
    Raises (x >>= f) E := by
  intro e he
  cases x with
  | error e' =>
    cases he
    exact hx e rfl
  | ok a => exact hf a rfl e he

theorem map {f : α → β} (hx : Raises x E) : Raises (f <$> x) E := by
  intro e he
  cases x with
  | error e' =>
    cases he
    exact hx e rfl
  | ok a => cases he

theorem mapError {ε' : Type} {x : Except ε' α} {f : ε' → ε} (h : ∀ e, E (f e)) :
    Raises (x.mapError f) E := by
  cases x with
  | error e => exact throw (h e)
  | ok a => exact pure

theorem ite {p : Prop} [Decidable p] {y : Except ε α} (hx : p → Raises x E)
    (hy : ¬ p → Raises y E) : Raises (if p then x else y) E := by
  by_cases h : p
  · rw [if_pos h]
    exact hx h
  · rw [if_neg h]
    exact hy h

theorem forM {check : β → Except ε Unit} {items : List β}
    (h : ∀ b ∈ items, Raises (check b) E) : Raises (items.forM check) E := by
  induction items with
  | nil => exact pure
  | cons b rest ih =>
    refine bind (h b List.mem_cons_self) (fun _ _ => ih ?_)
    exact fun c hc => h c (List.mem_cons_of_mem _ hc)

theorem foldlM {f : α → β → Except ε α} {items : List β} {a : α}
    (hf : ∀ a, ∀ b ∈ items, Raises (f a b) E) : Raises (items.foldlM f a) E := by
  induction items generalizing a with
  | nil => exact pure
  | cons b rest ih =>
    refine bind (hf a b List.mem_cons_self) (fun a' _ => ih ?_)
    exact fun a b hb => hf a b (List.mem_cons_of_mem _ hb)

theorem mapM {f : α → Except ε β} {items : List α} (hf : ∀ a ∈ items, Raises (f a) E) :
    Raises (items.mapM f) E := by
  induction items with
  | nil => exact pure
  | cons a rest ih =>
    rw [List.mapM_cons]
    refine bind (hf a List.mem_cons_self) (fun b _ => ?_)
    exact bind (ih (fun c hc => hf c (List.mem_cons_of_mem _ hc))) (fun _ _ => pure)

end Raises

end Raises

namespace Runs

variable {σ α : Type} (step : σ → α → σ)

/-- `P` holds of every state of a run and the action taken in it. -/
def Along (P : σ → α → Prop) : σ → List α → Prop
  | _, [] => True
  | s, a :: rest => P s a ∧ Along P (step s a) rest

variable {step} {P Q : σ → α → Prop} {s : σ} {actions : List α}

theorem along_of_forall {p : α → Prop} (h : ∀ a ∈ actions, p a) :
    Along step (fun _ a => p a) s actions := by
  induction actions generalizing s with
  | nil => trivial
  | cons a rest ih =>
    exact ⟨h a List.mem_cons_self, ih (fun b hb => h b (List.mem_cons_of_mem _ hb))⟩

theorem Along.left {first second : List α} (h : Along step P s (first ++ second)) :
    Along step P s first := by
  induction first generalizing s with
  | nil => trivial
  | cons a rest ih => exact ⟨h.1, ih h.2⟩

theorem Along.right {first second : List α} (h : Along step P s (first ++ second)) :
    Along step P (first.foldl step s) second := by
  induction first generalizing s with
  | nil => exact h
  | cons a rest ih => exact ih h.2

/-- What every step keeps holds at the end of a run. -/
theorem Along.invariant {I : σ → Prop} (h : Along step P s actions)
    (hstep : ∀ s a, I s → P s a → I (step s a)) (hs : I s) : I (actions.foldl step s) := by
  induction actions generalizing s with
  | nil => exact hs
  | cons a rest ih => exact ih h.2 (hstep s a hs h.1)

end Runs
