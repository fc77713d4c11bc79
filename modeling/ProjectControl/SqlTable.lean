import Mathlib.Data.List.Basic
import Mathlib.Data.List.Pairwise
import Mathlib.Order.Defs.Unbundled

/-! Tables whose rows meet pairwise constraints, the statements that change them, and the
three-valued conditions of the guards that can skip a row. -/

set_option autoImplicit false

namespace Sql

/-- The value of a condition in a statement. -/
inductive Truth where
  | no
  | yes
  | null
  deriving DecidableEq, Repr

namespace Truth

variable {α : Type} [DecidableEq α] {a b : Truth}

def of (p : Prop) [Decidable p] : Truth := if p then yes else no

/-- Whether the condition selects a row: NULL does not. -/
def holds (a : Truth) : Bool := a == yes

def and : Truth → Truth → Truth
  | no, _ => no
  | _, no => no
  | yes, yes => yes
  | _, _ => null

def or : Truth → Truth → Truth
  | yes, _ => yes
  | _, yes => yes
  | no, no => no
  | _, _ => null

def not : Truth → Truth
  | no => yes
  | yes => no
  | null => null

def all (conditions : List Truth) : Truth := conditions.foldr and yes

def any (conditions : List Truth) : Truth := conditions.foldr or no

/-- `=`, which is NULL if an operand is. -/
def eq : Option α → Option α → Truth
  | some x, some y => of (x = y)
  | _, _ => null

/-- `IS NOT`, which is never NULL. -/
def isNot (x y : α) : Truth := of (x ≠ y)

@[simp]
theorem holds_of (p : Prop) [Decidable p] : (of p).holds = true ↔ p := by
  by_cases h : p <;> simp [of, holds, h]

@[simp]
theorem holds_isNot (x y : α) : (isNot x y).holds = true ↔ x ≠ y :=
  holds_of _

@[simp]
theorem holds_and : (a.and b).holds = true ↔ a.holds = true ∧ b.holds = true := by
  cases a <;> cases b <;> decide

@[simp]
theorem holds_or : (a.or b).holds = true ↔ a.holds = true ∨ b.holds = true := by
  cases a <;> cases b <;> decide

/-- A false conjunct makes a conjunction false, whatever else in it is NULL. -/
theorem not_all_of_mem {conditions : List Truth} (h : no ∈ conditions) :
    all conditions = no := by
  induction conditions with
  | nil => cases h
  | cons first rest ih =>
    show first.and (all rest) = no
    rcases List.mem_cons.mp h with h | h
    · subst h
      rfl
    · rw [ih h]
      cases first <;> rfl

@[simp]
theorem holds_all {conditions : List Truth} :
    (all conditions).holds = true ↔ ∀ c ∈ conditions, c.holds = true := by
  induction conditions with
  | nil => exact ⟨fun _ _ h => (by cases h), fun _ => rfl⟩
  | cons first rest ih =>
    show (first.and (all rest)).holds = true ↔ _
    rw [holds_and, ih, List.forall_mem_cons]

@[simp]
theorem holds_any {conditions : List Truth} :
    (any conditions).holds = true ↔ ∃ c ∈ conditions, c.holds = true := by
  induction conditions with
  | nil => exact ⟨fun h => (by cases h), fun ⟨_, h, _⟩ => (by cases h)⟩
  | cons first rest ih =>
    show (first.or (any rest)).holds = true ↔ _
    rw [holds_or, ih, List.exists_mem_cons_iff]

end Truth

/-- Rows that are pairwise related by `R`: the primary key and the unique indexes. -/
structure Table (ρ : Type) (R : ρ → ρ → Prop) where
  rows : List ρ
  distinct : rows.Pairwise R

/-- A change of single rows that cannot break a constraint. -/
structure Change {ρ : Type} (R : ρ → ρ → Prop) where
  apply : ρ → ρ
  left : ∀ a b, R a b → R (apply a) b
  right : ∀ a b, R a b → R a (apply b)

namespace Table

variable {ρ κ : Type} {R : ρ → ρ → Prop} {t t' : Table ρ R} {r : ρ}

instance : Membership ρ (Table ρ R) := ⟨fun t r => r ∈ t.rows⟩

def empty : Table ρ R := ⟨[], .nil⟩

/-- `INSERT`, which fails if a row of the table conflicts with the new one. -/
def insert? [DecidableRel R] (t : Table ρ R) (r : ρ) : Option (Table ρ R) :=
  if h : ∀ a ∈ t.rows, R a r then
    some ⟨t.rows ++ [r], List.pairwise_append.mpr
      ⟨t.distinct, List.pairwise_singleton R r, fun a ha b hb => by
        rw [List.mem_singleton.mp hb]
        exact h a ha⟩⟩
  else none

/-- `DELETE` of the selected rows. -/
def delete (t : Table ρ R) (selected : ρ → Bool) : Table ρ R :=
  ⟨t.rows.filter (fun r => !selected r), t.distinct.filter _⟩

/-- `UPDATE` of the selected rows. -/
def update (t : Table ρ R) (selected : ρ → Bool) (c : Change R) : Table ρ R :=
  ⟨t.rows.map (fun r => if selected r then c.apply r else r), by
    refine List.pairwise_map.mpr (t.distinct.imp (fun {a b} hab => ?_))
    by_cases ha : selected a = true <;> by_cases hb : selected b = true
    · rw [if_pos ha, if_pos hb]
      exact c.left _ _ (c.right _ _ hab)
    · rw [if_pos ha, if_neg hb]
      exact c.left _ _ hab
    · rw [if_neg ha, if_pos hb]
      exact c.right _ _ hab
    · rw [if_neg ha, if_neg hb]
      exact hab⟩

theorem rows_insert? [DecidableRel R] (h : t.insert? r = some t') : t'.rows = t.rows ++ [r] := by
  unfold insert? at h
  split at h
  · cases h
    rfl
  · cases h

theorem mem_insert? [DecidableRel R] (h : t.insert? r = some t') (a : ρ) :
    a ∈ t' ↔ a ∈ t ∨ a = r := by
  unfold insert? at h
  split at h
  · cases h
    exact List.mem_append.trans (or_congr_right List.mem_singleton)
  · cases h

theorem insert?_eq_none [DecidableRel R] :
    t.insert? r = none ↔ ∃ a ∈ t, ¬ R a r := by
  unfold insert?
  split
  · rename_i h
    exact ⟨fun h' => (by cases h'), fun ⟨a, ha, hne⟩ => absurd (h a ha) hne⟩
  · rename_i h
    obtain ⟨a, ha⟩ := not_forall.mp h
    obtain ⟨hmem, hne⟩ := Classical.not_imp.mp ha
    exact ⟨fun _ => ⟨a, hmem, hne⟩, fun _ => rfl⟩

/-- `INSERT OR IGNORE` adds at most the new row. -/
theorem mem_insert?_getD [DecidableRel R] {a : ρ} (h : a ∈ (t.insert? r).getD t) :
    a ∈ t ∨ a = r := by
  cases hi : t.insert? r with
  | none =>
    rw [hi] at h
    exact .inl h
  | some t' =>
    rw [hi] at h
    exact (mem_insert? hi a).mp h

theorem mem_insert?_getD_of_mem [DecidableRel R] {a : ρ} (h : a ∈ t) :
    a ∈ (t.insert? r).getD t := by
  cases hi : t.insert? r with
  | none => exact h
  | some t' => exact (mem_insert? hi a).mpr (.inl h)

/-- After `INSERT OR IGNORE` there is the new row or one that conflicts with it. -/
theorem exists_mem_insert?_getD [DecidableRel R] :
    ∃ a ∈ (t.insert? r).getD t, a = r ∨ ¬ R a r := by
  cases hi : t.insert? r with
  | none =>
    obtain ⟨a, ha, hne⟩ := insert?_eq_none.mp hi
    exact ⟨a, ha, .inr hne⟩
  | some t' => exact ⟨r, (mem_insert? hi r).mpr (.inr rfl), .inl rfl⟩

theorem mem_of_find? {p : ρ → Bool} (h : t.rows.find? p = some r) : r ∈ t ∧ p r = true :=
  ⟨List.mem_of_find?_eq_some h, List.find?_some h⟩

/-- A query that selects a single row of the table finds it. -/
theorem find?_eq_some {p : ρ → Bool} (hr : r ∈ t) (hp : p r = true)
    (hunique : ∀ a ∈ t, p a = true → a = r) : t.rows.find? p = some r := by
  cases hf : t.rows.find? p with
  | none => exact absurd hp (List.find?_eq_none.mp hf r hr)
  | some a =>
    obtain ⟨ha, hpa⟩ := mem_of_find? hf
    rw [hunique a ha hpa]

theorem mem_delete {selected : ρ → Bool} (a : ρ) :
    a ∈ t.delete selected ↔ a ∈ t ∧ selected a = false := by
  refine List.mem_filter.trans (and_congr_right (fun _ => ?_))
  cases selected a <;> decide

theorem mem_update {selected : ρ → Bool} {c : Change R} (b : ρ) :
    b ∈ t.update selected c ↔ ∃ a ∈ t, (if selected a then c.apply a else a) = b :=
  List.mem_map

/-- An update that selects no row changes nothing. -/
theorem update_eq_self {selected : ρ → Bool} {c : Change R} (h : ∀ a ∈ t, selected a = false) :
    t.update selected c = t := by
  obtain ⟨rows, distinct⟩ := t
  unfold update
  congr 1
  refine (List.map_congr_left (fun a ha => ?_)).trans rows.map_id
  rw [h a ha]
  rfl

/-- Two rows that conflict are the same row. -/
theorem eq_of_mem (hsymm : ∀ a b, R a b → R b a) {a b : ρ} (ha : a ∈ t) (hb : b ∈ t)
    (hne : ¬ R a b) : a = b := by
  by_contra h
  have : Std.Symm R := ⟨hsymm⟩
  exact hne (t.distinct.forall ha hb h)

end Table

end Sql
