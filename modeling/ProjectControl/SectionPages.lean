import Mathlib
import ProjectControl.Paging

/-! Pages over several sections of rows: where a reading stands, what is left of every section
there, and the readings that end because every page takes something away. -/

set_option autoImplicit false

namespace Paging

section Readings

variable {C E P α : Type*} {read : C → Except E P} {next : P → Option C}

/-- The pages of a reading put together give what is left at its first cursor, where every page
gives what it takes away. -/
theorem Follows.joined (rows : P → List α) (rest : C → List α)
    (hlast : ∀ {c page}, read c = .ok page → next page = none → rows page = rest c)
    (hmore : ∀ {c c' page}, read c = .ok page → next page = some c' →
      rows page ++ rest c' = rest c)
    {c : C} {pages : List P} (h : Follows read next c pages) : pages.flatMap rows = rest c := by
  induction h with
  | last hread hnext =>
    rw [List.flatMap_singleton]
    exact hlast hread hnext
  | more hread hnext _ ih =>
    rw [List.flatMap_cons, ih]
    exact hmore hread hnext

theorem Follows.pages {Q : P → Prop} (hpage : ∀ {c page}, read c = .ok page → Q page)
    {c : C} {pages : List P} (h : Follows read next c pages) : ∀ page ∈ pages, Q page := by
  induction h with
  | last hread _ =>
    intro page hmem
    rw [List.mem_singleton.mp hmem]
    exact hpage hread
  | more hread _ _ ih =>
    intro page hmem
    rcases List.mem_cons.mp hmem with hfirst | hrest
    · rw [hfirst]
      exact hpage hread
    · exact ih page hrest

/-- A reading ends when every page that comes with a cursor lowers a measure. -/
theorem exists_follows (read : C → Except E P) (next : P → Option C) (good : C → Prop)
    (measure : C → ℕ)
    (hread : ∀ c, good c → ∃ page, read c = .ok page)
    (hnext : ∀ {c c' page}, good c → read c = .ok page → next page = some c' →
      good c' ∧ measure c' < measure c) {c : C} (hc : good c) :
    ∃ pages, Follows read next c pages ∧ pages.length ≤ measure c + 1 := by
  -- induction on a bound of the measure: the cursor of a page is below that of the page itself
  have hbelow (n : ℕ) (c : C) (hc : good c) (hn : measure c ≤ n) :
      ∃ pages, Follows read next c pages ∧ pages.length ≤ measure c + 1 := by
    induction n generalizing c with
    | zero =>
      obtain ⟨page, hpage⟩ := hread c hc
      cases hc' : next page with
      | none => exact ⟨[page], Follows.last hpage hc', by simp⟩
      | some c' =>
        have hless := (hnext hc hpage hc').2
        omega
    | succ n ih =>
      obtain ⟨page, hpage⟩ := hread c hc
      cases hc' : next page with
      | none => exact ⟨[page], Follows.last hpage hc', by simp⟩
      | some c' =>
        obtain ⟨hgood, hless⟩ := hnext hc hpage hc'
        obtain ⟨pages, hpages, hlength⟩ := ih c' hgood (by omega)
        refine ⟨page :: pages, Follows.more hpage hc' hpages, ?_⟩
        rw [List.length_cons]
        omega
  exact hbelow (measure c) c hc le_rfl

end Readings

section Sections

variable {α : Type*}

/-- Where a reading stands: the section, and the first row of it that is left. -/
structure Position where
  sectionIndex : ℕ
  rowOffset : ℕ
  deriving DecidableEq

/-- The rows that are left when so many sections are done, and so many rows of the one after. -/
def leftAt : ℕ → ℕ → List (List α) → List (List α)
  | _, _, [] => []
  | 0, rowOffset, rows :: sections => rows.drop rowOffset :: sections
  | n + 1, rowOffset, _ :: sections => [] :: leftAt n rowOffset sections

def left (sections : List (List α)) (p : Position) : List (List α) :=
  leftAt p.sectionIndex p.rowOffset sections

/-- Two pages over the same sections as one. -/
def join (xs ys : List (List α)) : List (List α) := List.zipWith (· ++ ·) xs ys

def count (sections : List (List α)) : ℕ := (sections.map List.length).sum

variable {sections xs ys : List (List α)} {rows : List α} {n rowOffset : ℕ}

@[simp] theorem leftAt_nil : leftAt n rowOffset ([] : List (List α)) = [] := by
  cases n <;> rfl

@[simp] theorem leftAt_here :
    leftAt 0 rowOffset (rows :: sections) = rows.drop rowOffset :: sections := rfl

@[simp] theorem leftAt_later :
    leftAt (n + 1) rowOffset (rows :: sections) = [] :: leftAt n rowOffset sections := rfl

@[simp] theorem join_cons {row row' : List α} :
    join (row :: xs) (row' :: ys) = (row ++ row') :: join xs ys := rfl

theorem leftAt_start (sections : List (List α)) : leftAt 0 0 sections = sections := by
  cases sections <;> rfl

theorem length_leftAt (n : ℕ) (sections : List (List α)) :
    (leftAt n rowOffset sections).length = sections.length := by
  induction sections generalizing n with
  | nil => rw [leftAt_nil]
  | cons rows sections ih =>
    cases n with
    | zero => rfl
    | succ n => rw [leftAt_later, List.length_cons, List.length_cons, ih n]

theorem join_empty (xs : List (List α)) : join (xs.map fun _ => []) xs = xs := by
  induction xs with
  | nil => rfl
  | cons rows xs ih =>
    rw [List.map_cons, join_cons, ih, List.nil_append]

theorem count_join (h : xs.length = ys.length) : count (join xs ys) = count xs + count ys := by
  induction xs generalizing ys with
  | nil =>
    rw [List.length_nil] at h
    rw [List.length_eq_zero_iff.mp h.symm]
    rfl
  | cons rows xs ih =>
    cases ys with
    | nil => cases h
    | cons rows' ys =>
      have hlength : xs.length = ys.length := by simpa using h
      have hrest := ih hlength
      simp only [count, join_cons, List.map_cons, List.sum_cons, List.length_append] at hrest ⊢
      omega

/-- The sections before a place are done when a reading stands there. -/
theorem leftAt_add {i : ℕ} (h : i ≤ sections.length) : leftAt (i + n) rowOffset sections =
    List.replicate i [] ++ leftAt n rowOffset (sections.drop i) := by
  induction sections generalizing i with
  | nil =>
    rw [Nat.le_zero.mp h, List.drop_nil, leftAt_nil, leftAt_nil]
    rfl
  | cons rows sections ih =>
    cases i with
    | zero => rw [Nat.zero_add, List.drop_zero, List.replicate_zero, List.nil_append]
    | succ i =>
      rw [Nat.succ_add, leftAt_later, List.drop_succ_cons, List.replicate_succ, List.cons_append,
        ih (Nat.le_of_succ_le_succ h)]

theorem join_replicate (i : ℕ) (xs ys : List (List α)) :
    join (List.replicate i [] ++ xs) (List.replicate i [] ++ ys) =
      List.replicate i [] ++ join xs ys := by
  induction i with
  | zero => rfl
  | succ i ih =>
    rw [List.replicate_succ, List.cons_append, List.cons_append, join_cons, ih, List.nil_append,
      List.cons_append]

theorem count_replicate (i : ℕ) (xs : List (List α)) :
    count (List.replicate i [] ++ xs) = count xs := by
  simp [count]

/-- Sections without rows may be passed over. -/
theorem leftAt_skip {β : Type*} {f : β → List α} {holds : β → Bool}
    (hempty : ∀ v, holds v = false → f v = []) {vs : List β} (h : vs.findIdx? holds = some n) :
    leftAt n 0 (vs.map f) = vs.map f := by
  induction vs generalizing n with
  | nil => rw [List.map_nil, leftAt_nil]
  | cons v vs ih =>
    rw [List.findIdx?_cons] at h
    cases hv : holds v with
    | true =>
      rw [hv, if_pos rfl, Option.some_inj] at h
      rw [← h, leftAt_start]
    | false =>
      rw [hv, if_neg Bool.false_ne_true] at h
      obtain ⟨k, hk, rfl⟩ := Option.map_eq_some_iff.mp h
      rw [List.map_cons, leftAt_later, ih hk, hempty v hv]

end Sections

section Names

variable {α : Type*}

/-- The rows of a page under a name. -/
def under (names : List String) (page : List (List α)) (name : String) : List α :=
  ((names.zip page).lookup name).getD []

theorem under_join (names : List String) {xs ys : List (List α)} (h : xs.length = ys.length)
    (name : String) : under names (join xs ys) name = under names xs name ++ under names ys name := by
  induction names generalizing xs ys with
  | nil => rfl
  | cons first names ih =>
    cases xs with
    | nil =>
      rw [List.length_nil] at h
      rw [List.length_eq_zero_iff.mp h.symm]
      rfl
    | cons row xs =>
      cases ys with
      | nil => cases h
      | cons row' ys =>
        have hlength : xs.length = ys.length := by simpa using h
        have hrest := ih hlength
        simp only [under, join_cons, List.zip_cons_cons, List.lookup_cons] at hrest ⊢
        cases name == first with
        | true => rfl
        | false => exact hrest

end Names

end Paging
