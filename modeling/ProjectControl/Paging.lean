import Mathlib

/-! Reading something in pages: each page may come with a cursor, and the cursor is what the next
page is asked for with. -/

set_option autoImplicit false

namespace Paging

variable {C E P α : Type*}

/-- The pages of one reading, from a first cursor to a page that comes without one. -/
inductive Follows (read : C → Except E P) (next : P → Option C) : C → List P → Prop
  | last {c : C} {page : P} (hread : read c = .ok page) (hnext : next page = none) :
      Follows read next c [page]
  | more {c c' : C} {page : P} {pages : List P} (hread : read c = .ok page)
      (hnext : next page = some c') (hrest : Follows read next c' pages) :
      Follows read next c (page :: pages)

section Readings

variable {read : C → Except E P} {next : P → Option C} {c : C}

/-- There is at most one reading. -/
theorem Follows.unique {pages pages' : List P} (h : Follows read next c pages)
    (h' : Follows read next c pages') : pages = pages' := by
  induction h generalizing pages' with
  | last hread hnext =>
    cases h' with
    | last hread' _ =>
      rw [hread, Except.ok.injEq] at hread'
      rw [hread']
    | more hread' hnext' _ =>
      rw [hread, Except.ok.injEq] at hread'
      rw [hread', hnext'] at hnext
      cases hnext
  | more hread hnext _ ih =>
    cases h' with
    | last hread' hnext' =>
      rw [hread, Except.ok.injEq] at hread'
      rw [hread', hnext'] at hnext
      cases hnext
    | more hread' hnext' hrest' =>
      rw [hread, Except.ok.injEq] at hread'
      subst hread'
      rw [hnext, Option.some_inj] at hnext'
      subst hnext'
      rw [ih hrest']

/-- Pages that are numbered, each with the cursor of the one after it, up to a last one. -/
theorem follows_numbered {cursor : ℕ → C} {page : ℕ → P} {last : ℕ}
    (hread : ∀ k ≤ last, read (cursor k) = .ok (page k))
    (hnext : ∀ k < last, next (page k) = some (cursor (k + 1)))
    (hlast : next (page last) = none) :
    Follows read next (cursor 0) ((List.range (last + 1)).map page) := by
  have hfrom (n k : ℕ) (hk : k + n = last) :
      Follows read next (cursor k) ((List.range (n + 1)).map fun i => page (k + i)) := by
    induction n generalizing k with
    | zero =>
      have hk' : k = last := hk
      rw [hk']
      exact Follows.last (hread last le_rfl) hlast
    | succ n ih =>
      have hrest := ih (k + 1) (by omega)
      rw [List.range_succ_eq_map, List.map_cons, List.map_map]
      apply Follows.more (hread k (by omega)) (hnext k (by omega))
      have hshift : ((fun i => page (k + i)) ∘ Nat.succ) = fun i => page (k + 1 + i) := by
        funext i
        exact congrArg page (by simp only [Nat.succ_eq_add_one]; omega)
      rw [hshift]
      exact hrest
  have hall := hfrom last 0 (Nat.zero_add last)
  simpa only [Nat.zero_add] using hall

end Readings

section Slices

def slice (xs : List α) (offset size : ℕ) : List α := (xs.drop offset).take size

theorem slices (xs : List α) (size n : ℕ) :
    (List.range n).flatMap (fun k => slice xs (k * size) size) = xs.take (n * size) := by
  induction n with
  | zero => simp
  | succ n ih =>
    rw [List.range_succ, List.flatMap_append, ih, List.flatMap_singleton, slice,
      ← List.take_add, Nat.succ_mul]

/-- The last of the pages that are needed for so many items. -/
def lastPage (items size : ℕ) : ℕ := (items - 1) / size

variable {size : ℕ}

theorem lt_lastPage_iff (hsize : 0 < size) {items k : ℕ} :
    k < lastPage items size ↔ k * size + size < items := by
  rw [lastPage, Nat.lt_iff_add_one_le, Nat.le_div_iff_mul_le hsize, Nat.succ_mul]
  omega

theorem le_of_lastPage (hsize : 0 < size) (items : ℕ) :
    items ≤ (lastPage items size + 1) * size := by
  by_contra h
  have hlt : lastPage items size * size + size < items := by
    rw [Nat.succ_mul] at h
    omega
  exact absurd ((lt_lastPage_iff hsize).mpr hlt) (lt_irrefl _)

end Slices

end Paging
