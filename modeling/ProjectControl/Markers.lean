import Mathlib

/-! Where a pattern stands in a text, read from the left without overlaps. -/

set_option autoImplicit false

namespace Markers

section Find

variable {α : Type*} [DecidableEq α]

/-- The positions of a pattern; `skip` elements still belong to the last one found. -/
def findFrom (pattern : List α) : ℕ → ℕ → List α → List ℕ
  | _, _, [] => []
  | skip + 1, position, _ :: rest => findFrom pattern skip (position + 1) rest
  | 0, position, a :: rest =>
    if pattern <+: a :: rest then
      position :: findFrom pattern (pattern.length - 1) (position + 1) rest
    else findFrom pattern 0 (position + 1) rest

def find (pattern text : List α) : List ℕ := findFrom pattern 0 0 text

variable {pattern x y : List α} {separator : α}

theorem findFrom_add (skip position shift : ℕ) (text : List α) :
    findFrom pattern skip (position + shift) text =
      (findFrom pattern skip position text).map (· + shift) := by
  induction text generalizing skip position with
  | nil => rfl
  | cons a rest ih =>
    have hnext : position + shift + 1 = position + 1 + shift := by omega
    cases skip with
    | succ skip => rw [findFrom, findFrom, hnext, ih]
    | zero =>
      rw [findFrom, findFrom, hnext]
      split_ifs with hhere
      · rw [ih, List.map_cons]
      · exact ih 0 (position + 1)

/-- A pattern without the separator ends before it. -/
theorem prefix_append_separator (hne : separator ∉ pattern) :
    pattern <+: x ++ separator :: y ↔ pattern <+: x := by
  constructor
  · intro h
    by_contra hlong
    have hlength : x.length < pattern.length := by
      by_contra hshort
      have hx : x <+: x ++ separator :: y := List.prefix_append x _
      exact hlong (List.prefix_of_prefix_length_le h hx (not_lt.mp hshort))
    -- then the separator is one of its elements
    have hsep : x ++ [separator] <+: pattern := by
      have hfirst : x ++ [separator] <+: x ++ separator :: y := ⟨y, by
        rw [List.append_assoc, List.singleton_append]⟩
      apply List.prefix_of_prefix_length_le hfirst h
      rw [List.length_append, List.length_singleton]
      exact hlength
    exact hne (hsep.subset (List.mem_append_right x (List.mem_singleton_self separator)))
  · exact fun h => h.trans (List.prefix_append x _)

theorem findFrom_append_separator (hne : separator ∉ pattern) (hpattern : pattern ≠ [])
    (skip position : ℕ) (hskip : skip ≤ x.length) :
    findFrom pattern skip position (x ++ separator :: y) =
      findFrom pattern skip position x ++ findFrom pattern 0 (position + x.length + 1) y := by
  induction x generalizing skip position with
  | nil =>
    obtain rfl : skip = 0 := Nat.le_zero.mp hskip
    have hhead : ¬pattern <+: separator :: y := by
      intro h
      have hnil := (prefix_append_separator (x := []) hne).mp h
      exact hpattern (List.prefix_nil.mp hnil)
    rw [List.nil_append, findFrom, List.nil_append, findFrom, if_neg hhead, List.length_nil,
      Nat.add_zero]
  | cons a x ih =>
    have hlength : position + (a :: x).length + 1 = position + 1 + x.length + 1 := by
      rw [List.length_cons]
      omega
    have hrest : x.length + 1 = (a :: x).length := rfl
    rw [List.cons_append, hlength]
    cases skip with
    | succ skip =>
      rw [findFrom, findFrom]
      apply ih
      omega
    | zero =>
      have hhere : pattern <+: a :: (x ++ separator :: y) ↔ pattern <+: a :: x :=
        prefix_append_separator (x := a :: x) hne
      rw [findFrom, findFrom]
      by_cases hfound : pattern <+: a :: x
      · have hinside : pattern.length - 1 ≤ x.length := by
          have := hfound.length_le
          omega
        rw [if_pos (hhere.mpr hfound), if_pos hfound, ih _ _ hinside, List.cons_append]
      · rw [if_neg (mt hhere.mp hfound), if_neg hfound]
        exact ih 0 (position + 1) (Nat.zero_le _)

/-- A pattern without the separator stands on one side of it. -/
theorem find_append_separator (hne : separator ∉ pattern) (hpattern : pattern ≠ []) :
    find pattern (x ++ separator :: y) =
      find pattern x ++ (find pattern y).map (· + (x.length + 1)) := by
  rw [find, findFrom_append_separator hne hpattern 0 0 (Nat.zero_le _), find, find,
    ← findFrom_add, Nat.zero_add, Nat.zero_add]

theorem find_nil : find pattern [] = [] := by rw [find, findFrom]

/-- A separator in front shifts what follows. -/
theorem find_separator_cons (hne : separator ∉ pattern) (hpattern : pattern ≠ []) :
    find pattern (separator :: y) = (find pattern y).map (· + 1) := by
  have h := find_append_separator (x := []) (y := y) hne hpattern
  rwa [List.nil_append, find_nil, List.nil_append, List.length_nil, Nat.zero_add] at h

end Find

end Markers
