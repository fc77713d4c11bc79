import Mathlib.Data.List.Basic

/-! Texts as lists of characters: the words between separators, what follows the last
occurrence of a character, and the translation of line ends. -/

set_option autoImplicit false

namespace Words

variable {α : Type*} {sep : α → Bool} {x : α} {xs ys : List α}

section Split

/-- The nonempty pieces between the separators of a text. -/
def words (sep : α → Bool) (xs : List α) : List (List α) :=
  (xs.splitOnP sep).filter (fun w => !w.isEmpty)

@[simp] theorem words_nil : words sep ([] : List α) = [] := by
  simp [words]

theorem words_append_sep (hx : sep x = true) (xs ys : List α) :
    words sep (xs ++ x :: ys) = words sep xs ++ words sep ys := by
  unfold words
  rw [List.splitOnP_append_cons xs ys hx, List.filter_append]

theorem words_sep_cons (hx : sep x = true) (ys : List α) :
    words sep (x :: ys) = words sep ys := by
  have h := words_append_sep hx [] ys
  rwa [words_nil, List.nil_append, List.nil_append] at h

/-- A text without separators that is not empty. -/
structure Token (sep : α → Bool) (t : List α) : Prop where
  nonempty : t ≠ []
  plain : ∀ y ∈ t, sep y = false

theorem words_token (ht : Token sep xs) : words sep xs = [xs] := by
  unfold words
  rw [List.splitOnP_eq_singleton ht.plain]
  simp [ht.nonempty]

/-- A token ends where a separator follows. -/
theorem words_token_append (hxs : Token sep xs) (hx : sep x = true) (ys : List α) :
    words sep (xs ++ x :: ys) = xs :: words sep (x :: ys) := by
  rw [words_append_sep hx, words_token hxs, words_sep_cons hx, List.singleton_append]

/-- Tokens with a separator before each are the words of their line. -/
theorem words_line {tokens : List (List α)} {y : α} (hx : sep x = true) (hy : sep y = true)
    (ht : ∀ t ∈ tokens, Token sep t) :
    words sep (tokens.flatMap (fun t => x :: t) ++ [y]) = tokens := by
  induction tokens with
  | nil => rw [List.flatMap_nil, List.nil_append, words_sep_cons hy, words_nil]
  | cons t rest ih =>
    have htail := ih (fun t ht' => ht t (List.mem_cons_of_mem _ ht'))
    have hfirst := ht t List.mem_cons_self
    rw [List.flatMap_cons, List.append_assoc, List.cons_append, words_sep_cons hx]
    cases rest with
    | nil =>
      rw [List.flatMap_nil, List.nil_append, words_token_append hfirst hy, words_sep_cons hy,
        words_nil]
    | cons t' rest =>
      rw [List.flatMap_cons, List.append_assoc, List.cons_append] at htail ⊢
      rw [words_token_append hfirst hx, htail]

theorem words_cons_ne_nil (hx : sep x = false) (xs : List α) : words sep (x :: xs) ≠ [] := by
  obtain ⟨w, ws, hw⟩ := List.exists_cons_of_ne_nil (List.splitOnP_ne_nil sep xs)
  unfold words
  rw [List.splitOnP_cons_eq_if_modifyHead, hw, hx]
  simp

/-- Two words have a separator between them, so a text has room for few. -/
theorem words_length_le (xs : List α) : 2 * (words sep xs).length ≤ xs.length + 1 := by
  -- The piece at the front grows into a word of its own only where it is empty.
  have hstrong : 2 * (words sep xs).length ≤ xs.length + 1 ∧
      ((xs.splitOnP sep).head? = some [] → 2 * (words sep xs).length ≤ xs.length) := by
    unfold words
    induction xs with
    | nil => simp
    | cons y rest ih =>
      obtain ⟨w, ws, hw⟩ := List.exists_cons_of_ne_nil (List.splitOnP_ne_nil sep rest)
      rw [List.splitOnP_cons_eq_if_modifyHead]
      rw [hw] at ih ⊢
      cases hy : sep y with
      | true =>
        have hfew := ih.1
        simp at hfew ⊢
        omega
      | false =>
        cases w with
        | nil =>
          have hfew := ih.2 rfl
          simp at hfew ⊢
          omega
        | cons z w =>
          have hfew := ih.1
          simp at hfew ⊢
          omega
  exact hstrong.1

end Split

section Last

variable [DecidableEq α]

/-- What follows the last occurrence of a character. -/
def afterLast (x : α) (xs : List α) : Option (List α) :=
  if x ∈ xs then some (xs.reverse.takeWhile (· ≠ x)).reverse else none

theorem afterLast_append (hx : x ∉ ys) (xs : List α) : afterLast x (xs ++ x :: ys) = some ys := by
  have htail : (ys.reverse ++ x :: xs.reverse).takeWhile (· ≠ x) = ys.reverse := by
    rw [List.takeWhile_append_of_pos (fun y hy => ?_)]
    · simp
    · have hne : y ≠ x := fun heq => hx (heq ▸ List.mem_reverse.mp hy)
      simpa using hne
  unfold afterLast
  rw [if_pos (by simp)]
  rw [List.reverse_append, List.reverse_cons, List.append_assoc, List.singleton_append, htail,
    List.reverse_reverse]

end Last

section Lines

variable [DecidableEq α] {cr lf : α}

/-- Every line end of a text as one line feed. -/
def newlines (cr lf : α) : List α → List α
  | [] => []
  | [x] => if x = cr then [lf] else [x]
  | x :: y :: rest =>
    if x = cr then
      if y = lf then lf :: newlines cr lf rest else lf :: newlines cr lf (y :: rest)
    else x :: newlines cr lf (y :: rest)

theorem newlines_cons (hx : x ≠ cr) (xs : List α) :
    newlines cr lf (x :: xs) = x :: newlines cr lf xs := by
  cases xs with
  | nil => simp [newlines, hx]
  | cons y rest => simp [newlines, hx]

/-- A line end is within a text whose successor does not start with a line feed. -/
theorem newlines_append (hx : x ≠ lf) (xs ys : List α) :
    newlines cr lf (xs ++ x :: ys) = newlines cr lf xs ++ newlines cr lf (x :: ys) := by
  fun_induction newlines cr lf xs with
  | case1 => rfl
  | case2 => simp [newlines, hx]
  | case3 y h => rw [List.singleton_append, newlines_cons h]; rfl
  | case4 | case5 | case6 => simp_all [newlines]

theorem newlines_plain (hxs : cr ∉ xs) : newlines cr lf xs = xs := by
  induction xs with
  | nil => rfl
  | cons x rest ih =>
    rw [List.mem_cons, not_or] at hxs
    rw [newlines_cons (Ne.symm hxs.1), ih hxs.2]

/-- The words of a text do not depend on how its lines end. -/
theorem words_newlines (hcr : sep cr = true) (hlf : sep lf = true) (xs : List α) :
    words sep (newlines cr lf xs) = words sep xs := by
  -- A prefix that has been read already may be part of the next word.
  have hprefix (front : List α) :
      words sep (front ++ newlines cr lf xs) = words sep (front ++ xs) := by
    fun_induction newlines cr lf xs generalizing front with
    | case1 => rfl
    | case2 => rw [words_append_sep hlf, words_append_sep hcr]
    | case3 => rfl
    | case4 rest ih =>
      rw [words_append_sep hlf, words_append_sep hcr, words_sep_cons hlf]
      exact congrArg _ (ih [])
    | case5 y rest hy ih =>
      rw [words_append_sep hlf, words_append_sep hcr]
      exact congrArg _ (ih [])
    | case6 x y rest hx ih =>
      have h := ih (front ++ [x])
      rwa [List.append_assoc, List.append_assoc] at h
  exact hprefix []

end Lines

end Words
