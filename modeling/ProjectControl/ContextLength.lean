import Mathlib
import ProjectControl.Loops
import ProjectControl.TaskPacket

/-! The length that a public context has of itself: the loop that measures the object with its
own length in it, until the two agree. -/

set_option autoImplicit false

namespace ProjectControl.Inspection

open JsonText Loops

section Rounds

variable {updated : ℕ → ℕ} {size : ℕ}

/-- One round of the `while` loop: it breaks where the object is as long as it says. -/
def measureAgain (updated : ℕ → ℕ) (size : ℕ) : Option ℕ :=
  if updated size = size then none else some (updated size)

theorem measureAgain_none : measureAgain updated size = none ↔ updated size = size := by
  unfold measureAgain
  by_cases h : updated size = size
  · rw [if_pos h]
    exact iff_of_true rfl h
  · rw [if_neg h]
    exact iff_of_false (Option.some_ne_none _) h

/-- The loop ends in what a number of rounds makes of its start, if that is right. -/
theorem ends_settle {n : ℕ} (h : updated (settle updated n size) = settle updated n size) :
    ∃ k ≤ n, Ends (measureAgain updated) size k (settle updated n size) := by
  induction n generalizing size with
  | zero => exact ⟨0, Nat.le_refl 0, .stop (measureAgain_none.mpr h)⟩
  | succ n ih =>
    rw [settle] at h ⊢
    by_cases hsize : updated size = size
    · rw [if_pos hsize]
      exact ⟨0, Nat.zero_le _, .stop (measureAgain_none.mpr hsize)⟩
    · rw [if_neg hsize] at h ⊢
      obtain ⟨k, hk, hends⟩ := ih h
      have hround : measureAgain updated size = some (updated size) := if_neg hsize
      exact ⟨k + 1, Nat.succ_le_succ hk, .next hround hends⟩

end Rounds

section Context

/-- The public context before its length is stored in it. -/
def unmeasured (context : Dict) (included : List Dict) : Dict :=
  (compactPublicContext context included).dropLast

/-- `len(_canonical(result))` after `result["encoded_bytes"] = size`. -/
def lengthWith (result : Dict) (size : ℕ) : ℕ :=
  canonicalBytes (.obj (result ++ [("encoded_bytes", .num size)]))

theorem unmeasured_append (context : Dict) (included : List Dict) :
    compactPublicContext context included = unmeasured context included ++
      [("encoded_bytes", .num (encodedBytes (unmeasured context included)))] := rfl

theorem ten_le_unmeasured (context : Dict) (included : List Dict) :
    10 ≤ canonicalBytes (.obj (unmeasured context included)) := by
  have hfield : fieldBytes false ("changes_truncated", .bool true) = 25 := by decide +kernel
  have hlast : unmeasured context included =
      (unmeasured context included).dropLast ++ [("changes_truncated", .bool true)] := rfl
  have hne : (unmeasured context included).dropLast ≠ [] := List.cons_ne_nil _ _
  rw [hlast, canonicalBytes_append hne, hfield]
  omega

/-- The loop on any object with fields. -/
theorem ends_encodedBytes {result : Dict} (hne : result ≠ [])
    (hlong : 10 ≤ canonicalBytes (.obj result)) :
    ∃ k size, Ends (measureAgain (lengthWith result)) (canonicalBytes (.obj result)) k size ∧
      k ≤ 4 ∧ encodedBytes result = size ∧ lengthWith result size = size := by
  have hsettles : lengthWith result (encodedBytes result) = encodedBytes result :=
    encodedBytes_settles hne hlong
  obtain ⟨k, hk, hends⟩ := ends_settle hsettles
  exact ⟨k, encodedBytes result, hends, hk, rfl, hsettles⟩

/-- The loop that stores the length of a public context in the context ends, after four rounds at
most, and what it stores is the length of what is returned. -/
theorem stored_length_is_length (context : Dict) (included : List Dict) :
    ∃ k size, Ends (measureAgain (lengthWith (unmeasured context included)))
        (canonicalBytes (.obj (unmeasured context included))) k size ∧ k ≤ 4 ∧
      compactPublicContext context included =
        unmeasured context included ++ [("encoded_bytes", .num size)] ∧
      canonicalBytes (.obj (compactPublicContext context included)) = size := by
  have hne : unmeasured context included ≠ [] := List.cons_ne_nil _ _
  have happend := unmeasured_append context included
  obtain ⟨k, size, hends, hk, hsize, hlength⟩ :=
    ends_encodedBytes hne (ten_le_unmeasured context included)
  rw [hsize] at happend
  refine ⟨k, size, hends, hk, happend, ?_⟩
  rw [happend]
  exact hlength

end Context

end ProjectControl.Inspection
