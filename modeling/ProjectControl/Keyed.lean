import Mathlib.Data.List.Nodup
import Mathlib.Data.List.Basic
import Mathlib.Logic.Function.Basic
import Mathlib.Tactic.Cases

/-! Entries under keys in the order in which the keys came; a later value takes the place of the
earlier one. -/

set_option autoImplicit false

namespace Keyed

variable {κ α : Type*} [DecidableEq κ]

def assign (entries : List (κ × α)) (key : κ) (value : α) : List (κ × α) :=
  if key ∈ entries.map Prod.fst then entries.map fun e => if e.1 = key then (key, value) else e
  else entries ++ [(key, value)]

variable {entries : List (κ × α)} {key : κ} {value : α}

theorem keys_assign (entries : List (κ × α)) (key : κ) (value : α) :
    (assign entries key value).map Prod.fst =
      if key ∈ entries.map Prod.fst then entries.map Prod.fst
      else entries.map Prod.fst ++ [key] := by
  unfold assign
  split_ifs
  · rw [List.map_map]
    apply List.map_congr_left
    intro e _
    rw [Function.comp_apply]
    split_ifs with he
    · exact he.symm
    · rfl
  · rw [List.map_append, List.map_singleton]

theorem nodup_assign (h : (entries.map Prod.fst).Nodup) :
    ((assign entries key value).map Prod.fst).Nodup := by
  rw [keys_assign]
  split_ifs with hkey
  · exact h
  · rw [List.nodup_append]
    refine ⟨h, List.nodup_singleton _, fun k hk k' hk' => ?_⟩
    rw [List.mem_singleton.mp hk']
    exact fun heq => hkey (heq ▸ hk)

theorem mem_assign {e : κ × α} (h : e ∈ assign entries key value) :
    e = (key, value) ∨ e ∈ entries := by
  unfold assign at h
  split_ifs at h
  · obtain ⟨f, hf, rfl⟩ := List.mem_map.mp h
    split_ifs
    · exact .inl rfl
    · exact .inr hf
  · rcases List.mem_append.mp h with he | he
    · exact .inr he
    · exact .inl (List.mem_singleton.mp he)

/-- The entry of the key is the one that was assigned. -/
theorem eq_of_mem_assign {e : κ × α} (h : e ∈ assign entries key value) (hkey : e.1 = key) :
    e = (key, value) := by
  unfold assign at h
  split_ifs at h with hknown
  · obtain ⟨f, hf, rfl⟩ := List.mem_map.mp h
    split_ifs at hkey ⊢ with hf'
    · rfl
    · exact absurd hkey hf'
  · rcases List.mem_append.mp h with he | he
    · exact absurd (hkey ▸ List.mem_map_of_mem he) hknown
    · exact List.mem_singleton.mp he

section Lookups

variable [BEq κ] [LawfulBEq κ]

theorem lookup_replace (entries : List (κ × α)) (key name : κ) (value : α) :
    (entries.map fun e => if e.1 = key then (key, value) else e).lookup name =
      if name = key then (entries.lookup name).map (fun _ => value) else entries.lookup name := by
  induction entries with
  | nil => simp
  | cons e entries ih =>
    obtain ⟨k, w⟩ := e
    rw [List.map_cons, List.lookup_cons, ih]
    by_cases hk : k = key
    · subst hk
      by_cases hname : name = k
      · simp [hname]
      · simp [hname, List.lookup_cons, beq_false_of_ne hname]
    · by_cases hname : name = k
      · subst hname
        simp [hk]
      · simp [hk, List.lookup_cons, beq_false_of_ne hname]

theorem lookup_assign (entries : List (κ × α)) (key name : κ) (value : α) :
    (assign entries key value).lookup name = if name = key then some value else entries.lookup name := by
  by_cases hkey : key ∈ entries.map Prod.fst
  · rw [assign, if_pos hkey, lookup_replace]
    by_cases hname : name = key
    · have hfound : entries.lookup key ≠ none := by
        intro hnone
        obtain ⟨e, hmem, rfl⟩ := List.mem_map.mp hkey
        have hne := List.lookup_eq_none_iff.mp hnone e hmem
        simp at hne
      obtain ⟨w, hw⟩ := Option.ne_none_iff_exists'.mp hfound
      rw [if_pos hname, if_pos hname, hname, hw, Option.map_some]
    · rw [if_neg hname, if_neg hname]
  · rw [assign, if_neg hkey, List.lookup_append]
    by_cases hname : name = key
    · have hnone : entries.lookup key = none := by
        rw [List.lookup_eq_none_iff]
        intro e hmem
        rw [bne_iff_ne]
        rintro rfl
        exact hkey (List.mem_map_of_mem hmem)
      rw [hname, hnone, if_pos rfl, Option.none_or, List.lookup_cons_self]
    · rw [if_neg hname, List.lookup_cons, beq_false_of_ne hname, List.lookup_nil, Option.or_none]

end Lookups

end Keyed
