import Mathlib
import ProjectControl.JsonText

/-! JSON values with the fields of every object in the order of their keys, as a writer that
sorts keys puts them, and what the order leaves alone. -/

set_option autoImplicit false

namespace JsonText

section Sorting

mutual

def sortKeys : Json → Json
  | .null => .null
  | .bool b => .bool b
  | .num n => .num n
  | .str s => .str s
  | .arr items => .arr (sortItems items)
  | .obj fields => object (sortFields fields)

def sortItems : List Json → List Json
  | [] => []
  | v :: items => sortKeys v :: sortItems items

def sortFields : List (String × Json) → List (String × Json)
  | [] => []
  | (key, v) :: fields => (key, sortKeys v) :: sortFields fields

end

mutual

/-- No object has a key twice. -/
def Distinct : Json → Prop
  | .arr items => DistinctItems items
  | .obj fields => (fields.map Prod.fst).Nodup ∧ DistinctFields fields
  | _ => True

def DistinctItems : List Json → Prop
  | [] => True
  | v :: items => Distinct v ∧ DistinctItems items

def DistinctFields : List (String × Json) → Prop
  | [] => True
  | (_, v) :: fields => Distinct v ∧ DistinctFields fields

end

variable {key : String} {v : Json} {d fields : List (String × Json)} {items : List Json}

theorem sortFields_keys (fields : List (String × Json)) :
    (sortFields fields).map Prod.fst = fields.map Prod.fst := by
  induction fields with
  | nil => rfl
  | cons e fields ih => rw [sortFields, List.map_cons, ih, List.map_cons]

theorem distinctItems_iff : DistinctItems items ↔ ∀ v ∈ items, Distinct v := by
  induction items with
  | nil => simp [DistinctItems]
  | cons v items ih => simp [DistinctItems, ih]

theorem distinctFields_iff : DistinctFields fields ↔ ∀ e ∈ fields, Distinct e.2 := by
  induction fields with
  | nil => simp [DistinctFields]
  | cons e fields ih => simp [DistinctFields, ih]

mutual

theorem canonical_sortKeys : (v : Json) → Canonical (sortKeys v)
  | .null | .bool _ | .num _ | .str _ => by rw [sortKeys]; trivial
  | .arr items => by
    rw [sortKeys]
    exact canonical_sortItems items
  | .obj fields => by
    rw [sortKeys]
    exact canonical_object (canonicalFields_iff.mp (canonical_sortFields fields))

theorem canonical_sortItems : (items : List Json) → CanonicalItems (sortItems items)
  | [] => by rw [sortItems]; trivial
  | v :: items => by
    rw [sortItems]
    exact ⟨canonical_sortKeys v, canonical_sortItems items⟩

theorem canonical_sortFields : (fields : List (String × Json)) →
    CanonicalFields (sortFields fields)
  | [] => by rw [sortFields]; trivial
  | (key, v) :: fields => by
    rw [sortFields]
    exact ⟨canonical_sortKeys v, canonical_sortFields fields⟩

/-- A document whose keys are sorted is left as it is. -/
theorem sortKeys_of_canonical : (v : Json) → Canonical v → sortKeys v = v
  | .null, _ | .bool _, _ | .num _, _ | .str _, _ => by rw [sortKeys]
  | .arr items, h => by rw [sortKeys, sortItems_of_canonical items h]
  | .obj fields, h => by rw [sortKeys, sortFields_of_canonical fields h.2, object_sorted h.1]

theorem sortItems_of_canonical : (items : List Json) → CanonicalItems items →
    sortItems items = items
  | [], _ => by rw [sortItems]
  | v :: items, h => by
    rw [sortItems, sortKeys_of_canonical v h.1, sortItems_of_canonical items h.2]

theorem sortFields_of_canonical : (fields : List (String × Json)) → CanonicalFields fields →
    sortFields fields = fields
  | [], _ => by rw [sortFields]
  | (key, v) :: fields, h => by
    rw [sortFields, sortKeys_of_canonical v h.1, sortFields_of_canonical fields h.2]

end

end Sorting

section Lookup

variable {key other : String} {v : Json} {d fields : List (String × Json)}

theorem get_cons (d : Dict) (key : String) (v : Json) (other : String) :
    Dict.get ((key, v) :: d) other = if other = key then some v else Dict.get d other := by
  by_cases hkey : other = key
  · rw [hkey, Dict.get_cons_self, if_pos rfl]
  · rw [Dict.get_cons_of_ne _ _ hkey, if_neg hkey]

theorem get_insertField : Dict.get (insertField key v d) other =
    if other = key then some v else Dict.get d other := by
  induction d with
  | nil => exact get_cons [] key v other
  | cons e d ih =>
    obtain ⟨k, x⟩ := e
    rw [insertField]
    by_cases hlt : key < k
    · rw [if_pos hlt, get_cons]
    · rw [if_neg hlt]
      by_cases heq : key = k
      · rw [if_pos heq, get_cons, get_cons, heq]
        by_cases hk : other = k
        · rw [if_pos hk, if_pos hk]
        · rw [if_neg hk, if_neg hk, if_neg hk]
      · rw [if_neg heq, get_cons, ih, get_cons]
        by_cases hk : other = k
        · have hkey : other ≠ key := fun hother => heq (hother.symm.trans hk)
          rw [if_pos hk, if_neg hkey, if_pos hk]
        · rw [if_neg hk, if_neg hk]

theorem get_of_not_mem (h : key ∉ fields.map Prod.fst) : Dict.get fields key = none := by
  rw [Dict.get, List.lookup_eq_none_iff]
  intro e he
  exact bne_iff_ne.mpr fun heq => h (heq ▸ List.mem_map_of_mem he)

/-- Sorting distinct keys keeps what they are looked up to. -/
theorem get_foldl_insertField (hnodup : (fields.map Prod.fst).Nodup) (key : String) :
    Dict.get (fields.foldl (fun d e => insertField e.1 e.2 d) d) key =
      (Dict.get fields key).or (Dict.get d key) := by
  induction fields generalizing d with
  | nil => rfl
  | cons e fields ih =>
    obtain ⟨k, x⟩ := e
    obtain ⟨hfirst, hrest⟩ := List.nodup_cons.mp hnodup
    rw [List.foldl_cons, ih hrest, get_insertField]
    by_cases hk : key = k
    · subst hk
      rw [get_of_not_mem hfirst, if_pos rfl, Dict.get_cons_self]
      rfl
    · rw [if_neg hk, Dict.get_cons_of_ne _ _ hk]

theorem get_sortFields (fields : List (String × Json)) (key : String) :
    Dict.get (sortFields fields) key = (Dict.get fields key).map sortKeys := by
  induction fields with
  | nil => rfl
  | cons e fields ih =>
    obtain ⟨k, x⟩ := e
    rw [sortFields]
    by_cases hk : key = k
    · rw [hk, Dict.get_cons_self, Dict.get_cons_self, Option.map_some]
    · rw [Dict.get_cons_of_ne _ _ hk, Dict.get_cons_of_ne _ _ hk, ih]

/-- The fields of a sorted object are the same ones, each of them sorted. -/
theorem sortKeys_object (hnodup : (fields.map Prod.fst).Nodup) : ∃ sorted,
    sortKeys (.obj fields) = .obj sorted ∧
      ∀ key, Dict.get sorted key = (Dict.get fields key).map sortKeys := by
  refine ⟨_, by rw [sortKeys, object], fun key => ?_⟩
  rw [get_foldl_insertField (by rwa [sortFields_keys]), get_sortFields]
  exact Option.or_none

end Lookup

section Sizes

variable {ascii : Bool} {key : String} {v : Json} {d fields : List (String × Json)}

theorem sum_insertField (f : String × Json → ℕ) (h : key ∉ d.map Prod.fst) :
    ((insertField key v d).map f).sum = f (key, v) + (d.map f).sum := by
  induction d with
  | nil => rfl
  | cons e d ih =>
    obtain ⟨k, x⟩ := e
    have hk : key ≠ k := fun heq => h (heq ▸ List.mem_cons_self)
    have hd : key ∉ d.map Prod.fst := fun hmem => h (List.mem_cons_of_mem _ hmem)
    rw [insertField, if_neg hk]
    split_ifs with hlt
    · rw [List.map_cons, List.sum_cons]
    · rw [List.map_cons, List.sum_cons, ih hd, List.map_cons, List.sum_cons]
      omega

theorem keys_insertField {other : String} :
    other ∈ (insertField key v d).map Prod.fst ↔ other = key ∨ other ∈ d.map Prod.fst := by
  induction d with
  | nil => simp [insertField]
  | cons e d ih =>
    obtain ⟨k, x⟩ := e
    rw [insertField]
    split_ifs with hlt heq
    · simp
    · subst heq
      simp
    · rw [List.map_cons, List.mem_cons, ih, List.map_cons, List.mem_cons]
      tauto

theorem sum_foldl_insertField (f : String × Json → ℕ) (hnodup : (fields.map Prod.fst).Nodup)
    (hapart : ∀ key ∈ fields.map Prod.fst, key ∉ d.map Prod.fst) :
    ((fields.foldl (fun d e => insertField e.1 e.2 d) d).map f).sum =
      (fields.map f).sum + (d.map f).sum := by
  induction fields generalizing d with
  | nil => exact (Nat.zero_add _).symm
  | cons e fields ih =>
    obtain ⟨k, x⟩ := e
    obtain ⟨hfirst, hrest⟩ := List.nodup_cons.mp hnodup
    have hk : k ∉ d.map Prod.fst := hapart k List.mem_cons_self
    have hnext : ∀ key ∈ fields.map Prod.fst, key ∉ (insertField k x d).map Prod.fst := by
      intro key hkey hmem
      rcases keys_insertField.mp hmem with rfl | hmem
      · exact hfirst hkey
      · exact hapart key (List.mem_cons_of_mem _ hkey) hmem
    have hinsert : ((insertField k x d).map f).sum = f (k, x) + (d.map f).sum :=
      sum_insertField f hk
    rw [List.foldl_cons, ih hrest hnext, hinsert, List.map_cons, List.sum_cons]
    omega

/-- The bytes of an object, of which one field at least is there. -/
theorem bytes_obj (h : fields ≠ []) : bytes (render ⟨ascii, false⟩ (.obj fields)) =
    (fields.map (fieldBytes ascii)).sum + 1 := by
  obtain ⟨e, rest, rfl⟩ := List.exists_cons_of_ne_nil h
  exact bytes_object e rest

theorem foldl_insertField_ne_nil (h : fields ≠ []) :
    fields.foldl (fun d e => insertField e.1 e.2 d) [] ≠ [] := by
  obtain ⟨e, rest, rfl⟩ := List.exists_cons_of_ne_nil h
  rw [List.foldl_cons]
  have hkeep (d : List (String × Json)) (hd : d ≠ []) :
      rest.foldl (fun d e => insertField e.1 e.2 d) d ≠ [] := by
    induction rest generalizing d with
    | nil => exact hd
    | cons e rest ih =>
      rw [List.foldl_cons]
      apply ih (List.cons_ne_nil _ _)
      intro hnil
      have hmem : e.1 ∈ (insertField e.1 e.2 d).map Prod.fst := keys_insertField.mpr (.inl rfl)
      rw [hnil] at hmem
      cases hmem
  exact hkeep _ (List.cons_ne_nil _ _)

mutual

/-- The order of the keys takes no room. -/
theorem bytes_sortKeys : (v : Json) → Distinct v →
    bytes (render ⟨ascii, false⟩ (sortKeys v)) = bytes (render ⟨ascii, false⟩ v)
  | .null, _ | .bool _, _ | .num _, _ | .str _, _ => by rw [sortKeys]
  | .arr [], _ => by rw [sortKeys, sortItems]
  | .arr (v :: items), h => by
    have hv := bytes_sortKeys v h.1
    have hitems := bytes_sortItems items h.2
    rw [sortKeys, sortItems, bytes_array, bytes_array, List.map_cons, List.sum_cons, List.map_cons,
      List.sum_cons, hitems, itemBytes, itemBytes, hv]
  | .obj [], _ => by rw [sortKeys, sortFields]; rfl
  | .obj (e :: fields), h => by
    have hfields := bytes_sortFields (e :: fields) h.2
    have hne : sortFields (e :: fields) ≠ [] := by
      rw [sortFields]
      exact List.cons_ne_nil _ _
    have hsum := sum_foldl_insertField (fieldBytes ascii) (d := [])
      (by rw [sortFields_keys]; exact h.1) (fun _ _ hmem => nomatch hmem)
    rw [sortKeys, object, bytes_obj (foldl_insertField_ne_nil hne), hsum, hfields,
      bytes_obj (List.cons_ne_nil _ _)]
    rfl

theorem bytes_sortItems : (items : List Json) → DistinctItems items →
    ((sortItems items).map (itemBytes ascii)).sum = (items.map (itemBytes ascii)).sum
  | [], _ => by rw [sortItems]
  | v :: items, h => by
    have hv := bytes_sortKeys v h.1
    have hitems := bytes_sortItems items h.2
    rw [sortItems, List.map_cons, List.sum_cons, hitems, List.map_cons, List.sum_cons, itemBytes,
      itemBytes, hv]

theorem bytes_sortFields : (fields : List (String × Json)) → DistinctFields fields →
    ((sortFields fields).map (fieldBytes ascii)).sum = (fields.map (fieldBytes ascii)).sum
  | [], _ => by rw [sortFields]
  | (key, v) :: fields, h => by
    have hv := bytes_sortKeys v h.1
    have hfields := bytes_sortFields fields h.2
    rw [sortFields, List.map_cons, List.sum_cons, hfields, List.map_cons, List.sum_cons, fieldBytes,
      fieldBytes, hv]

end

end Sizes

section Reading

/-- What is written with sorted keys and a newline behind it is read back. -/
theorem read_line (style : Style) (v : Json) :
    read (render style (sortKeys v) ++ ['\n']) = some (sortKeys v) := by
  have hends : Ends ['\n'] := ⟨rfl, fun c hc => by cases hc; rfl⟩
  have hlength : (render style (sortKeys v)).length ≤
      (render style (sortKeys v) ++ ['\n']).length := by
    rw [List.length_append]
    omega
  have hread := readValue_render (sortKeys v) (canonical_sortKeys v) _ ['\n'] hlength hends
  rw [read, skip_render, hread]
  rfl

end Reading

end JsonText
