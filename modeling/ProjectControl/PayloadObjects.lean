import ProjectControl.TrimmedValues

/-! `bounded_payload` on the objects and lists in memory: the redaction makes new ones, and every
deletion and assignment changes one of these in place, for all who hold it. -/

set_option autoImplicit false

namespace ProjectControl.Reads

open JsonText Redaction

section Edits

variable {α β : Type}

/-- `del items[kept:]`, `fields[key] = v` and `fields.pop(key)`. -/
inductive Edit (α : Type)
  | cut (kept : ℕ)
  | assign (key : String) (v : α)
  | pop (key : String)

def Edit.map (f : α → β) : Edit α → Edit β
  | .cut kept => .cut kept
  | .assign key v => .assign key (f v)
  | .pop key => .pop key

/-- `fields[key] = v`. -/
def assignKey (fields : List (String × α)) (key : String) (v : α) : List (String × α) :=
  if fields.any (fun e => e.1 = key) then fields.map fun e => if e.1 = key then (key, v) else e
  else fields ++ [(key, v)]

def Edit.onList (items : List α) : Edit α → List α
  | .cut kept => items.take kept
  | _ => items

def Edit.onFields (fields : List (String × α)) : Edit α → List (String × α)
  | .assign key v => assignKey fields key v
  | .pop key => fields.filter fun e => e.1 ≠ key
  | .cut _ => fields

def Edit.apply (edit : Edit Json) : Json → Json
  | .arr items => .arr (edit.onList items)
  | .obj fields => .obj (edit.onFields fields)
  | v => v

def fieldsOf : Json → Dict
  | .obj fields => fields
  | _ => []

/-- The list or the object that a round changes, and what is done to it. -/
def select (clean : Dict) : Option (Place × Edit String) :=
  match ((lists clean).filter fun e => 1 < e.2.length).argmax fun e => encodedSize (.arr e.2) with
  | some (place, items) => some (place, .cut (items.length - max 1 (items.length / 2)))
  | none =>
    match ((strings clean).filter fun e => 64 < e.2.length).argmax fun e => e.2.length with
    | some (place, s) =>
      match place.getLast? with
      | some (.key key) =>
        some (place.dropLast,
          .assign key (cutText s (max 32 (min (s.length - 2) (s.length / 2)))))
      | _ => none
    | none =>
      let candidates := (dictionaries clean).filter fun e =>
        1 < e.2.length && !e.2.any (fun f => f.1 = "truncation")
      match candidates.argmax fun e => encodedSize (.obj e.2) with
      | some (place, fields) =>
        match ((fields.map Prod.fst).filter (· ∉ keptKeys)).argmax id with
        | some key => some (place, .pop key)
        | none => none
      | none => none

variable {clean : Dict} {place : Place} {old v : Json} {key : String}

/-- What is edited is a list or an object. -/
inductive Holder : Json → Prop
  | list (items : List Json) : Holder (.arr items)
  | dict (fields : Dict) : Holder (.obj fields)

/-- A round edits what stands at the place, and this is what the round makes of the payload. -/
structure Picks (clean clean' : Dict) (place : Place) (edit : Edit Json) : Prop where
  holder : ∃ old, lookupAt place (.obj clean) = some old ∧ Holder old
  edited : updateAt edit.apply place (.obj clean) = .obj clean'

theorem updateAt_key (hget : Dict.get clean key = some old) (v : Json) :
    updateAt (fun _ => v) [.key key] (.obj clean) = .obj (assignKey clean key v) := by
  have hany : clean.any (fun e => e.1 = key) = true := by
    rw [any_key, hget]
    rfl
  rw [updateAt, assignKey, if_pos hany]
  refine congrArg Json.obj (List.map_congr_left fun e _ => ?_)
  by_cases hkey : e.1 = key
  · rw [if_pos hkey, if_pos hkey, updateAt, hkey]
  · rw [if_neg hkey, if_neg hkey]

theorem picks_of_places {edit : Edit Json} (hclean : Distinct (.obj clean))
    (hmem : (place, old) ∈ places (.obj clean)) (hholder : Holder old)
    (hedit : edit.apply old = v) :
    Picks clean (change clean place v) place edit where
  holder := ⟨old, (stands_of_mem_places _ hclean _ hmem).there, hholder⟩
  edited := by
    have hstands := stands_of_mem_places _ hclean _ hmem
    rw [obj_change hstands.inside]
    exact updateAt_congr hclean hstands.there hedit

/-- A text is changed by an assignment to its key. -/
theorem picks_of_text {parent : Place} (hclean : Distinct (.obj clean))
    (hmem : (parent ++ [.key key], old) ∈ places (.obj clean)) :
    Picks clean (change clean (parent ++ [.key key]) v) parent (.assign key v) := by
  have hstands := stands_of_mem_places _ hclean _ hmem
  have hthere := hstands.there
  rw [lookupAt_append, Option.bind_eq_some_iff] at hthere
  obtain ⟨holder, hparent, hfield⟩ := hthere
  cases holder with
  | obj fields =>
    obtain ⟨w, hget, -⟩ := Option.bind_eq_some_iff.mp hfield
    refine ⟨⟨_, hparent, .dict fields⟩, ?_⟩
    rw [obj_change hstands.inside, updateAt_append]
    exact updateAt_congr hclean hparent (updateAt_key hget v).symm
  | _ => cases hfield

theorem select_picks (hclean : Distinct (.obj clean)) {edit : Edit String}
    (h : select clean = some (place, edit)) :
    ∃ clean', shrink clean = some clean' ∧ Picks clean clean' place (edit.map .str) := by
  cases hlist : ((lists clean).filter fun e => 1 < e.2.length).argmax
      fun e => encodedSize (.arr e.2) with
  | some picked =>
    rw [select, hlist] at h
    rw [shrink, hlist]
    obtain ⟨rfl, rfl⟩ := Prod.mk.inj (Option.some.inj h)
    have hmem := (List.mem_filter.mp (List.argmax_mem hlist)).1
    exact ⟨_, rfl, picks_of_places hclean (mem_places_of_lists hmem) (.list _) rfl⟩
  | none =>
    cases htext : ((strings clean).filter fun e => 64 < e.2.length).argmax
        fun e => e.2.length with
    | some picked =>
      obtain ⟨q, text⟩ := picked
      obtain ⟨hmem, parent, key, rfl⟩ :=
        mem_places_of_strings (List.mem_filter.mp (List.argmax_mem htext)).1
      rw [select, hlist, htext] at h
      rw [shrink, hlist, htext]
      dsimp only at h
      rw [List.getLast?_concat, List.dropLast_concat] at h
      obtain ⟨rfl, rfl⟩ := Prod.mk.inj (Option.some.inj h)
      exact ⟨_, rfl, picks_of_text hclean hmem⟩
    | none =>
      cases hdict : ((dictionaries clean).filter fun e =>
          1 < e.2.length && !e.2.any (fun f => f.1 = "truncation")).argmax
            fun e => encodedSize (.obj e.2) with
      | none =>
        rw [select, hlist, htext] at h
        dsimp only at h
        rw [hdict] at h
        cases h
      | some picked =>
        obtain ⟨q, fields⟩ := picked
        have hmem := (List.mem_filter.mp (List.argmax_mem hdict)).1
        rw [select, hlist, htext] at h
        rw [shrink, hlist, htext]
        dsimp only at h ⊢
        rw [hdict] at h ⊢
        dsimp only at h ⊢
        cases hkey : ((fields.map Prod.fst).filter (· ∉ keptKeys)).argmax id with
        | none =>
          rw [hkey] at h
          cases h
        | some key =>
          rw [hkey] at h
          obtain ⟨rfl, rfl⟩ := Prod.mk.inj (Option.some.inj h)
          exact ⟨_, rfl,
            picks_of_places hclean (mem_places_of_dictionaries hmem) (.dict _) rfl⟩

theorem shrink_of_select_none (h : select clean = none) : shrink clean = none := by
  cases hlist : ((lists clean).filter fun e => 1 < e.2.length).argmax
      fun e => encodedSize (.arr e.2) with
  | some picked =>
    rw [select, hlist] at h
    cases h
  | none =>
    cases htext : ((strings clean).filter fun e => 64 < e.2.length).argmax
        fun e => e.2.length with
    | some picked =>
      obtain ⟨q, text⟩ := picked
      obtain ⟨-, parent, key, rfl⟩ :=
        mem_places_of_strings (List.mem_filter.mp (List.argmax_mem htext)).1
      rw [select, hlist, htext] at h
      dsimp only at h
      rw [List.getLast?_concat] at h
      cases h
    | none =>
      rw [select, hlist, htext] at h
      rw [shrink, hlist, htext]
      dsimp only at h ⊢
      cases hdict : ((dictionaries clean).filter fun e =>
          1 < e.2.length && !e.2.any (fun f => f.1 = "truncation")).argmax
            fun e => encodedSize (.obj e.2) with
      | none => rfl
      | some picked =>
        rw [hdict] at h
        dsimp only at h ⊢
        cases hkey : ((picked.2.map Prod.fst).filter (· ∉ keptKeys)).argmax id with
        | none => rfl
        | some key =>
          rw [hkey] at h
          cases h

end Edits

section Nodes

/-- A value in memory: each list and each object has an identity, which is the same wherever it is
held. -/
inductive Node
  | null
  | bool (b : Bool)
  | num (n : ℤ)
  | str (s : String)
  | list (ref : ℕ) (items : List Node)
  | dict (ref : ℕ) (fields : List (String × Node))

mutual

/-- What is read of a value in memory. -/
def erase : Node → Json
  | .null => .null
  | .bool b => .bool b
  | .num n => .num n
  | .str s => .str s
  | .list _ items => .arr (eraseItems items)
  | .dict _ fields => .obj (eraseFields fields)

def eraseItems : List Node → List Json
  | [] => []
  | v :: items => erase v :: eraseItems items

def eraseFields : List (String × Node) → List (String × Json)
  | [] => []
  | (key, v) :: fields => (key, erase v) :: eraseFields fields

end

mutual

def refs : Node → List ℕ
  | .list ref items => ref :: itemRefs items
  | .dict ref fields => ref :: fieldRefs fields
  | _ => []

def itemRefs : List Node → List ℕ
  | [] => []
  | v :: items => refs v ++ itemRefs items

def fieldRefs : List (String × Node) → List ℕ
  | [] => []
  | (_, v) :: fields => refs v ++ fieldRefs fields

end

mutual

/-- The list or the object of that identity is edited wherever it is held. -/
def mutate (ref : ℕ) (edit : Edit Node) : Node → Node
  | .list r items => .list r (if r = ref then edit.onList items else mutateItems ref edit items)
  | .dict r fields =>
    .dict r (if r = ref then edit.onFields fields else mutateFields ref edit fields)
  | v => v

def mutateItems (ref : ℕ) (edit : Edit Node) : List Node → List Node
  | [] => []
  | v :: items => mutate ref edit v :: mutateItems ref edit items

def mutateFields (ref : ℕ) (edit : Edit Node) : List (String × Node) → List (String × Node)
  | [] => []
  | (key, v) :: fields => (key, mutate ref edit v) :: mutateFields ref edit fields

end

/-- The identity of the list or the object at a place. -/
def refAt : Place → Node → Option ℕ
  | [], .list ref _ => some ref
  | [], .dict ref _ => some ref
  | .key name :: rest, .dict _ fields => (fields.lookup name).bind (refAt rest)
  | .index i :: rest, .list _ items => (items[i]?).bind (refAt rest)
  | _, _ => none

/-- An edit that puts no list and no object anywhere. -/
def Edit.Plain : Edit Node → Prop
  | .assign _ v => refs v = []
  | _ => True

variable {ref : ℕ} {edit : Edit Node} {place : Place} {n u : Node} {items : List Node}
  {fields : List (String × Node)} {key : String}

theorem eraseItems_eq (items : List Node) : eraseItems items = items.map erase := by
  induction items with
  | nil => rfl
  | cons v items ih => rw [eraseItems, ih, List.map_cons]

theorem eraseFields_eq (fields : List (String × Node)) :
    eraseFields fields = fields.map fun e => (e.1, erase e.2) := by
  induction fields with
  | nil => rfl
  | cons e fields ih => rw [eraseFields, ih, List.map_cons]

theorem itemRefs_eq (items : List Node) : itemRefs items = items.flatMap refs := by
  induction items with
  | nil => rfl
  | cons v items ih => rw [itemRefs, ih, List.flatMap_cons]

theorem fieldRefs_eq (fields : List (String × Node)) :
    fieldRefs fields = fields.flatMap fun e => refs e.2 := by
  induction fields with
  | nil => rfl
  | cons e fields ih => rw [fieldRefs, ih, List.flatMap_cons]

theorem mutateItems_eq (items : List Node) :
    mutateItems ref edit items = items.map (mutate ref edit) := by
  induction items with
  | nil => rfl
  | cons v items ih => rw [mutateItems, ih, List.map_cons]

theorem mutateFields_eq (fields : List (String × Node)) :
    mutateFields ref edit fields = fields.map fun e => (e.1, mutate ref edit e.2) := by
  induction fields with
  | nil => rfl
  | cons e fields ih => rw [mutateFields, ih, List.map_cons]

mutual

/-- What is not held is not changed. -/
theorem mutate_of_not_mem : (n : Node) → ref ∉ refs n → mutate ref edit n = n
  | .null, _ | .bool _, _ | .num _, _ | .str _, _ => rfl
  | .list r items, h => by
    rw [refs, List.mem_cons, not_or] at h
    rw [mutate, if_neg (Ne.symm h.1), mutateItems_of_not_mem items h.2]
  | .dict r fields, h => by
    rw [refs, List.mem_cons, not_or] at h
    rw [mutate, if_neg (Ne.symm h.1), mutateFields_of_not_mem fields h.2]

theorem mutateItems_of_not_mem : (items : List Node) → ref ∉ itemRefs items →
    mutateItems ref edit items = items
  | [], _ => rfl
  | v :: items, h => by
    rw [itemRefs, List.mem_append, not_or] at h
    rw [mutateItems, mutate_of_not_mem v h.1, mutateItems_of_not_mem items h.2]

theorem mutateFields_of_not_mem : (fields : List (String × Node)) → ref ∉ fieldRefs fields →
    mutateFields ref edit fields = fields
  | [], _ => rfl
  | (key, v) :: fields, h => by
    rw [fieldRefs, List.mem_append, not_or] at h
    rw [mutateFields, mutate_of_not_mem v h.1, mutateFields_of_not_mem fields h.2]

end

theorem get_eraseFields (fields : List (String × Node)) (name : String) :
    Dict.get (eraseFields fields) name = (fields.lookup name).map erase := by
  induction fields with
  | nil => rfl
  | cons e fields ih =>
    obtain ⟨key, v⟩ := e
    rw [eraseFields, get_cons, ih, List.lookup_cons]
    by_cases hname : name = key
    · rw [if_pos hname, beq_iff_eq.mpr hname]
      rfl
    · rw [if_neg hname, beq_eq_false_iff_ne.mpr hname]

theorem getElem?_eraseItems (items : List Node) (i : ℕ) :
    (eraseItems items)[i]? = (items[i]?).map erase := by
  rw [eraseItems_eq, List.getElem?_map]

theorem erase_onList (items : List Node) :
    eraseItems (edit.onList items) = (edit.map erase).onList (eraseItems items) := by
  cases edit with
  | cut kept => rw [Edit.map, Edit.onList, Edit.onList, eraseItems_eq, eraseItems_eq, List.map_take]
  | _ => rfl

theorem any_eraseFields (fields : List (String × Node)) (key : String) :
    (eraseFields fields).any (fun e => e.1 = key) = fields.any fun e => e.1 = key := by
  rw [eraseFields_eq, List.any_map]
  rfl

theorem erase_assignKey (fields : List (String × Node)) (key : String) (v : Node) :
    eraseFields (assignKey fields key v) = assignKey (eraseFields fields) key (erase v) := by
  rw [assignKey, assignKey, any_eraseFields]
  split_ifs
  · rw [eraseFields_eq, eraseFields_eq, List.map_map, List.map_map]
    refine List.map_congr_left fun e _ => ?_
    by_cases hkey : e.1 = key
    · simp only [Function.comp_apply, if_pos hkey]
    · simp only [Function.comp_apply, if_neg hkey]
  · rw [eraseFields_eq, eraseFields_eq, List.map_append]
    rfl

theorem erase_onFields (fields : List (String × Node)) :
    eraseFields (edit.onFields fields) = (edit.map erase).onFields (eraseFields fields) := by
  cases edit with
  | cut kept => rfl
  | assign key v => exact erase_assignKey fields key v
  | pop key =>
    rw [Edit.map, Edit.onFields, Edit.onFields, eraseFields_eq, eraseFields_eq, List.filter_map]
    rfl

/-- A list or an object at a place has an identity, and it is among those of the whole. -/
theorem mem_refs_of_refAt (h : refAt place n = some ref) : ref ∈ refs n := by
  induction place generalizing n with
  | nil =>
    cases n with
    | list r items | dict r fields =>
      obtain rfl := Option.some.inj h
      exact List.mem_cons_self
    | _ => cases h
  | cons step rest ih =>
    cases step with
    | key name =>
      cases n with
      | dict r fields =>
        obtain ⟨u, hu, hrest⟩ := Option.bind_eq_some_iff.mp h
        obtain ⟨before, after, rfl, -⟩ := List.lookup_eq_some_iff.mp hu
        refine List.mem_cons_of_mem _ ?_
        rw [fieldRefs_eq, List.mem_flatMap]
        exact ⟨(name, u), List.mem_append_right _ List.mem_cons_self, ih hrest⟩
      | _ => cases h
    | index i =>
      cases n with
      | list r items =>
        obtain ⟨u, hu, hrest⟩ := Option.bind_eq_some_iff.mp h
        refine List.mem_cons_of_mem _ ?_
        rw [itemRefs_eq, List.mem_flatMap]
        exact ⟨u, List.mem_of_getElem? hu, ih hrest⟩
      | _ => cases h

theorem exists_refAt {old : Json} (h : lookupAt place (erase n) = some old) (hold : Holder old) :
    ∃ ref, refAt place n = some ref := by
  induction place generalizing n with
  | nil =>
    obtain rfl := Option.some.inj h
    cases n with
    | list r items | dict r fields => exact ⟨r, rfl⟩
    | _ => cases hold
  | cons step rest ih =>
    cases step with
    | key name =>
      cases n with
      | dict r fields =>
        rw [erase, lookupAt, get_eraseFields, Option.bind_map] at h
        obtain ⟨u, hu, hrest⟩ := Option.bind_eq_some_iff.mp h
        obtain ⟨ref, href⟩ := ih hrest
        exact ⟨ref, Option.bind_eq_some_iff.mpr ⟨u, hu, href⟩⟩
      | _ => cases h
    | index i =>
      cases n with
      | list r items =>
        rw [erase, lookupAt, getElem?_eraseItems, Option.bind_map] at h
        obtain ⟨u, hu, hrest⟩ := Option.bind_eq_some_iff.mp h
        obtain ⟨ref, href⟩ := ih hrest
        exact ⟨ref, Option.bind_eq_some_iff.mpr ⟨u, hu, href⟩⟩
      | _ => cases h

theorem eraseFields_split (before after : List (String × Node)) (key : String) (u : Node) :
    eraseFields (before ++ (key, u) :: after) =
      eraseFields before ++ (key, erase u) :: eraseFields after := by
  rw [eraseFields_eq, List.map_append, List.map_cons, ← eraseFields_eq, ← eraseFields_eq]

theorem eraseItems_split (before after : List Node) (u : Node) :
    eraseItems (before ++ u :: after) = eraseItems before ++ erase u :: eraseItems after := by
  rw [eraseItems_eq, List.map_append, List.map_cons, ← eraseItems_eq, ← eraseItems_eq]

theorem exists_split {α : Type} {l : List α} {i : ℕ} {a : α} (h : l[i]? = some a) :
    ∃ before after, l = before ++ a :: after ∧ before.length = i := by
  obtain ⟨hlt, rfl⟩ := List.getElem?_eq_some_iff.mp h
  refine ⟨l.take i, l.drop (i + 1), ?_, List.length_take_of_le (Nat.le_of_lt hlt)⟩
  rw [List.cons_getElem_drop_succ, List.take_append_drop]

theorem modify_split {α : Type} (f : α → α) (before after : List α) (a : α) :
    (before ++ a :: after).modify before.length f = before ++ f a :: after := by
  induction before with
  | nil => rfl
  | cons b before ih => exact congrArg (b :: ·) ih

/-- An edit of what one field holds leaves the other fields. -/
theorem mutateFields_split {before after : List (String × Node)}
    (hrefs : (fieldRefs (before ++ (key, u) :: after)).Nodup) (hmem : ref ∈ refs u) :
    (refs u).Nodup ∧ mutateFields ref edit (before ++ (key, u) :: after) =
      before ++ (key, mutate ref edit u) :: after := by
  rw [fieldRefs_eq, List.flatMap_append, List.flatMap_cons, ← fieldRefs_eq, ← fieldRefs_eq,
    List.nodup_append, List.nodup_append] at hrefs
  obtain ⟨-, ⟨hu, -, hafter⟩, hbefore⟩ := hrefs
  have hnotBefore : ref ∉ fieldRefs before :=
    fun hin => hbefore ref hin ref (List.mem_append_left _ hmem) rfl
  have hnotAfter : ref ∉ fieldRefs after := fun hin => hafter ref hmem ref hin rfl
  refine ⟨hu, ?_⟩
  rw [mutateFields_eq, List.map_append, List.map_cons, ← mutateFields_eq, ← mutateFields_eq,
    mutateFields_of_not_mem before hnotBefore, mutateFields_of_not_mem after hnotAfter]

theorem mutateItems_split {before after : List Node}
    (hrefs : (itemRefs (before ++ u :: after)).Nodup) (hmem : ref ∈ refs u) :
    (refs u).Nodup ∧ mutateItems ref edit (before ++ u :: after) =
      before ++ mutate ref edit u :: after := by
  rw [itemRefs_eq, List.flatMap_append, List.flatMap_cons, ← itemRefs_eq, ← itemRefs_eq,
    List.nodup_append, List.nodup_append] at hrefs
  obtain ⟨-, ⟨hu, -, hafter⟩, hbefore⟩ := hrefs
  have hnotBefore : ref ∉ itemRefs before :=
    fun hin => hbefore ref hin ref (List.mem_append_left _ hmem) rfl
  have hnotAfter : ref ∉ itemRefs after := fun hin => hafter ref hmem ref hin rfl
  refine ⟨hu, ?_⟩
  rw [mutateItems_eq, List.map_append, List.map_cons, ← mutateItems_eq, ← mutateItems_eq,
    mutateItems_of_not_mem before hnotBefore, mutateItems_of_not_mem after hnotAfter]

/-- Where nothing is held twice, an edit in memory is an edit at one place of what is read. -/
theorem erase_mutate (hrefs : (refs n).Nodup) (hn : Distinct (erase n))
    (h : refAt place n = some ref) :
    erase (mutate ref edit n) = updateAt (edit.map erase).apply place (erase n) := by
  induction place generalizing n with
  | nil =>
    cases n with
    | list r items =>
      obtain rfl := Option.some.inj h
      rw [mutate, if_pos rfl, erase, erase_onList, updateAt, erase, Edit.apply]
    | dict r fields =>
      obtain rfl := Option.some.inj h
      rw [mutate, if_pos rfl, erase, erase_onFields, updateAt, erase, Edit.apply]
    | _ => cases h
  | cons step rest ih =>
    cases step with
    | key name =>
      cases n with
      | dict r fields =>
        obtain ⟨u, hu, hrest⟩ := Option.bind_eq_some_iff.mp h
        have hin := mem_refs_of_refAt hrest
        have hget : Dict.get (eraseFields fields) name = some (erase u) := by
          rw [get_eraseFields, hu, Option.map_some]
        have hdistinct : Distinct (erase u) :=
          distinctFields_iff.mp hn.2 _ (JsonPlaces.mem_of_get hget)
        obtain ⟨before, after, rfl, -⟩ := List.lookup_eq_some_iff.mp hu
        obtain ⟨hroot, hfields⟩ := List.nodup_cons.mp hrefs
        have hne : r ≠ ref := by
          rintro rfl
          refine hroot ?_
          rw [fieldRefs_eq, List.mem_flatMap]
          exact ⟨(name, u), List.mem_append_right _ List.mem_cons_self, hin⟩
        obtain ⟨hnodup, hmutated⟩ := mutateFields_split hfields hin
        have hkeys := hn.1
        rw [eraseFields_split] at hkeys
        rw [mutate, if_neg hne, hmutated, erase, erase, eraseFields_split, eraseFields_split,
          updateAt, map_field_eq _ hkeys, ih hnodup hdistinct hrest]
      | _ => cases h
    | index i =>
      cases n with
      | list r items =>
        obtain ⟨u, hu, hrest⟩ := Option.bind_eq_some_iff.mp h
        have hin := mem_refs_of_refAt hrest
        have hmem : u ∈ items := List.mem_of_getElem? hu
        have hdistinct : Distinct (erase u) := by
          refine distinctItems_iff.mp hn _ ?_
          rw [eraseItems_eq]
          exact List.mem_map_of_mem hmem
        obtain ⟨hroot, hitems⟩ := List.nodup_cons.mp hrefs
        have hne : r ≠ ref := by
          rintro rfl
          refine hroot ?_
          rw [itemRefs_eq, List.mem_flatMap]
          exact ⟨u, hmem, hin⟩
        obtain ⟨before, after, rfl, rfl⟩ := exists_split hu
        have hlength : before.length = (eraseItems before).length := by
          rw [eraseItems_eq, List.length_map]
        obtain ⟨hnodup, hmutated⟩ := mutateItems_split hitems hin
        rw [mutate, if_neg hne, hmutated, erase, erase, eraseItems_split, eraseItems_split,
          updateAt, hlength, modify_split, ih hnodup hdistinct hrest]
      | _ => cases h

theorem assignKey_refs_sublist {v : Node} (hv : refs v = []) (fields : List (String × Node))
    (key : String) : (fieldRefs (assignKey fields key v)).Sublist (fieldRefs fields) := by
  rw [assignKey]
  split_ifs with hany
  · clear hany
    induction fields with
    | nil => exact .slnil
    | cons e fields ih =>
      rw [List.map_cons]
      by_cases hkey : e.1 = key
      · rw [if_pos hkey, fieldRefs, fieldRefs, hv]
        exact ih.trans (List.sublist_append_right _ _)
      · rw [if_neg hkey, fieldRefs, fieldRefs]
        exact (List.Sublist.refl _).append ih
  · rw [fieldRefs_eq, fieldRefs_eq, List.flatMap_append, List.flatMap_cons, hv, List.flatMap_nil,
      List.append_nil, List.append_nil]

theorem onList_refs_sublist (items : List Node) :
    (itemRefs (edit.onList items)).Sublist (itemRefs items) := by
  cases edit with
  | cut kept =>
    rw [itemRefs_eq, itemRefs_eq]
    exact (List.take_sublist kept items).flatMap refs
  | _ => exact .refl _

theorem onFields_refs_sublist (hplain : edit.Plain) (fields : List (String × Node)) :
    (fieldRefs (edit.onFields fields)).Sublist (fieldRefs fields) := by
  cases edit with
  | cut kept => exact .refl _
  | assign key v => exact assignKey_refs_sublist hplain fields key
  | pop key =>
    rw [fieldRefs_eq, fieldRefs_eq]
    exact List.filter_sublist.flatMap _

mutual

/-- Nothing comes to be held by a plain edit. -/
theorem mutate_refs_sublist (hplain : edit.Plain) :
    (n : Node) → (refs (mutate ref edit n)).Sublist (refs n)
  | .null | .bool _ | .num _ | .str _ => .refl _
  | .list r items => by
    rw [mutate, refs, refs]
    refine .cons_cons r ?_
    split_ifs
    · exact onList_refs_sublist items
    · exact mutateItems_refs_sublist hplain items
  | .dict r fields => by
    rw [mutate, refs, refs]
    refine .cons_cons r ?_
    split_ifs
    · exact onFields_refs_sublist hplain fields
    · exact mutateFields_refs_sublist hplain fields

theorem mutateItems_refs_sublist (hplain : edit.Plain) :
    (items : List Node) → (itemRefs (mutateItems ref edit items)).Sublist (itemRefs items)
  | [] => .slnil
  | v :: items => (mutate_refs_sublist hplain v).append (mutateItems_refs_sublist hplain items)

theorem mutateFields_refs_sublist (hplain : edit.Plain) : (fields : List (String × Node)) →
    (fieldRefs (mutateFields ref edit fields)).Sublist (fieldRefs fields)
  | [] => .slnil
  | (_, v) :: fields =>
    (mutate_refs_sublist hplain v).append (mutateFields_refs_sublist hplain fields)

end

end Nodes

section Copies

mutual

/-- `redact_output`: every list and every object of the result is a new one. With the result goes
the next identity that is free. -/
def redactNode : Node → ℕ → Node × ℕ
  | .dict _ fields, next =>
    let (fields, next) := redactNodeFields fields next
    (.dict next fields, next + 1)
  | .list _ items, next =>
    let (items, next) := redactNodes items next
    (.list next items, next + 1)
  | .str s, next => (.str (redactOutputText s), next)
  | .null, next => (.null, next)
  | .bool b, next => (.bool b, next)
  | .num n, next => (.num n, next)

def redactNodes : List Node → ℕ → List Node × ℕ
  | [], next => ([], next)
  | item :: items, next =>
    let (item, next) := redactNode item next
    let (items, next) := redactNodes items next
    (item :: items, next)

def redactNodeFields : List (String × Node) → ℕ → List (String × Node) × ℕ
  | [], next => ([], next)
  | (key, v) :: fields, next =>
    let (v, next) := if hidden key then (.str "[REDACTED]", next) else redactNode v next
    let (fields, next) := redactNodeFields fields next
    ((key, v) :: fields, next)

end

/-- Identities that were free, each given once. -/
structure Fresh (next next' : ℕ) (given : List ℕ) : Prop where
  le : next ≤ next'
  nodup : given.Nodup
  range : ∀ r ∈ given, next ≤ r ∧ r < next'

variable {a b c : ℕ} {l l' : List ℕ}

theorem Fresh.nil (a : ℕ) : Fresh a a [] := ⟨Nat.le_refl a, List.nodup_nil, nofun⟩

theorem Fresh.append (h : Fresh a b l) (h' : Fresh b c l') : Fresh a c (l ++ l') where
  le := h.le.trans h'.le
  nodup := by
    refine List.nodup_append.mpr ⟨h.nodup, h'.nodup, fun r hr r' hr' => ?_⟩
    have hlt := (h.range r hr).2
    have hle := (h'.range r' hr').1
    omega
  range r hr := by
    rcases List.mem_append.mp hr with hr | hr
    · exact ⟨(h.range r hr).1, (h.range r hr).2.trans_le h'.le⟩
    · exact ⟨h.le.trans (h'.range r hr).1, (h'.range r hr).2⟩

theorem Fresh.cons (h : Fresh a b l) : Fresh a (b + 1) (b :: l) where
  le := Nat.le_succ_of_le h.le
  nodup := List.nodup_cons.mpr ⟨fun hb => (h.range b hb).2.ne rfl, h.nodup⟩
  range r hr := by
    rcases List.mem_cons.mp hr with rfl | hr
    · exact ⟨h.le, Nat.lt_succ_self r⟩
    · exact ⟨(h.range r hr).1, Nat.lt_succ_of_lt (h.range r hr).2⟩

mutual

/-- What the redaction returns is read as the redacted value, and is new in memory. -/
theorem redactNode_spec : (v : Node) → (next : ℕ) →
    erase (redactNode v next).1 = redactOutput (erase v) ∧
      Fresh next (redactNode v next).2 (refs (redactNode v next).1)
  | .null, next | .bool _, next | .num _, next | .str _, next => ⟨rfl, .nil next⟩
  | .list _ items, next => by
    obtain ⟨hread, hfresh⟩ := redactNodes_spec items next
    rw [redactNode, erase, erase, hread]
    exact ⟨rfl, hfresh.cons⟩
  | .dict _ fields, next => by
    obtain ⟨hread, hfresh⟩ := redactNodeFields_spec fields next
    rw [redactNode, erase, erase, hread]
    exact ⟨rfl, hfresh.cons⟩

theorem redactNodes_spec : (items : List Node) → (next : ℕ) →
    eraseItems (redactNodes items next).1 = redactItems (eraseItems items) ∧
      Fresh next (redactNodes items next).2 (itemRefs (redactNodes items next).1)
  | [], next => ⟨rfl, .nil next⟩
  | v :: items, next => by
    obtain ⟨hv, hvfresh⟩ := redactNode_spec v next
    obtain ⟨hitems, hfresh⟩ := redactNodes_spec items (redactNode v next).2
    rw [redactNodes, eraseItems, eraseItems, hv, hitems]
    exact ⟨rfl, hvfresh.append hfresh⟩

theorem redactNodeFields_spec : (fields : List (String × Node)) → (next : ℕ) →
    eraseFields (redactNodeFields fields next).1 = redactFields (eraseFields fields) ∧
      Fresh next (redactNodeFields fields next).2 (fieldRefs (redactNodeFields fields next).1)
  | [], next => ⟨rfl, .nil next⟩
  | (key, v) :: fields, next => by
    have hread : eraseFields ((key, v) :: fields) = (key, erase v) :: eraseFields fields := rfl
    rw [redactNodeFields, hread, redactFields]
    by_cases hkey : hidden key = true
    · obtain ⟨hfields, hfresh⟩ := redactNodeFields_spec fields next
      rw [if_pos hkey, if_pos hkey]
      dsimp only
      rw [eraseFields, hfields]
      exact ⟨rfl, hfresh⟩
    · obtain ⟨hv, hvfresh⟩ := redactNode_spec v next
      obtain ⟨hfields, hfresh⟩ := redactNodeFields_spec fields (redactNode v next).2
      rw [if_neg hkey, if_neg hkey]
      dsimp only
      rw [eraseFields, hv, hfields]
      exact ⟨rfl, hvfresh.append hfresh⟩

end

theorem redactFields_keys (fields : Dict) :
    (redactFields fields).map Prod.fst = fields.map Prod.fst := by
  induction fields with
  | nil => rfl
  | cons e fields ih => rw [redactFields, List.map_cons, List.map_cons, ih]

mutual

theorem redactOutput_distinct : (v : Json) → Distinct v → Distinct (redactOutput v)
  | .null, _ | .bool _, _ | .num _, _ | .str _, _ => trivial
  | .arr items, h => redactItems_distinct items h
  | .obj fields, h => by
    refine ⟨?_, redactFields_distinct fields h.2⟩
    rw [redactFields_keys]
    exact h.1

theorem redactItems_distinct : (items : List Json) → DistinctItems items →
    DistinctItems (redactItems items)
  | [], _ => trivial
  | v :: items, h => ⟨redactOutput_distinct v h.1, redactItems_distinct items h.2⟩

theorem redactFields_distinct : (fields : List (String × Json)) → DistinctFields fields →
    DistinctFields (redactFields fields)
  | [], _ => trivial
  | (key, v) :: fields, h => by
    refine ⟨?_, redactFields_distinct fields h.2⟩
    split_ifs
    · trivial
    · exact redactOutput_distinct v h.1

end

end Copies

end ProjectControl.Reads
