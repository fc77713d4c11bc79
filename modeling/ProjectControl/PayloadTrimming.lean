import ProjectControl.JsonPlaces
import ProjectControl.Loops
import ProjectControl.RedactedEnvelopes
import ProjectControl.SortedKeys

/-! The loop of `bounded_payload`: each round makes one list, one text or one object smaller, so
the loop ends, and what it leaves is what it began with, trimmed. -/

set_option autoImplicit false

namespace ProjectControl.Reads

open JsonText Redaction

section Contexts

/-- The value at a place. -/
def lookupAt : Place → Json → Option Json
  | [], v => some v
  | .key name :: rest, .obj fields => (Dict.get fields name).bind (lookupAt rest)
  | .index i :: rest, .arr items => (items[i]?).bind (lookupAt rest)
  | _ :: _, _ => none

/-- The way to a place does not go through a `truncation`. -/
def Visible (place : Place) : Prop := .key "truncation" ∉ place

/-- One value inside another is replaced, at a place that is visible. -/
inductive Replaced (old new : Json) : Json → Json → Prop
  | here : Replaced old new old new
  | item (before after : List Json) {v w : Json} : Replaced old new v w →
      Replaced old new (.arr (before ++ v :: after)) (.arr (before ++ w :: after))
  | field (before after : Dict) {key : String} {v w : Json} : key ≠ "truncation" →
      Replaced old new v w →
      Replaced old new (.obj (before ++ (key, v) :: after)) (.obj (before ++ (key, w) :: after))

variable {v w old new : Json} {place rest : Place} {fields : Dict} {name : String}

theorem map_field_eq {α : Type} {before after : List (String × α)} {u : α} (f : α → α)
    (hkeys : ((before ++ (name, u) :: after).map Prod.fst).Nodup) :
    (before ++ (name, u) :: after).map (fun e => if e.1 = name then (e.1, f e.2) else e) =
      before ++ (name, f u) :: after := by
  rw [List.map_append, List.map_cons, List.nodup_append, List.nodup_cons] at hkeys
  obtain ⟨-, ⟨hafter, -⟩, hbefore⟩ := hkeys
  have hsame (d : List (String × α)) (hd : name ∉ d.map Prod.fst) :
      d.map (fun e => if e.1 = name then (e.1, f e.2) else e) = d := by
    refine (List.map_congr_left (g := id) (fun e he => ?_)).trans (List.map_id d)
    have hne : e.1 ≠ name := fun heq => hd (heq ▸ List.mem_map_of_mem he)
    exact if_neg hne
  have hname : name ∉ before.map Prod.fst :=
    fun hmem => hbefore name hmem name List.mem_cons_self rfl
  rw [List.map_append, List.map_cons, hsame before hname, hsame after hafter, if_pos rfl]

/-- A place splits a value into what stands there and the rest around it. -/
theorem exists_context (hv : Distinct v) (hold : lookupAt place v = some old) :
    ∃ context : Json → Json, context old = v ∧
      (∀ f, updateAt f place v = context (f old)) ∧
      (Visible place → ∀ new, Replaced old new v (context new)) := by
  induction place generalizing v with
  | nil =>
    obtain rfl := Option.some.inj hold
    exact ⟨id, rfl, fun f => rfl, fun _ new => .here⟩
  | cons step rest ih =>
    cases step with
    | key name =>
      cases v with
      | obj fields =>
        rw [lookupAt, Option.bind_eq_some_iff] at hold
        obtain ⟨u, hu, hrest⟩ := hold
        have hdistinct : Distinct u := distinctFields_iff.mp hv.2 _ (JsonPlaces.mem_of_get hu)
        obtain ⟨before, after, rfl, -⟩ := List.lookup_eq_some_iff.mp hu
        obtain ⟨context, hcontext, hupdate, hreplaced⟩ := ih hdistinct hrest
        refine ⟨fun x => .obj (before ++ (name, context x) :: after), by simp only [hcontext],
          fun f => ?_, fun hvisible new => ?_⟩
        · rw [updateAt, map_field_eq (updateAt f rest) hv.1, hupdate]
        · have hname : name ≠ "truncation" :=
            fun heq => hvisible (heq ▸ List.mem_cons_self)
          have hvisible' : Visible rest := fun hmem => hvisible (List.mem_cons_of_mem _ hmem)
          exact .field before after hname (hreplaced hvisible' new)
      | _ => cases hold
    | index i =>
      cases v with
      | arr items =>
        rw [lookupAt, Option.bind_eq_some_iff] at hold
        obtain ⟨u, hu, hrest⟩ := hold
        have hdistinct : Distinct u := distinctItems_iff.mp hv _ (List.mem_of_getElem? hu)
        obtain ⟨hlt, hget⟩ := List.getElem?_eq_some_iff.mp hu
        obtain ⟨context, hcontext, hupdate, hreplaced⟩ := ih hdistinct hrest
        have hsplit : items = items.take i ++ u :: items.drop (i + 1) := by
          rw [← hget, List.cons_getElem_drop_succ, List.take_append_drop]
        refine ⟨fun x => .arr (items.take i ++ context x :: items.drop (i + 1)), ?_, fun f => ?_,
          fun hvisible new => ?_⟩
        · dsimp only
          rw [hcontext, ← hsplit]
        · rw [updateAt, List.modify_eq_take_cons_drop hlt, hget, hupdate]
        · have hvisible' : Visible rest := fun hmem => hvisible (List.mem_cons_of_mem _ hmem)
          have hitem := Replaced.item (items.take i) (items.drop (i + 1))
            (hreplaced hvisible' new)
          rwa [← hsplit] at hitem
      | _ => cases hold

theorem updateAt_congr {f g : Json → Json} (hv : Distinct v) (hold : lookupAt place v = some old)
    (h : f old = g old) : updateAt f place v = updateAt g place v := by
  obtain ⟨context, -, hupdate, -⟩ := exists_context hv hold
  rw [hupdate, hupdate, h]

theorem replaced_updateAt (f : Json → Json) (hv : Distinct v)
    (hold : lookupAt place v = some old) (hvisible : Visible place) :
    Replaced old (f old) v (updateAt f place v) := by
  obtain ⟨context, -, hupdate, hreplaced⟩ := exists_context hv hold
  rw [hupdate]
  exact hreplaced hvisible (f old)

theorem updateAt_append (f : Json → Json) (place rest : Place) (v : Json) :
    updateAt f (place ++ rest) v = updateAt (updateAt f rest) place v := by
  induction place generalizing v with
  | nil => rfl
  | cons step place ih =>
    have hnext : updateAt f (place ++ rest) = updateAt (updateAt f rest) place := funext ih
    cases step with
    | key name => cases v <;> simp only [List.cons_append, updateAt, hnext]
    | index i => cases v <;> simp only [List.cons_append, updateAt, hnext]

theorem lookupAt_append (place rest : Place) (v : Json) :
    lookupAt (place ++ rest) v = (lookupAt place v).bind (lookupAt rest) := by
  induction place generalizing v with
  | nil => rfl
  | cons step place ih =>
    have hnext : lookupAt (place ++ rest) = fun v => (lookupAt place v).bind (lookupAt rest) :=
      funext ih
    cases step with
    | key name => cases v <;> simp only [List.cons_append, lookupAt, hnext, Option.bind_assoc,
        Option.bind_none]
    | index i => cases v <;> simp only [List.cons_append, lookupAt, hnext, Option.bind_assoc,
        Option.bind_none]

/-- An entry of the places of a value is what stands there. -/
structure Stands (v : Json) (e : Place × Json) : Prop where
  there : lookupAt e.1 v = some e.2
  visible : Visible e.1
  inside : e.1 ≠ []

theorem Stands.cons {step : Step} {e : Place × Json} (hstep : step ≠ .key "truncation")
    (hlookup : ∀ place, lookupAt (step :: place) v = lookupAt place w)
    (he : lookupAt e.1 w = some e.2) (hvisible : Visible e.1) : Stands v (step :: e.1, e.2) where
  there := (hlookup e.1).trans he
  visible hmem := by
    rcases List.mem_cons.mp hmem with heq | hmem
    · exact hstep heq.symm
    · exact hvisible hmem
  inside := List.cons_ne_nil _ _

theorem lookupAt_key {key : String} (h : Dict.get fields key = some w) (place : Place) :
    lookupAt (.key key :: place) (.obj fields) = lookupAt place w := by
  rw [lookupAt, h, Option.bind_some]

theorem lookupAt_index {items : List Json} {i : ℕ} (h : items[i]? = some w) (place : Place) :
    lookupAt (.index i :: place) (.arr items) = lookupAt place w := by
  rw [lookupAt, h, Option.bind_some]

mutual

theorem stands_of_mem_places : (v : Json) → Distinct v → ∀ e ∈ places v, Stands v e
  | .null, _ => nofun
  | .bool _, _ => nofun
  | .num _, _ => nofun
  | .str _, _ => nofun
  | .arr items, h => by
    intro e he
    rw [places] at he
    exact stands_of_mem_itemPlaces 0 items items h (fun i => by rw [Nat.zero_add]) e he
  | .obj fields, h => by
    intro e he
    rw [places] at he
    exact stands_of_mem_fieldPlaces fields fields h.2
      (fun key w hw => JsonPlaces.get_of_mem h.1 hw) e he

theorem stands_of_mem_itemPlaces : (n : ℕ) → (items all : List Json) → DistinctItems items →
    (∀ i, all[n + i]? = items[i]?) → ∀ e ∈ itemPlaces n items, Stands (.arr all) e
  | _, [], _, _, _ => nofun
  | n, v :: items, all, h, hall => by
    intro e he
    have hfirst : all[n]? = some v := hall 0
    have hrest : ∀ i, all[n + 1 + i]? = items[i]? := by
      intro i
      rw [Nat.add_assoc, Nat.add_comm 1 i]
      exact hall (i + 1)
    simp only [itemPlaces, List.cons_append, List.mem_cons, List.mem_append, List.mem_map] at he
    rcases he with rfl | ⟨f, hf, rfl⟩ | he
    · exact .cons (e := ([], v)) nofun (lookupAt_index hfirst) rfl List.not_mem_nil
    · have hstands := stands_of_mem_places v h.1 f hf
      exact .cons nofun (lookupAt_index hfirst) hstands.there hstands.visible
    · exact stands_of_mem_itemPlaces (n + 1) items all h.2 hrest e he

theorem stands_of_mem_fieldPlaces : (fields all : Dict) → DistinctFields fields →
    (∀ key v, (key, v) ∈ fields → Dict.get all key = some v) →
      ∀ e ∈ fieldPlaces fields, Stands (.obj all) e
  | [], _, _, _ => nofun
  | (key, v) :: fields, all, h, hall => by
    intro e he
    have hfirst : Dict.get all key = some v := hall key v List.mem_cons_self
    have hrest : ∀ key v, (key, v) ∈ fields → Dict.get all key = some v :=
      fun key v hmem => hall key v (List.mem_cons_of_mem _ hmem)
    rw [fieldPlaces] at he
    split_ifs at he with hkey
    · exact stands_of_mem_fieldPlaces fields all h.2 hrest e he
    · have hstep : Step.key key ≠ .key "truncation" := fun heq => hkey (Step.key.inj heq)
      simp only [List.cons_append, List.mem_cons, List.mem_append, List.mem_map] at he
      rcases he with rfl | ⟨f, hf, rfl⟩ | he
      · exact .cons (e := ([], v)) hstep (lookupAt_key hfirst) rfl List.not_mem_nil
      · have hstands := stands_of_mem_places v h.1 f hf
        exact .cons hstep (lookupAt_key hfirst) hstands.there hstands.visible
      · exact stands_of_mem_fieldPlaces fields all h.2 hrest e he

end

end Contexts

section Weights

mutual

/-- The characters of all texts, the items of all lists and the fields of all objects. -/
def weight : Json → ℕ
  | .str s => s.length
  | .arr items => itemsWeight items
  | .obj fields => fieldsWeight fields
  | _ => 0

def itemsWeight : List Json → ℕ
  | [] => 0
  | v :: items => weight v + 1 + itemsWeight items

def fieldsWeight : List (String × Json) → ℕ
  | [] => 0
  | (_, v) :: fields => weight v + 1 + fieldsWeight fields

end

/-- What a round makes of the list, the text or the object that it picks. -/
inductive Shrunk : Json → Json → Prop
  | list (items : List Json) {kept : ℕ} : kept < items.length →
      Shrunk (.arr items) (.arr (items.take kept))
  | text (s : String) {n : ℕ} : n + 1 < s.length → Shrunk (.str s) (.str (cutText s n))
  | object (fields : Dict) {key : String} : key ≠ "truncation" → key ∈ fields.map Prod.fst →
      Shrunk (.obj fields) (.obj (fields.filter fun e => e.1 ≠ key))

variable {v w old new : Json} {place : Place} {d d' : Dict}

theorem itemsWeight_append (before after : List Json) :
    itemsWeight (before ++ after) = itemsWeight before + itemsWeight after := by
  induction before with
  | nil => rw [List.nil_append, itemsWeight, Nat.zero_add]
  | cons v before ih =>
    rw [List.cons_append, itemsWeight, itemsWeight, ih]
    exact (Nat.add_assoc _ _ _).symm

theorem fieldsWeight_append (before after : Dict) :
    fieldsWeight (before ++ after) = fieldsWeight before + fieldsWeight after := by
  induction before with
  | nil => rw [List.nil_append, fieldsWeight, Nat.zero_add]
  | cons e before ih =>
    rw [List.cons_append, fieldsWeight, fieldsWeight, ih]
    exact (Nat.add_assoc _ _ _).symm

theorem fieldsWeight_filter_le (keep : String × Json → Bool) (fields : Dict) :
    fieldsWeight (fields.filter keep) ≤ fieldsWeight fields := by
  induction fields with
  | nil => exact Nat.le_refl _
  | cons e fields ih =>
    rw [List.filter_cons]
    split_ifs
    · rw [fieldsWeight, fieldsWeight]
      omega
    · rw [fieldsWeight]
      omega

theorem length_cutText {s : String} {n : ℕ} (hn : n ≤ s.length) :
    (cutText s n).length = n + 1 := by
  have hmark : "…".length = 1 := rfl
  rw [cutText, String.length_append, hmark, String.length_ofList, List.length_take,
    String.length_toList, Nat.min_eq_left hn]

theorem Shrunk.weight_lt (h : Shrunk old new) : weight new < weight old := by
  cases h with
  | @list items kept hkept =>
    have hsplit := itemsWeight_append (items.take kept) (items.drop kept)
    rw [List.take_append_drop, List.drop_eq_getElem_cons hkept, itemsWeight] at hsplit
    rw [weight, weight]
    omega
  | text s hn =>
    rw [weight, weight, length_cutText (by omega)]
    exact hn
  | object fields _ hmem =>
    obtain ⟨e, he, rfl⟩ := List.mem_map.mp hmem
    obtain ⟨before, after, rfl⟩ := List.append_of_mem he
    have hgone : ¬decide (e.1 ≠ e.1) = true := by simp
    have hbefore := fieldsWeight_filter_le (fun f => decide (f.1 ≠ e.1)) before
    have hafter := fieldsWeight_filter_le (fun f => decide (f.1 ≠ e.1)) after
    rw [weight, weight, List.filter_append, List.filter_cons, if_neg hgone, fieldsWeight_append,
      fieldsWeight_append, fieldsWeight]
    omega

theorem Replaced.weight_add (h : Replaced old new v w) :
    weight w + weight old = weight v + weight new := by
  induction h with
  | here => exact Nat.add_comm _ _
  | item before after _ ih =>
    rw [weight, weight, itemsWeight_append, itemsWeight_append, itemsWeight, itemsWeight]
    omega
  | field before after _ _ ih =>
    rw [weight, weight, fieldsWeight_append, fieldsWeight_append, fieldsWeight, fieldsWeight]
    omega

theorem Replaced.distinct (h : Replaced old new v w) (hnew : Distinct old → Distinct new)
    (hv : Distinct v) : Distinct w := by
  induction h with
  | here => exact hnew hv
  | @item before after u x _ ih =>
    have hitems := distinctItems_iff.mp hv
    refine distinctItems_iff.mpr fun y hy => ?_
    rcases List.mem_append.mp hy with hy | hy
    · exact hitems y (List.mem_append_left _ hy)
    · rcases List.mem_cons.mp hy with rfl | hy
      · exact ih (hitems u (List.mem_append_right _ List.mem_cons_self))
      · exact hitems y (List.mem_append_right _ (List.mem_cons_of_mem _ hy))
  | @field before after key u x _ _ ih =>
    have hfields := distinctFields_iff.mp hv.2
    refine ⟨?_, distinctFields_iff.mpr fun e he => ?_⟩
    · have hkeys := hv.1
      rw [List.map_append, List.map_cons] at hkeys ⊢
      exact hkeys
    · rcases List.mem_append.mp he with he | he
      · exact hfields e (List.mem_append_left _ he)
      · rcases List.mem_cons.mp he with rfl | he
        · exact ih (hfields (key, u) (List.mem_append_right _ List.mem_cons_self))
        · exact hfields e (List.mem_append_right _ (List.mem_cons_of_mem _ he))

theorem Shrunk.distinct (h : Shrunk old new) (hold : Distinct old) : Distinct new := by
  cases h with
  | list items _ =>
    exact distinctItems_iff.mpr fun v hv =>
      distinctItems_iff.mp hold v (List.mem_of_mem_take hv)
  | text s _ => trivial
  | object fields _ _ =>
    refine ⟨hold.1.sublist (List.filter_sublist.map Prod.fst), distinctFields_iff.mpr ?_⟩
    exact fun e he => distinctFields_iff.mp hold.2 e (List.mem_of_mem_filter he)

end Weights

section Rounds

variable {budgetBytes : ℕ} {clean clean' : Dict} {place : Place}

/-- A round of the loop, which breaks where the text fits or nothing is left to be shortened. -/
def round (budgetBytes : ℕ) (clean : Dict) : Option Dict :=
  if encodedSize (.obj clean) ≤ budgetBytes then none else shrink clean

theorem mem_places_of_lists {items : List Json} (h : (place, items) ∈ lists clean) :
    (place, .arr items) ∈ places (.obj clean) := by
  obtain ⟨⟨q, v⟩, he, heq⟩ := List.mem_filterMap.mp h
  split at heq
  · rename_i found hfound
    obtain ⟨rfl, rfl⟩ := Prod.mk.inj (Option.some.inj heq)
    exact hfound ▸ he
  · cases heq

/-- A text is found in the object at the place before its key. -/
theorem mem_places_of_strings {text : String} (h : (place, text) ∈ strings clean) :
    (place, .str text) ∈ places (.obj clean) ∧
      ∃ parent name, place = parent ++ [.key name] := by
  obtain ⟨⟨q, v⟩, he, heq⟩ := List.mem_filterMap.mp h
  split at heq
  · rename_i found name hfound hname
    obtain ⟨rfl, rfl⟩ := Prod.mk.inj (Option.some.inj heq)
    exact ⟨hfound ▸ he, q.dropLast, name, (List.dropLast_append_getLast? _ hname).symm⟩
  · cases heq

theorem mem_places_of_dictionaries {fields : Dict} (h : (place, fields) ∈ dictionaries clean) :
    (place, .obj fields) ∈ places (.obj clean) := by
  obtain ⟨⟨q, v⟩, he, heq⟩ := List.mem_filterMap.mp h
  split at heq
  · rename_i found hfound
    obtain ⟨rfl, rfl⟩ := Prod.mk.inj (Option.some.inj heq)
    exact hfound ▸ he
  · cases heq

theorem obj_change (hplace : place ≠ []) (v : Json) :
    .obj (change clean place v) = updateAt (fun _ => v) place (.obj clean) := by
  cases place with
  | nil => exact absurd rfl hplace
  | cons step rest => cases step <;> rfl

theorem replaced_change {old : Json} (hclean : Distinct (.obj clean))
    (hmem : (place, old) ∈ places (.obj clean)) (new : Json) :
    Replaced old new (.obj clean) (.obj (change clean place new)) := by
  have hstands := stands_of_mem_places _ hclean _ hmem
  rw [obj_change hstands.inside]
  exact replaced_updateAt (fun _ => new) hclean hstands.there hstands.visible

/-- A round makes one list, text or object smaller and leaves everything else. -/
theorem shrink_replaced (hclean : Distinct (.obj clean)) (h : shrink clean = some clean') :
    ∃ old new, Shrunk old new ∧ Replaced old new (.obj clean) (.obj clean') := by
  unfold shrink at h
  split at h
  · rename_i place items hmax
    obtain ⟨hmem, hseveral⟩ := List.mem_filter.mp (List.argmax_mem hmax)
    have hseveral : 1 < items.length := of_decide_eq_true hseveral
    obtain rfl := Option.some.inj h
    exact ⟨_, _, .list items (by omega), replaced_change hclean (mem_places_of_lists hmem) _⟩
  · split at h
    · rename_i place text hmax
      obtain ⟨hmem, hlong⟩ := List.mem_filter.mp (List.argmax_mem hmax)
      have hlong : 64 < text.length := of_decide_eq_true hlong
      obtain rfl := Option.some.inj h
      -- the mark adds a character to what is kept
      have hshorter : max 32 (min (text.length - 2) (text.length / 2)) + 1 < text.length := by
        omega
      have hmem := (mem_places_of_strings hmem).1
      exact ⟨_, _, .text text hshorter, replaced_change hclean hmem _⟩
    · dsimp only at h
      split at h
      · rename_i place fields hmax
        obtain ⟨hmem, hseveral⟩ := List.mem_filter.mp (List.argmax_mem hmax)
        split at h
        · rename_i key hkey
          obtain rfl := Option.some.inj h
          have hin : key ∈ fields.map Prod.fst :=
            (List.mem_filter.mp (List.argmax_mem hkey)).1
          have hkey : key ≠ "truncation" := by
            rintro rfl
            obtain ⟨e, he, hname⟩ := List.mem_map.mp hin
            have hany : fields.any (fun f => f.1 = "truncation") = true :=
              List.any_eq_true.mpr ⟨e, he, decide_eq_true hname⟩
            simp only [hany, Bool.not_true, Bool.and_false, Bool.false_eq_true] at hseveral
          exact ⟨_, _, .object fields hkey hin,
            replaced_change hclean (mem_places_of_dictionaries hmem) _⟩
        · cases h
      · cases h

theorem round_replaced (hclean : Distinct (.obj clean))
    (h : round budgetBytes clean = some clean') :
    ∃ old new, Shrunk old new ∧ Replaced old new (.obj clean) (.obj clean') := by
  unfold round at h
  split_ifs at h
  exact shrink_replaced hclean h

theorem round_distinct (hclean : Distinct (.obj clean))
    (h : round budgetBytes clean = some clean') : Distinct (.obj clean') := by
  obtain ⟨old, new, hshrunk, hreplaced⟩ := round_replaced hclean h
  exact hreplaced.distinct hshrunk.distinct hclean

theorem round_weight_lt (hclean : Distinct (.obj clean))
    (h : round budgetBytes clean = some clean') : weight (.obj clean') < weight (.obj clean) := by
  obtain ⟨old, new, hshrunk, hreplaced⟩ := round_replaced hclean h
  have hadd := hreplaced.weight_add
  have hlt := hshrunk.weight_lt
  omega

/-- A limit that is not reached does not show. -/
theorem repeatStep_of_ends {α : Type} {step : α → Option α} {s t : α} {k n : ℕ}
    (h : Loops.Ends step s k t) (hk : k ≤ n) : repeatStep step n s = t := by
  induction h generalizing n with
  | stop hnone =>
    cases n with
    | zero => rfl
    | succ n => rw [repeatStep, hnone]
  | next hsome _ ih =>
    cases n with
    | zero => omega
    | succ n =>
      rw [repeatStep, hsome]
      exact ih (by omega)

theorem trim_eq_repeatStep : trim budgetBytes clean = repeatStep (round budgetBytes) 10000 clean :=
  rfl

/-- What a round keeps of every object holds of what is left in the end. -/
theorem trim_keeps {P : Dict → Prop} (hclean : Distinct (.obj clean)) (hP : P clean)
    (hround : ∀ clean clean', Distinct (.obj clean) → P clean →
      round budgetBytes clean = some clean' → P clean') :
    Distinct (.obj (trim budgetBytes clean)) ∧ P (trim budgetBytes clean) := by
  rw [trim_eq_repeatStep]
  refine repeatStep_induct (P := fun a : Dict => Distinct (.obj a) ∧ P a) _ ⟨hclean, hP⟩ ?_
  intro a a' ha ⟨hdistinct, hPa⟩
  exact ⟨round_distinct hdistinct ha, hround a a' hdistinct hPa ha⟩

end Rounds

end ProjectControl.Reads
