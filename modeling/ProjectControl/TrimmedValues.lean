import ProjectControl.PayloadTrimming

/-! What trimming leaves of a value: lists end earlier, texts are cut, fields are gone, and each
list of the result begins as the list at its place did. The items that are counted. -/

set_option autoImplicit false

namespace ProjectControl.Reads

open JsonText

section Trimmed

mutual

/-- One value is what trimming leaves of another. What stands under `truncation` is whole. -/
inductive Trimmed : Json → Json → Prop
  | same (v : Json) : Trimmed v v
  | text (s : String) {n : ℕ} : n + 1 < s.length → Trimmed (.str s) (.str (cutText s n))
  | list {items kept : List Json} : TrimmedItems items kept → Trimmed (.arr items) (.arr kept)
  | object {fields kept : List (String × Json)} : TrimmedFields fields kept →
      Trimmed (.obj fields) (.obj kept)

inductive TrimmedItems : List Json → List Json → Prop
  | nil (rest : List Json) : TrimmedItems rest []
  | cons {v w : Json} {items kept : List Json} : Trimmed v w → TrimmedItems items kept →
      TrimmedItems (v :: items) (w :: kept)

inductive TrimmedFields : List (String × Json) → List (String × Json) → Prop
  | nil : TrimmedFields [] []
  | drop {key : String} {v : Json} {fields kept : List (String × Json)} : key ≠ "truncation" →
      TrimmedFields fields kept → TrimmedFields ((key, v) :: fields) kept
  | keep {key : String} {v w : Json} {fields kept : List (String × Json)} :
      (key = "truncation" → w = v) → Trimmed v w → TrimmedFields fields kept →
      TrimmedFields ((key, v) :: fields) ((key, w) :: kept)

end

variable {u v w old new : Json} {items kept : List Json} {fields left : Dict} {place : Place}

theorem cutText_cut (s : String) {m n : ℕ} (hmn : m ≤ n) (hn : n < s.length) :
    cutText (cutText s n) m = cutText s m := by
  have hlength : m ≤ (s.toList.take n).length := by
    rw [List.length_take, String.length_toList]
    omega
  rw [cutText, cutText, cutText, String.toList_append, String.toList_ofList,
    List.take_append_of_le_length hlength, List.take_take, Nat.min_eq_left hmn]

mutual

theorem Trimmed.trans {u v w : Json} : Trimmed u v → Trimmed v w → Trimmed u w
  | .same _, h => h
  | h, .same _ => h
  | .text s hn, .text _ hm => by
    rw [length_cutText (by omega)] at hm
    rw [cutText_cut s (by omega) (by omega)]
    exact .text s (by omega)
  | .list h, .list h' => .list (h.trans h')
  | .object h, .object h' => .object (h.trans h')

theorem TrimmedItems.trans {us vs ws : List Json} :
    TrimmedItems us vs → TrimmedItems vs ws → TrimmedItems us ws
  | _, .nil _ => .nil _
  | .cons h hs, .cons h' hs' => .cons (h.trans h') (hs.trans hs')

theorem TrimmedFields.trans {us vs ws : List (String × Json)} :
    TrimmedFields us vs → TrimmedFields vs ws → TrimmedFields us ws
  | .nil, .nil => .nil
  | .drop hkey hs, hs' => .drop hkey (hs.trans hs')
  | .keep _ _ hs, .drop hkey hs' => .drop hkey (hs.trans hs')
  | .keep hkey h hs, .keep hkey' h' hs' =>
    .keep (fun heq => (hkey' heq).trans (hkey heq)) (h.trans h') (hs.trans hs')

end

theorem TrimmedItems.refl (items : List Json) : TrimmedItems items items := by
  induction items with
  | nil => exact .nil []
  | cons v items ih => exact .cons (.same v) ih

theorem TrimmedItems.append_left (before : List Json) (h : TrimmedItems items kept) :
    TrimmedItems (before ++ items) (before ++ kept) := by
  induction before with
  | nil => exact h
  | cons v before ih => exact .cons (.same v) ih

theorem TrimmedItems.take (items : List Json) (n : ℕ) : TrimmedItems items (items.take n) := by
  induction items generalizing n with
  | nil =>
    rw [List.take_nil]
    exact .nil []
  | cons v items ih =>
    cases n with
    | zero => exact .nil _
    | succ n => exact .cons (.same v) (ih n)

theorem TrimmedFields.refl (fields : Dict) : TrimmedFields fields fields := by
  induction fields with
  | nil => exact .nil
  | cons e fields ih => exact .keep (fun _ => rfl) (.same e.2) ih

theorem TrimmedFields.append_left (before : Dict) (h : TrimmedFields fields left) :
    TrimmedFields (before ++ fields) (before ++ left) := by
  induction before with
  | nil => exact h
  | cons e before ih => exact .keep (fun _ => rfl) (.same e.2) ih

theorem TrimmedFields.pop {key : String} (hkey : key ≠ "truncation") (fields : Dict) :
    TrimmedFields fields (fields.filter fun e => e.1 ≠ key) := by
  induction fields with
  | nil => exact .nil
  | cons e fields ih =>
    obtain ⟨name, v⟩ := e
    rw [List.filter_cons]
    split_ifs with hname
    · exact .keep (fun _ => rfl) (.same v) ih
    · have heq : name = key := by simpa using hname
      exact .drop (heq ▸ hkey) ih

theorem Shrunk.trimmed (h : Shrunk old new) : Trimmed old new := by
  cases h with
  | list items _ => exact .list (.take items _)
  | text s hn => exact .text s hn
  | object fields hkey _ => exact .object (.pop hkey fields)

theorem Replaced.trimmed (h : Replaced old new v w) (hnew : Trimmed old new) : Trimmed v w := by
  induction h with
  | here => exact hnew
  | item before after _ ih => exact .list (.append_left before (.cons ih (.refl after)))
  | field before after hkey _ ih =>
    exact .object (.append_left before (.keep (fun heq => absurd heq hkey) ih (.refl after)))

/-- What stands under `truncation` in the object itself is never touched. -/
theorem TrimmedFields.get_truncation {fields left : List (String × Json)} :
    TrimmedFields fields left → Dict.get left "truncation" = Dict.get fields "truncation"
  | .nil => rfl
  | .drop hkey h => by rw [get_cons, if_neg hkey.symm, h.get_truncation]
  | .keep hkey _ h => by
    rw [get_cons, get_cons, h.get_truncation]
    split_ifs with heq
    · rw [hkey heq.symm]
    · rfl

theorem TrimmedFields.get {fields left : List (String × Json)} {name : String} {w : Json} :
    TrimmedFields fields left → (fields.map Prod.fst).Nodup → Dict.get left name = some w →
      ∃ v, Dict.get fields name = some v ∧ Trimmed v w
  | .nil, _, hw => ⟨w, hw, .same w⟩
  | @TrimmedFields.drop key _ _ _ _ h, hkeys, hw => by
    obtain ⟨hkey, hrest⟩ := List.nodup_cons.mp hkeys
    obtain ⟨v, hv, htrimmed⟩ := h.get hrest hw
    have hname : name ≠ key := by
      rintro rfl
      exact hkey (List.mem_map.mpr ⟨(name, v), JsonPlaces.mem_of_get hv, rfl⟩)
    exact ⟨v, by rw [get_cons, if_neg hname, hv], htrimmed⟩
  | .keep _ htrimmed h, hkeys, hw => by
    rw [get_cons] at hw ⊢
    split_ifs at hw ⊢
    · exact ⟨_, rfl, Option.some.inj hw ▸ htrimmed⟩
    · exact h.get (List.nodup_cons.mp hkeys).2 hw

theorem TrimmedItems.getElem? {items kept : List Json} {i : ℕ} {w : Json} :
    TrimmedItems items kept → kept[i]? = some w → ∃ v, items[i]? = some v ∧ Trimmed v w
  | .nil _, hw => nomatch hw
  | .cons h hs, hw => by
    cases i with
    | zero => exact ⟨_, rfl, Option.some.inj hw ▸ h⟩
    | succ i => exact hs.getElem? hw

/-- At each place of what is left stands what trimming leaves of the value that stood there. -/
theorem Trimmed.lookupAt (h : Trimmed v w) (hv : Distinct v) (hplace : lookupAt place w = some u) :
    ∃ x, lookupAt place v = some x ∧ Trimmed x u := by
  induction place generalizing v w with
  | nil =>
    obtain rfl := Option.some.inj hplace
    exact ⟨v, rfl, h⟩
  | cons step rest ih =>
    cases h with
    | same => exact ⟨u, hplace, .same u⟩
    | text => cases step <;> cases hplace
    | list hitems =>
      cases step with
      | key => cases hplace
      | index i =>
        rw [Reads.lookupAt, Option.bind_eq_some_iff] at hplace
        obtain ⟨x, hx, hrest⟩ := hplace
        obtain ⟨y, hy, htrimmed⟩ := hitems.getElem? hx
        have hdistinct : Distinct y := distinctItems_iff.mp hv y (List.mem_of_getElem? hy)
        rw [lookupAt_index hy]
        exact ih htrimmed hdistinct hrest
    | object hfields =>
      cases step with
      | index => cases hplace
      | key name =>
        rw [Reads.lookupAt, Option.bind_eq_some_iff] at hplace
        obtain ⟨x, hx, hrest⟩ := hplace
        obtain ⟨y, hy, htrimmed⟩ := hfields.get hv.1 hx
        have hdistinct : Distinct y := distinctFields_iff.mp hv.2 _ (JsonPlaces.mem_of_get hy)
        rw [lookupAt_key hy]
        exact ih htrimmed hdistinct hrest

theorem TrimmedItems.forall₂ {items kept : List Json} :
    TrimmedItems items kept → List.Forall₂ Trimmed (items.take kept.length) kept
  | .nil _ => .nil
  | .cons h hs => .cons h hs.forall₂

/-- The list at a place of what is left is a beginning of the list at that place, item by item
trimmed. -/
theorem Trimmed.list_begins (h : Trimmed v w) (hv : Distinct v)
    (hplace : Reads.lookupAt place w = some (.arr kept)) :
    ∃ items, Reads.lookupAt place v = some (.arr items) ∧
      List.Forall₂ Trimmed (items.take kept.length) kept := by
  obtain ⟨x, hx, htrimmed⟩ := h.lookupAt hv hplace
  cases htrimmed with
  | same => exact ⟨kept, hx, (TrimmedItems.refl kept).forall₂⟩
  | list hitems => exact ⟨_, hx, hitems.forall₂⟩

end Trimmed

section Counting

mutual

/-- The items of all lists of a value, but not of those under a key that is skipped. -/
def countItems (skip : String → Bool) : Json → ℕ
  | .arr items => items.length + countList skip items
  | .obj fields => countFields skip fields
  | _ => 0

def countList (skip : String → Bool) : List Json → ℕ
  | [] => 0
  | v :: items => countItems skip v + countList skip items

def countFields (skip : String → Bool) : List (String × Json) → ℕ
  | [] => 0
  | (key, v) :: fields => (if skip key then 0 else countItems skip v) + countFields skip fields

end

/-- `key == "truncation"`. -/
def skipped (key : String) : Bool := key = "truncation"

/-- Every item of every list of a value. -/
def allItems (v : Json) : ℕ := countItems (fun _ => false) v

def listLength : Json → ℕ
  | .arr items => items.length
  | _ => 0

variable {skip : String → Bool} {report : Json}

theorem itemCount_eq_sum (clean : Dict) :
    itemCount clean = ((places (.obj clean)).map fun e => listLength e.2).sum := by
  rw [itemCount, lists]
  induction places (.obj clean) with
  | nil => rfl
  | cons e rest ih =>
    obtain ⟨place, v⟩ := e
    rw [List.map_cons, List.sum_cons, ← ih]
    cases v with
    | arr items => rfl
    | _ => exact (Nat.zero_add _).symm

mutual

theorem count_places : (v : Json) →
    listLength v + ((places v).map fun e => listLength e.2).sum = countItems skipped v
  | .null | .bool _ | .num _ | .str _ => rfl
  | .arr items => by
    rw [places, countItems, count_itemPlaces 0 items]
    rfl
  | .obj fields => by
    rw [places, countItems, count_fieldPlaces fields]
    exact Nat.zero_add _

theorem count_itemPlaces : (n : ℕ) → (items : List Json) →
    ((itemPlaces n items).map fun e => listLength e.2).sum = countList skipped items
  | _, [] => rfl
  | n, v :: items => by
    have hv := count_places v
    have hitems := count_itemPlaces (n + 1) items
    rw [itemPlaces, countList, List.cons_append, List.map_cons, List.map_append, List.map_map,
      List.sum_cons, List.sum_append, hitems, ← hv, Nat.add_assoc]
    rfl

theorem count_fieldPlaces : (fields : List (String × Json)) →
    ((fieldPlaces fields).map fun e => listLength e.2).sum = countFields skipped fields
  | [] => rfl
  | (key, v) :: fields => by
    have hv := count_places v
    have hfields := count_fieldPlaces fields
    rw [fieldPlaces, countFields]
    by_cases hkey : key = "truncation"
    · have hskipped : skipped key = true := decide_eq_true hkey
      rw [if_pos hkey, if_pos hskipped, hfields, Nat.zero_add]
    · have hskipped : ¬skipped key = true := by simpa [skipped] using hkey
      rw [if_neg hkey, if_neg hskipped, List.cons_append, List.map_cons, List.map_append,
        List.map_map, List.sum_cons, List.sum_append, hfields, ← hv, Nat.add_assoc]
      rfl

end

/-- The code counts the items of all lists but those under `truncation`. -/
theorem itemCount_eq (clean : Dict) : itemCount clean = countItems skipped (.obj clean) := by
  rw [itemCount_eq_sum, ← count_places]
  exact (Nat.zero_add _).symm

mutual

theorem countItems_le_all : (v : Json) → countItems skip v ≤ allItems v
  | .null | .bool _ | .num _ | .str _ => Nat.le_refl _
  | .arr items => Nat.add_le_add_left (countList_le_all items) _
  | .obj fields => countFields_le_all fields

theorem countList_le_all : (items : List Json) →
    countList skip items ≤ countList (fun _ => false) items
  | [] => Nat.le_refl _
  | v :: items => Nat.add_le_add (countItems_le_all v) (countList_le_all items)

theorem countFields_le_all : (fields : List (String × Json)) →
    countFields skip fields ≤ countFields (fun _ => false) fields
  | [] => Nat.le_refl _
  | (key, v) :: fields => by
    have hv := countItems_le_all v
    have hfields := countFields_le_all fields
    rw [countFields, countFields, if_neg Bool.false_ne_true]
    rw [allItems] at hv
    split_ifs <;> omega

end

theorem TrimmedItems.length_le {items kept : List Json} :
    TrimmedItems items kept → kept.length ≤ items.length
  | .nil _ => Nat.zero_le _
  | .cons _ hs => Nat.succ_le_succ hs.length_le

mutual

/-- Trimming leaves no more items than there were. -/
theorem Trimmed.count_le {v w : Json} : Trimmed v w → countItems skip w ≤ countItems skip v
  | .same _ => Nat.le_refl _
  | .text _ _ => Nat.le_refl _
  | .list hs => Nat.add_le_add hs.length_le hs.count_le
  | .object hs => hs.count_le

theorem TrimmedItems.count_le {items kept : List Json} :
    TrimmedItems items kept → countList skip kept ≤ countList skip items
  | .nil _ => Nat.zero_le _
  | .cons h hs => Nat.add_le_add h.count_le hs.count_le

theorem TrimmedFields.count_le {fields kept : List (String × Json)} :
    TrimmedFields fields kept → countFields skip kept ≤ countFields skip fields
  | .nil => Nat.le_refl _
  | .drop _ hs => Nat.le_add_left_of_le hs.count_le
  | .keep _ h hs => by
    have hv := h.count_le
    rw [countFields, countFields]
    refine Nat.add_le_add ?_ hs.count_le
    split_ifs
    · exact Nat.le_refl _
    · exact hv

end

mutual

/-- Trimming leaves no more items under what is skipped than there were. -/
theorem Trimmed.skipped_le {v w : Json} :
    Trimmed v w → allItems w + countItems skip v ≤ allItems v + countItems skip w
  | .same _ => Nat.le_refl _
  | .text _ _ => Nat.le_refl _
  | .list hs => by
    have hitems := hs.skipped_le
    rw [allItems, allItems, countItems, countItems, countItems, countItems]
    omega
  | .object hs => hs.skipped_le

theorem TrimmedItems.skipped_le {items kept : List Json} : TrimmedItems items kept →
    countList (fun _ => false) kept + countList skip items ≤
      countList (fun _ => false) items + countList skip kept
  | .nil rest => by
    have hrest : countList skip rest ≤ countList (fun _ => false) rest := countList_le_all rest
    rw [countList, countList]
    omega
  | .cons h hs => by
    have hv := h.skipped_le
    have hitems := hs.skipped_le
    rw [allItems, allItems] at hv
    rw [countList, countList, countList, countList]
    omega

theorem TrimmedFields.skipped_le {fields kept : List (String × Json)} : TrimmedFields fields kept →
    countFields (fun _ => false) kept + countFields skip fields ≤
      countFields (fun _ => false) fields + countFields skip kept
  | .nil => Nat.le_refl _
  | @TrimmedFields.drop _ v _ _ _ hs => by
    have hv : countItems skip v ≤ allItems v := countItems_le_all v
    have hfields := hs.skipped_le
    rw [allItems] at hv
    rw [countFields, countFields, if_neg Bool.false_ne_true]
    split_ifs <;> omega
  | @TrimmedFields.keep _ v w _ _ _ h hs => by
    have hv := h.skipped_le
    have hle : countItems (fun _ => false) w ≤ countItems (fun _ => false) v := h.count_le
    have hfields := hs.skipped_le
    rw [allItems, allItems] at hv
    rw [countFields, countFields, countFields, countFields, if_neg Bool.false_ne_true,
      if_neg Bool.false_ne_true]
    split_ifs <;> omega

end

theorem countFields_append (before after : Dict) :
    countFields skip (before ++ after) = countFields skip before + countFields skip after := by
  induction before with
  | nil => rw [List.nil_append, countFields, Nat.zero_add]
  | cons e before ih =>
    rw [List.cons_append, countFields, countFields, ih]
    exact (Nat.add_assoc _ _ _).symm

/-- A report without lists in place of what stood under `truncation`. -/
theorem count_put_truncation (d : Dict) (hreport : allItems report = 0) :
    countItems skipped (.obj (put d "truncation" report)) = countItems skipped (.obj d) ∧
      allItems (.obj (put d "truncation" report)) ≤ allItems (.obj d) := by
  have hskipped : skipped "truncation" = true := by decide
  rw [allItems] at hreport
  rw [allItems, allItems, countItems, countItems, countItems, countItems, put]
  split_ifs with hany
  · clear hany
    induction d with
    | nil => exact ⟨rfl, Nat.le_refl _⟩
    | cons e d ih =>
      obtain ⟨key, v⟩ := e
      obtain ⟨ihskipped, ihall⟩ := ih
      rw [List.map_cons]
      by_cases hkey : key = "truncation"
      · rw [if_pos hkey, countFields, countFields, countFields, countFields, hkey, ihskipped,
          if_pos hskipped, if_neg Bool.false_ne_true, if_neg Bool.false_ne_true, hreport]
        exact ⟨rfl, Nat.add_le_add (Nat.zero_le _) ihall⟩
      · rw [if_neg hkey, countFields, countFields, countFields, countFields, ihskipped]
        exact ⟨rfl, Nat.add_le_add_left ihall _⟩
  · rw [countFields_append, countFields_append, countFields, countFields, countFields, countFields,
      if_pos hskipped, if_neg Bool.false_ne_true, hreport]
    exact ⟨rfl, Nat.le_refl _⟩

end Counting

end ProjectControl.Reads
