import Mathlib
import ProjectControl.EnvelopeExits
import ProjectControl.OutputRedaction

/-! Whether the data of a bounded envelope is redacted: what is trimmed has been, what is copied
has not. -/

set_option autoImplicit false

namespace ProjectControl.Reads

open Redaction

section Fixed

variable {d d' : Dict} {v : Json}

theorem redactItems_eq (items : List Json) : redactItems items = items.map redactOutput := by
  induction items with
  | nil => rfl
  | cons item items ih => rw [redactItems, ih, List.map_cons]

theorem redactFields_eq (fields : Dict) : redactFields fields =
    fields.map fun e => (e.1, if hidden e.1 then redactedMark else redactOutput e.2) := by
  induction fields with
  | nil => rfl
  | cons e fields ih => rw [redactFields, ih, List.map_cons]

theorem map_eq_self_iff {α : Type} {f : α → α} {l : List α} : l.map f = l ↔ ∀ a ∈ l, f a = a := by
  induction l with
  | nil => exact iff_of_true rfl nofun
  | cons a l ih => rw [List.map_cons, List.cons.injEq, List.forall_mem_cons, ih]

/-- A field that is shown as it is. -/
def FixedField (e : String × Json) : Prop :=
  (if hidden e.1 then redactedMark else redactOutput e.2) = e.2

theorem redactFields_fixed : redactFields d = d ↔ ∀ e ∈ d, FixedField e := by
  rw [redactFields_eq, map_eq_self_iff]
  exact forall₂_congr fun e _ => Prod.ext_iff.trans (and_iff_right rfl)

/-- The text is shown in a value: no key on the way to it is hidden. -/
inductive Shows (s : String) : Json → Prop
  | str : Shows s (.str s)
  | item {items : List Json} {v : Json} (hmem : v ∈ items) (h : Shows s v) : Shows s (.arr items)
  | field {fields : Dict} {key : String} {v : Json} (hmem : (key, v) ∈ fields)
      (hkey : hidden key = false) (h : Shows s v) : Shows s (.obj fields)

/-- A value whose hidden fields are marks. -/
inductive Marked : Json → Prop
  | null : Marked .null
  | bool (b : Bool) : Marked (.bool b)
  | num (n : ℤ) : Marked (.num n)
  | str (s : String) : Marked (.str s)
  | arr {items : List Json} (h : ∀ v ∈ items, Marked v) : Marked (.arr items)
  | obj {fields : Dict} (hmark : ∀ key v, (key, v) ∈ fields → hidden key = true → v = redactedMark)
      (hmarked : ∀ key v, (key, v) ∈ fields → hidden key = false → Marked v) : Marked (.obj fields)

/-- Nothing is left to be redacted where the hidden fields are marks and no text that is shown is
redacted again. -/
theorem Marked.fixed_iff (h : Marked v) :
    redactOutput v = v ↔ ∀ s, Shows s v → redactOutputText s = s := by
  induction h with
  | null => exact iff_of_true rfl nofun
  | bool b => exact iff_of_true rfl nofun
  | num n => exact iff_of_true rfl nofun
  | str s =>
    rw [redactOutput, Json.str.injEq]
    constructor
    · rintro hs t ⟨⟩
      exact hs
    · exact fun hs => hs s .str
  | @arr items _ ih =>
    rw [redactOutput, redactItems_eq, Json.arr.injEq, map_eq_self_iff]
    constructor
    · rintro hitems s (_ | ⟨hmem, hs⟩)
      exact (ih _ hmem).mp (hitems _ hmem) s hs
    · exact fun hs v hv => (ih v hv).mpr fun s hshown => hs s (.item hv hshown)
  | @obj fields hmark _ ih =>
    rw [redactOutput, Json.obj.injEq, redactFields_fixed]
    constructor
    · rintro hfields s (_ | _ | ⟨hmem, hkey, hs⟩)
      have hfield := hfields _ hmem
      rw [FixedField, if_neg (Bool.eq_false_iff.mp hkey)] at hfield
      exact (ih _ _ hmem hkey).mp hfield s hs
    · rintro hs ⟨key, v⟩ hmem
      rw [FixedField]
      split_ifs with hkey
      · exact (hmark key v hmem hkey).symm
      · have hkey := Bool.eq_false_iff.mpr hkey
        exact (ih key v hmem hkey).mpr fun s hshown => hs s (.field hmem hkey hshown)

mutual

theorem redactOutput_marked (v : Json) : Marked (redactOutput v) := by
  cases v with
  | obj fields =>
    have hfields := redactFields_marked fields
    exact .obj (fun key v hmem => (hfields _ hmem).1) fun key v hmem => (hfields _ hmem).2
  | arr items => exact .arr (redactItems_marked items)
  | str s => exact .str _
  | null => exact .null
  | bool b => exact .bool b
  | num n => exact .num n

theorem redactItems_marked (items : List Json) : ∀ v ∈ redactItems items, Marked v := by
  cases items with
  | nil => exact nofun
  | cons v items =>
    rw [redactItems, List.forall_mem_cons]
    exact ⟨redactOutput_marked v, redactItems_marked items⟩

theorem redactFields_marked (fields : List (String × Json)) : ∀ e ∈ redactFields fields,
    (hidden e.1 = true → e.2 = redactedMark) ∧ (hidden e.1 = false → Marked e.2) := by
  cases fields with
  | nil => exact nofun
  | cons e fields =>
    obtain ⟨key, v⟩ := e
    rw [redactFields, List.forall_mem_cons]
    refine ⟨⟨fun hkey => if_pos hkey, fun hkey => ?_⟩, redactFields_marked fields⟩
    dsimp only
    rw [if_neg (Bool.eq_false_iff.mp hkey)]
    exact redactOutput_marked v

end

theorem Marked.filter (h : Marked (.obj d)) (shown : String × Json → Bool) :
    Marked (.obj (d.filter shown)) := by
  cases h with
  | obj hmark hmarked =>
    exact .obj (fun key w hmem => hmark key w (List.mem_filter.mp hmem).1)
      fun key w hmem => hmarked key w (List.mem_filter.mp hmem).1

theorem mem_put {key : String} {e : String × Json} :
    e ∈ put d key v ↔ e ∈ d ∧ e.1 ≠ key ∨ e = (key, v) := by
  unfold put
  split_ifs with hany
  · obtain ⟨found, hfound, hkey⟩ := List.any_eq_true.mp hany
    rw [List.mem_map]
    constructor
    · rintro ⟨f, hf, rfl⟩
      split_ifs with heq
      · exact .inr rfl
      · exact .inl ⟨hf, heq⟩
    · rintro (⟨he, hne⟩ | rfl)
      · exact ⟨e, he, if_neg hne⟩
      · exact ⟨found, hfound, if_pos (of_decide_eq_true hkey)⟩
  · rw [List.mem_append, List.mem_singleton]
    refine or_congr_left (iff_self_and.mpr fun he heq => hany ?_)
    exact List.any_eq_true.mpr ⟨e, he, decide_eq_true heq⟩

/-- The fields of the first mapping that the second does not name, and those of the second, where
it has one value for each. -/
theorem mem_merge {e : String × Json}
    (hsame : ∀ key v, (key, v) ∈ d' → ∀ w, (key, w) ∈ d' → w = v) :
    e ∈ merge d d' ↔ e ∈ d ∧ e.1 ∉ d'.map Prod.fst ∨ e ∈ d' := by
  induction d' using List.reverseRecOn with
  | nil => simp [merge]
  | append_singleton d' f ih =>
    obtain ⟨key, v⟩ := f
    have hfirst : ∀ key v, (key, v) ∈ d' → ∀ w, (key, w) ∈ d' → w = v :=
      fun key v hv w hw => hsame key v (List.mem_append_left _ hv) w (List.mem_append_left _ hw)
    rw [merge, List.foldl_append, List.foldl_cons, List.foldl_nil, mem_put]
    change (e ∈ merge d d' ∧ e.1 ≠ key) ∨ e = (key, v) ↔ _
    rw [ih hfirst, List.map_append, List.mem_append, List.mem_append, List.map_singleton,
      List.mem_singleton, List.mem_singleton]
    have hlast : e ∈ d' → e.1 = key → e = (key, v) := by
      intro he heq
      obtain ⟨k, w⟩ := e
      obtain rfl : k = key := heq
      have hw := hsame k v (List.mem_append_right _ (List.mem_singleton_self _)) w
        (List.mem_append_left _ he)
      rw [hw]
    tauto

theorem Marked.put {key : String} (h : Marked (.obj d)) (hkey : hidden key = false)
    (hv : Marked v) : Marked (.obj (put d key v)) := by
  cases h with
  | obj hmark hmarked =>
    refine .obj (fun k w hmem hk => ?_) fun k w hmem hk => ?_
    · rcases mem_put.mp hmem with ⟨hmem, _⟩ | heq
      · exact hmark k w hmem hk
      · obtain ⟨rfl, rfl⟩ := Prod.mk.inj heq
        rw [hkey] at hk
        cases hk
    · rcases mem_put.mp hmem with ⟨hmem, _⟩ | heq
      · exact hmarked k w hmem hk
      · obtain ⟨rfl, rfl⟩ := Prod.mk.inj heq
        exact hv

end Fixed

section Trimming

variable {d : Dict} {v w : Json}

/-- No key on the way is one whose value is hidden. -/
def Open (place : Place) : Prop := ∀ key, .key key ∈ place → hidden key = false

/-- What is inside a clean value is clean and can be reached, or it is a mark. -/
def Reached (e : Place × Json) : Prop := Open e.1 ∧ Marked e.2 ∨ e.2 = redactedMark

theorem Reached.index {e : Place × Json} (h : Reached e) (i : ℕ) :
    Reached (.index i :: e.1, e.2) := by
  refine h.imp_left fun ⟨hopen, hmarked⟩ => ⟨fun key hkey => ?_, hmarked⟩
  exact hopen key ((List.mem_cons.mp hkey).resolve_left nofun)

theorem Reached.key {e : Place × Json} (h : Reached e) {name : String} (hname : hidden name = false) :
    Reached (.key name :: e.1, e.2) := by
  refine h.imp_left fun ⟨hopen, hmarked⟩ => ⟨fun key hkey => ?_, hmarked⟩
  rcases List.mem_cons.mp hkey with heq | hkey
  · obtain rfl := Step.key.inj heq
    exact hname
  · exact hopen key hkey

mutual

theorem places_reached (v : Json) (h : Marked v) : ∀ e ∈ places v, Reached e := by
  cases v with
  | arr items =>
    cases h with
    | arr hitems => exact itemPlaces_reached 0 items hitems
  | obj fields =>
    cases h with
    | obj hmark hmarked => exact fieldPlaces_reached fields hmark hmarked
  | _ => exact nofun

theorem itemPlaces_reached (i : ℕ) (items : List Json) (h : ∀ v ∈ items, Marked v) :
    ∀ e ∈ itemPlaces i items, Reached e := by
  cases items with
  | nil => exact nofun
  | cons v items =>
    have hv := h v List.mem_cons_self
    intro e he
    simp only [itemPlaces, List.cons_append, List.mem_cons, List.mem_append, List.mem_map] at he
    rcases he with rfl | ⟨f, hf, rfl⟩ | he
    · exact .inl ⟨fun key hkey => (nomatch List.mem_singleton.mp hkey), hv⟩
    · exact (places_reached v hv f hf).index i
    · exact itemPlaces_reached (i + 1) items (fun w hw => h w (List.mem_cons_of_mem v hw)) e he

theorem fieldPlaces_reached (fields : List (String × Json))
    (hmark : ∀ key v, (key, v) ∈ fields → hidden key = true → v = redactedMark)
    (hmarked : ∀ key v, (key, v) ∈ fields → hidden key = false → Marked v) :
    ∀ e ∈ fieldPlaces fields, Reached e := by
  cases fields with
  | nil => exact nofun
  | cons field fields =>
    obtain ⟨name, v⟩ := field
    have hrest := fieldPlaces_reached fields
      (fun key w hw => hmark key w (List.mem_cons_of_mem _ hw))
      fun key w hw => hmarked key w (List.mem_cons_of_mem _ hw)
    intro e he
    rw [fieldPlaces] at he
    split_ifs at he
    · exact hrest e he
    · simp only [List.cons_append, List.mem_cons, List.mem_append, List.mem_map] at he
      cases hname : hidden name with
      | true =>
        obtain rfl := hmark name v List.mem_cons_self hname
        rcases he with rfl | ⟨f, hf, rfl⟩ | he
        · exact .inr rfl
        · cases hf
        · exact hrest e he
      | false =>
        have hv := hmarked name v List.mem_cons_self hname
        rcases he with rfl | ⟨f, hf, rfl⟩ | he
        · refine .inl ⟨fun key hkey => ?_, hv⟩
          obtain rfl := Step.key.inj (List.mem_singleton.mp hkey)
          exact hname
        · exact (places_reached v hv f hf).key hname
        · exact hrest e he

end

theorem mem_modify {α : Type*} {f : α → α} {a : α} {i : ℕ} {items : List α}
    (h : a ∈ items.modify i f) : a ∈ items ∨ ∃ b ∈ items, a = f b := by
  induction items generalizing i with
  | nil => simp at h
  | cons b items ih =>
    cases i with
    | zero =>
      rw [List.modify_zero_cons] at h
      rcases List.mem_cons.mp h with rfl | h
      · exact .inr ⟨b, List.mem_cons_self, rfl⟩
      · exact .inl (List.mem_cons_of_mem b h)
    | succ i =>
      rw [List.modify_succ_cons] at h
      rcases List.mem_cons.mp h with rfl | h
      · exact .inl List.mem_cons_self
      · rcases ih h with h | ⟨c, hc, rfl⟩
        · exact .inl (List.mem_cons_of_mem b h)
        · exact .inr ⟨c, List.mem_cons_of_mem b hc, rfl⟩

theorem Marked.updateAt {place : Place} (hw : Marked w) (hopen : Open place) (h : Marked v) :
    Marked (updateAt (fun _ => w) place v) := by
  induction place generalizing v with
  | nil => exact hw
  | cons step place ih =>
    have hrest : Open place := fun key hkey => hopen key (List.mem_cons_of_mem step hkey)
    cases step with
    | key name =>
      cases h with
      | obj hmark hmarked =>
        have hname : hidden name = false := hopen name List.mem_cons_self
        refine .obj (fun key u hu hkey => ?_) fun key u hu hkey => ?_
        · obtain ⟨e, he, heq⟩ := List.mem_map.mp hu
          split_ifs at heq with hsame
          · obtain ⟨rfl, rfl⟩ := Prod.mk.inj heq
            rw [hsame, hname] at hkey
            cases hkey
          · subst heq
            exact hmark key u he hkey
        · obtain ⟨e, he, heq⟩ := List.mem_map.mp hu
          split_ifs at heq with hsame
          · obtain ⟨rfl, rfl⟩ := Prod.mk.inj heq
            exact ih hrest (hmarked e.1 e.2 he hkey)
          · subst heq
            exact hmarked key u he hkey
      | _ => first | exact .null | exact .bool _ | exact .num _ | exact .str _ | exact .arr ‹_›
    | index i =>
      cases h with
      | arr hitems =>
        refine .arr fun u hu => ?_
        rcases mem_modify hu with hu | ⟨b, hb, rfl⟩
        · exact hitems u hu
        · exact ih hrest (hitems b hb)
      | obj hmark hmarked => exact .obj hmark hmarked
      | _ => first | exact .null | exact .bool _ | exact .num _ | exact .str _

theorem Marked.change {place : Place} (hw : Marked w) (hopen : Open place) (h : Marked (.obj d)) :
    Marked (.obj (change d place w)) := by
  have hupdate := hw.updateAt hopen h
  unfold Reads.change
  split
  · rename_i fields hfields
    rw [hfields] at hupdate
    exact hupdate
  · exact h

theorem lists_reached {place : Place} {items : List Json} (h : Marked (.obj d))
    (hmem : (place, items) ∈ lists d) : Open place ∧ ∀ v ∈ items, Marked v := by
  obtain ⟨e, he, heq⟩ := List.mem_filterMap.mp hmem
  split at heq
  · rename_i found hfound
    obtain ⟨rfl, rfl⟩ := Prod.mk.inj (Option.some.inj heq)
    rcases places_reached _ h e he with ⟨hopen, hmarked⟩ | hmark
    · rw [hfound] at hmarked
      cases hmarked with
      | arr hitems => exact ⟨hopen, hitems⟩
    · rw [hfound] at hmark
      cases hmark
  · cases heq

theorem strings_reached {place : Place} {s : String} (h : Marked (.obj d))
    (hmem : (place, s) ∈ strings d) (hlong : 64 < s.length) : Open place := by
  obtain ⟨e, he, heq⟩ := List.mem_filterMap.mp hmem
  split at heq
  · rename_i found key hfound hkey
    obtain ⟨rfl, rfl⟩ := Prod.mk.inj (Option.some.inj heq)
    rcases places_reached _ h e he with ⟨hopen, _⟩ | hmark
    · exact hopen
    · rw [hfound] at hmark
      obtain rfl := Json.str.inj hmark
      exact absurd hlong (by decide)
  · cases heq

theorem dictionaries_reached {place : Place} {fields : Dict} (h : Marked (.obj d))
    (hmem : (place, fields) ∈ dictionaries d) : Open place ∧ Marked (.obj fields) := by
  obtain ⟨e, he, heq⟩ := List.mem_filterMap.mp hmem
  split at heq
  · rename_i found hfound
    obtain ⟨rfl, rfl⟩ := Prod.mk.inj (Option.some.inj heq)
    rcases places_reached _ h e he with ⟨hopen, hmarked⟩ | hmark
    · rw [hfound] at hmarked
      exact ⟨hopen, hmarked⟩
    · rw [hfound] at hmark
      cases hmark
  · cases heq

/-- A round of the trimming: half of a list, a cut of a text or all but one field of an object. -/
theorem Marked.shrink (h : Marked (.obj d)) {d' : Dict} (hd : shrink d = some d') :
    Marked (.obj d') := by
  unfold Reads.shrink at hd
  split at hd
  · rename_i place items hmax
    obtain ⟨hopen, hitems⟩ := lists_reached h (List.mem_filter.mp (List.argmax_mem hmax)).1
    obtain rfl := Option.some.inj hd
    exact Marked.change (.arr fun v hv => hitems v (List.mem_of_mem_take hv)) hopen h
  · split at hd
    · rename_i place s hmax
      obtain ⟨hmem, hlong⟩ := List.mem_filter.mp (List.argmax_mem hmax)
      have hopen := strings_reached h hmem (of_decide_eq_true hlong)
      obtain rfl := Option.some.inj hd
      exact Marked.change (.str _) hopen h
    · dsimp only at hd
      split at hd
      · rename_i place fields hmax
        obtain ⟨hopen, hfields⟩ :=
          dictionaries_reached h (List.mem_filter.mp (List.argmax_mem hmax)).1
        split at hd
        · obtain rfl := Option.some.inj hd
          exact Marked.change (hfields.filter _) hopen h
        · cases hd
      · cases hd

theorem Marked.trim (h : Marked (.obj d)) (budgetBytes : ℕ) : Marked (.obj (trim budgetBytes d)) := by
  refine repeatStep_induct (P := fun a : Dict => Marked (.obj a)) _ h fun a a' ha hmarked => ?_
  split_ifs at ha
  exact hmarked.shrink ha

theorem marked_truncation (budgetBytes considered returned : ℕ) (omitted : ℤ) :
    Marked (truncation budgetBytes considered returned omitted) := by
  have hkeys : ∀ key ∈ ["truncated", "budget_bytes", "items_considered", "items_returned",
      "historical_items_omitted"], hidden key = false := by decide +kernel
  refine .obj (fun key v hv hkey => ?_) fun key v hv _ => ?_
  · have hmem : key ∈ ["truncated", "budget_bytes", "items_considered", "items_returned",
        "historical_items_omitted"] := List.mem_map_of_mem (f := Prod.fst) hv
    rw [hkeys key hmem] at hkey
    cases hkey
  · simp only [List.mem_cons, Prod.mk.injEq, List.not_mem_nil, or_false] at hv
    rcases hv with ⟨_, rfl⟩ | ⟨_, rfl⟩ | ⟨_, rfl⟩ | ⟨_, rfl⟩ | ⟨_, rfl⟩
    · exact .bool true
    all_goals exact .num _

/-- The platform whose redaction is that of the repository. -/
def redacting (intOfText : String → Option ℤ) : Platform := ⟨redactFields, intOfText⟩

/-- The hidden fields of a payload that has been trimmed are marks. -/
theorem boundedPayload_marked {intOfText : String → Option ℤ} {payload trimmed : Dict} {room : ℕ}
    (htrimmed : boundedPayload (redacting intOfText) payload room = .ok trimmed) :
    Marked (.obj trimmed) := by
  have hkey : hidden "truncation" = false := by decide +kernel
  have h : Marked (.obj (redactFields payload)) := redactOutput_marked (.obj payload)
  have hensures : Ensures (boundedPayload (redacting intOfText) payload room)
      fun trimmed => Marked (.obj trimmed) := by
    refine Ensures.ite (fun _ => Ensures.pure h) fun _ => ?_
    refine Ensures.bind (P := fun _ => True) (fun _ _ => trivial) fun omitted _ => Ensures.pure ?_
    exact ((h.put hkey (marked_truncation _ _ _ _)).trim _).put hkey (marked_truncation _ _ _ _)
  exact hensures trimmed htrimmed

end Trimming

section Envelopes

variable {budgetBytes : ℕ} {value e r : ToolEnvelope} {keys : List String}
  {expansionRoute : Option String} {intOfText : String → Option ℤ}

/-- Nothing in the data of the response is left to be redacted. -/
def Redacted (intOfText : String → Option ℤ) (budgetBytes : ℕ) (value : ToolEnvelope)
    (keys : List String) (expansionRoute : Option String) : Prop :=
  ∀ r, boundedEnvelope (redacting intOfText) budgetBytes value keys expansionRoute = .ok r →
    redactFields r.data = r.data

/-- No text that the trimming shows, whole or cut, in a field that is not essential is redacted
again. -/
def TextsStay (trimmed essential : Dict) : Prop :=
  ∀ e ∈ trimmed, e.1 ∉ essential.map Prod.fst → hidden e.1 = false →
    ∀ s, Shows s e.2 → redactOutputText s = s

/-- What is copied into an envelope that is too large has nothing to be redacted: the essential
fields next to a payload that fits or alone, else the coverage that names them, with the identity
and what is ready where the names are too large too. -/
structure CopiesRedacted (budgetBytes : ℕ) (value : ToolEnvelope) (keys : List String)
    (expansionRoute : Option String) (trimmed : Dict) : Prop where
  payload : TrimmedFits budgetBytes value keys trimmed →
    TextsStay trimmed (essentialData budgetBytes value keys)
  essential : TrimmedFits budgetBytes value keys trimmed ∨
    (essentialEnvelope budgetBytes value keys).Fits budgetBytes →
      ∀ e ∈ essentialData budgetBytes value keys, FixedField e
  names : ¬TrimmedFits budgetBytes value keys trimmed →
    ¬(essentialEnvelope budgetBytes value keys).Fits budgetBytes →
      ∀ coverage, Dict.get (essentialData budgetBytes value keys) "response_coverage" =
          some (.obj coverage) →
        (∀ e ∈ namingCoverage (essentialData budgetBytes value keys) expansionRoute coverage,
          FixedField e) ∧
        (¬(namingEnvelope budgetBytes value keys expansionRoute coverage).Fits budgetBytes →
          ∀ e ∈ (lastData value .null).tail, FixedField e)

theorem fixedField_shows {e : String × Json} (h : hidden e.1 = true → e.2 = redactedMark)
    (hmarked : hidden e.1 = false → Marked e.2) :
    FixedField e ↔ (hidden e.1 = false → ∀ s, Shows s e.2 → redactOutputText s = s) := by
  rw [FixedField]
  cases hkey : hidden e.1 with
  | true => exact iff_of_true (h hkey).symm nofun
  | false => exact (hmarked hkey).fixed_iff.trans (true_imp_iff.symm.trans (by simp))

/-- A trimmed payload with the essential fields has nothing to be redacted if and only if its own
texts and these fields have not. -/
theorem merged_fixed {trimmed : Dict} (hmarked : Marked (.obj trimmed)) :
    (∀ e ∈ merge trimmed (essentialData budgetBytes value keys), FixedField e) ↔
      TextsStay trimmed (essentialData budgetBytes value keys) ∧
        ∀ e ∈ essentialData budgetBytes value keys, FixedField e := by
  have hsame : ∀ key v, (key, v) ∈ essentialData budgetBytes value keys →
      ∀ w, (key, w) ∈ essentialData budgetBytes value keys → w = v :=
    fun key v hv => essentialData_same hv
  have hfield : ∀ e ∈ trimmed, FixedField e ↔
      (hidden e.1 = false → ∀ s, Shows s e.2 → redactOutputText s = s) := by
    intro e he
    cases hmarked with
    | obj hmark hmarked => exact fixedField_shows (hmark e.1 e.2 he) (hmarked e.1 e.2 he)
  simp only [mem_merge hsame, or_imp, forall_and, and_imp, TextsStay]
  refine and_congr_left fun _ => forall₂_congr fun e he => forall_congr' fun _ => hfield e he

theorem coverage_fixed {coverage rest : Dict} :
    (∀ e ∈ ("response_coverage", .obj coverage) :: rest, FixedField e) ↔
      (∀ e ∈ coverage, FixedField e) ∧ ∀ e ∈ rest, FixedField e := by
  have hkey : hidden "response_coverage" = false := by decide +kernel
  rw [List.forall_mem_cons, FixedField, hkey, if_neg Bool.false_ne_true, redactOutput,
    Json.obj.injEq, redactFields_fixed]

theorem last_fixed {coverage : Dict} : redactFields (lastEnvelope budgetBytes value
    (namingEnvelope budgetBytes value keys expansionRoute coverage)).data = (lastEnvelope budgetBytes
      value (namingEnvelope budgetBytes value keys expansionRoute coverage)).data ↔
    (∀ e ∈ namingCoverage (essentialData budgetBytes value keys) expansionRoute coverage,
      FixedField e) ∧
    (¬(namingEnvelope budgetBytes value keys expansionRoute coverage).Fits budgetBytes →
      ∀ e ∈ (lastData value .null).tail, FixedField e) := by
  rw [redactFields_fixed, lastEnvelope_same.1, lastResort]
  split_ifs with hnames
  · refine coverage_fixed.trans (and_congr_right fun _ => ?_)
    exact iff_of_true (List.forall_mem_nil _) fun hnot => absurd hnames hnot
  · refine coverage_fixed.trans (and_congr_right fun _ => ?_)
    exact ⟨fun h _ => h, fun h => h hnames⟩

/-- The data of an exit has nothing to be redacted if and only if what it copies has not. -/
theorem exit_fixed {trimmed : Dict} (hmarked : Marked (.obj trimmed)) :
    (∀ r, Exit budgetBytes value keys expansionRoute trimmed r → redactFields r.data = r.data) ↔
      CopiesRedacted budgetBytes value keys expansionRoute trimmed := by
  constructor
  · intro h
    have hpayload (hfits : TrimmedFits budgetBytes value keys trimmed) :=
      (merged_fixed hmarked).mp (redactFields_fixed.mp (h _ (.trimmed hfits)))
    refine ⟨fun hfits => (hpayload hfits).1, ?_, fun hlarge hessential coverage hcoverage => ?_⟩
    · by_cases hfits : TrimmedFits budgetBytes value keys trimmed
      · exact fun _ => (hpayload hfits).2
      · exact fun hor => redactFields_fixed.mp (h _ (.essential hfits (hor.resolve_left hfits)))
    · exact last_fixed.mp (h _ (.naming coverage hlarge hessential hcoverage))
  · intro h r hexit
    cases hexit with
    | trimmed hfits =>
      exact redactFields_fixed.mpr
        ((merged_fixed hmarked).mpr ⟨h.payload hfits, h.essential (.inl hfits)⟩)
    | essential _ hfits => exact redactFields_fixed.mpr (h.essential (.inr hfits))
    | naming coverage hlarge hessential hcoverage =>
      exact last_fixed.mpr (h.names hlarge hessential coverage hcoverage)

/-- The response has nothing left to redact if and only if the data has nothing where the envelope
fits as it is, and else what the exit that is taken copies has nothing. -/
theorem redacted_iff_copies (intOfText : String → Option ℤ) (budgetBytes : ℕ)
    (value : ToolEnvelope) (keys : List String) (expansionRoute : Option String) :
    Redacted intOfText budgetBytes value keys expansionRoute ↔
      (value.Fits budgetBytes → ∀ e ∈ value.data, FixedField e) ∧
      (¬value.Fits budgetBytes → ∀ trimmed,
        boundedPayload (redacting intOfText) (payloadData budgetBytes value keys)
            (payloadRoom (redacting intOfText) budgetBytes value keys) = .ok trimmed →
          CopiesRedacted budgetBytes value keys expansionRoute trimmed) := by
  simp only [Redacted, boundedEnvelope_ok_iff]
  by_cases hvalue : value.Fits budgetBytes
  · simp only [hvalue, true_and, not_true_eq_false, false_and, or_false, forall_eq,
      redactFields_fixed, true_imp_iff, false_imp_iff, and_true]
  · simp only [hvalue, false_and, false_or, not_false_eq_true, true_and, false_imp_iff,
      true_imp_iff, forall_exists_index, and_imp]
    rw [forall_comm]
    refine forall_congr' fun trimmed => ?_
    rw [forall_comm]
    exact forall_congr' fun htrimmed => exit_fixed (boundedPayload_marked htrimmed)

def tokenEnvelope : ToolEnvelope where
  tool := "overview"
  status := .ok
  project := .null
  data := [("detail", .str "token=abc")]
  warnings := []
  cursor := .null

/-- A secret in a small answer is not redacted. -/
theorem small_answer_is_not_redacted : ¬ ∀ (intOfText : String → Option ℤ) (budgetBytes : ℕ)
    (value : ToolEnvelope) (keys : List String) (expansionRoute : Option String),
      Redacted intOfText budgetBytes value keys expansionRoute := by
  intro hclaim
  have hfits : tokenEnvelope.Fits 4096 := by decide +kernel
  have hsame := hclaim (fun _ => none) 4096 tokenEnvelope [] none tokenEnvelope
    (boundedEnvelope_ok_iff.mpr (.inl ⟨hfits, rfl⟩))
  revert hsame
  decide +kernel

end Envelopes

end ProjectControl.Reads
