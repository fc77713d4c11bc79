import Mathlib
import ProjectControl.ExportRedaction
import ProjectControl.JsonPlaces
import ProjectControl.SortedKeys
import ProjectControl.WholeMatches

/-! `mask_payload`: the payload of a packet with the values of private keys and the bearer tokens
in its texts masked, and the paths of what was masked. -/

set_option autoImplicit false

namespace ProjectControl.Packets

open Export Processes Substitution JsonPlaces JsonText

section Tokens

/-- `[A-Za-z0-9._~+/=-]` with `re.IGNORECASE`. -/
def isCredentialChar (c : Char) : Bool := isTokenChar c || c = '='

theorem credentialChar_not_space {c : Char} (h : isCredentialChar c = true) :
    isSpace c = false := by
  rcases (Bool.or_eq_true _ _).mp h with htoken | heq
  · exact token_not_space htoken
  · rw [of_decide_eq_true heq]
    rfl

/-- `_BEARER`. The value is the token after the blanks. -/
def bearerToken : Shape where
  labels := [letters ['b', 'e', 'a', 'r', 'e', 'r']]
  Separates := bearer.Separates
  starts := isCredentialChar
  separator := bearer.separator
  value text := text.takeWhile isCredentialChar
  separator_some := bearer.separator_some
  separator_of := by
    intro sep v rest hsep hv
    have hspace := credentialChar_not_space hv
    have hne : sep ≠ [] := hsep.1
    simp only [bearer, takeWhile_spaces hsep.2 hspace, dropWhile_spaces hsep.2 hspace, if_neg hne]
  value_prefix := fun _ => List.takeWhile_prefix _
  value_start := by
    intro text
    cases text with
    | nil => simp
    | cons c text => by_cases hc : isCredentialChar c = true <;> simp [hc]

variable (u : Unicode)

def maskedBearer : List Char :=
  ['B', 'e', 'a', 'r', 'e', 'r', ' ', '[', 'm', 'a', 's', 'k', 'e', 'd', ']']

/-- `_BEARER.sub('Bearer [masked]', value)`. -/
def maskText (s : String) : String :=
  String.ofList (rewrite (bearerToken.pattern u) maskedBearer s.toList)

/-- `_BEARER` matches somewhere in the text. -/
def Matches (s : String) : Prop :=
  ∃ before after, s.toList = before ++ after ∧ bearerToken.find u before.getLast? after ≠ none

end Tokens

section Settling

variable {u : Unicode} {prev : Option Char} {kept text rest : List Char} {v : Char}

/-- The parts of what stands before a token. -/
theorem bearerToken_lead (h : bearerToken.lead u prev kept v) : isCredentialChar v = true ∧
    ∃ b name sep, kept = b :: (name ++ sep) ∧ folds 'b' b = true ∧
      List.Forall₂ (fun k c => k c = true) (letters ['e', 'a', 'r', 'e', 'r']) name ∧
      sep ≠ [] ∧ ∀ c ∈ sep, isSpace c = true := by
  obtain ⟨-, hv, label, hlabel, name, sep, rfl, hname, hsep⟩ := h
  obtain rfl := List.mem_singleton.mp hlabel
  cases hname with
  | cons hb hname => exact ⟨hv, _, _, sep, rfl, hb, hname, hsep.1, hsep.2⟩

/-- After its first letter a label has no `B`. -/
theorem name_plain {name : List Char} (h : List.Forall₂ (fun k c => k c = true)
    (letters ['e', 'a', 'r', 'e', 'r']) name) : 'B' ∉ name := by
  intro hmem
  have hnot : ∀ k ∈ letters ['e', 'a', 'r', 'e', 'r'], k 'B' = false := by decide
  obtain ⟨i, hi, hB⟩ := List.mem_iff_getElem.mp hmem
  have hlength := h.length_eq
  have hk := h.get (by omega : i < _) hi
  have hfalse := hnot _ (List.getElem_mem (by omega : i < _))
  simp only [List.get_eq_getElem, hB] at hk
  rw [hfalse] at hk
  cases hk

theorem begins_credential {d : Char} (h : Begins (bearerToken.pattern u) d) :
    isCredentialChar d = true := by
  obtain ⟨prev, text, hit, hfind⟩ := h
  obtain ⟨v, value, rest, -, htext, hlead⟩ := (bearerToken.pattern u).found hfind
  obtain ⟨-, b, name, sep, hkept, hb, -⟩ := bearerToken_lead hlead
  rw [hkept, List.cons_append, List.cons_append] at htext
  obtain ⟨rfl, -⟩ := List.cons.inj htext
  have htoken : isTokenChar d = true := folds_token (by decide) hb
  rw [isCredentialChar, htoken, Bool.true_or]

theorem bearerToken_settles (u : Unicode) :
    Settles (bearerToken.pattern u) maskedBearer 'B' ']' where
  head := rfl
  getLast := rfl
  inside := by
    intro prev xs ys rest kept v hsplit hys hpre hlead
    obtain ⟨hv, b, name, sep, rfl, hb, hname, hsep, hspace⟩ := bearerToken_lead hlead
    cases xs with
    | nil =>
      -- the label is that of the mark, and no token follows it
      have hys : ys = maskedBearer := hsplit.symm
      have hlength : name.length = 5 := hname.length_eq.symm
      obtain ⟨tail, htail⟩ := hpre
      rw [hys, List.cons_append, List.cons_append, List.append_assoc, List.append_assoc] at htail
      have hname' : name ++ (sep ++ ([v] ++ tail)) =
          ['e', 'a', 'r', 'e', 'r'] ++ ([' ', '[', 'm', 'a', 's', 'k', 'e', 'd', ']'] ++ rest) :=
        (List.cons.inj htail).2
      have hdrop := (List.append_inj hname' hlength).2
      obtain ⟨s, sep, rfl⟩ := List.exists_cons_of_ne_nil hsep
      obtain ⟨-, hdrop⟩ := List.cons.inj hdrop
      cases sep with
      | nil =>
        obtain ⟨rfl, -⟩ := List.cons.inj hdrop
        exact absurd hv (by decide)
      | cons c sep =>
        obtain ⟨rfl, -⟩ := List.cons.inj hdrop
        exact absurd (hspace '[' (by simp)) (by decide)
    | cons x xs =>
      -- no other letter of the mark is a `b`
      have hnot : maskedBearer.tail.all (fun c => !folds 'b' c) = true := by decide +kernel
      obtain ⟨y, ys, rfl⟩ := List.exists_cons_of_ne_nil hys
      rw [List.cons_append, List.cons_append] at hpre
      obtain rfl := (List.cons_prefix_cons.mp hpre).1
      have hmem : b ∈ maskedBearer.tail := by
        rw [hsplit, List.cons_append, List.tail_cons]
        exact List.mem_append_right xs List.mem_cons_self
      have hfalse := List.all_eq_true.mp hnot b hmem
      rw [hb] at hfalse
      cases hfalse
  crosses := by
    intro prev kept v before after d hlead hne hsplit hd
    obtain ⟨hv, b, name, sep, hkept, hb, hname, hsep, hspace⟩ := bearerToken_lead hlead
    obtain ⟨x, before, rfl⟩ := List.exists_cons_of_ne_nil hne
    have hB : 'B' ∉ name ++ sep := by
      intro hmem
      rcases List.mem_append.mp hmem with hmem | hmem
      · exact name_plain hname hmem
      · exact absurd (hspace 'B' hmem) (by decide)
    rw [hkept, List.cons_append, List.cons_append] at hsplit
    obtain ⟨rfl, htail⟩ := List.cons.inj hsplit
    -- the mark can only take the place of the token
    have hpre : name ++ sep <+: before := prefix_of_notMem ⟨[v], htail⟩ hB
    have hlength := congrArg List.length htail
    simp only [List.length_append, List.length_cons, List.length_nil] at hlength
    have hbefore : name ++ sep = before := hpre.eq_of_length_le (by simp; omega)
    refine ⟨kept, d, by rw [hkept, hbefore], ?_, begins_credential hd, hlead.2.2⟩
    have hboundary := hlead.1
    rw [hkept] at hboundary ⊢
    exact hboundary

/-- What follows a match begins with no letter of a token. -/
theorem bearerToken_next {hit : Hit Char} (h : bearerToken.find u prev text = some hit)
    (htext : text = hit.kept ++ hit.value ++ rest) (before before' : Option Char) :
    Follows (bearerToken.pattern u) before before' rest := by
  intro kept v hpre hlead
  obtain ⟨-, b, name, sep, rfl, hb, -⟩ := bearerToken_lead hlead
  obtain ⟨tail, htail⟩ := hpre
  have hvalue := find_value h htext
  rw [← htail, List.cons_append, List.cons_append] at hvalue
  have hnot : isCredentialChar b = false := head_takeWhile hvalue
  have htoken : isTokenChar b = true := folds_token (by decide) hb
  rw [isCredentialChar, htoken, Bool.true_or] at hnot
  cases hnot

/-- A masked text has no bearer token. -/
theorem clean_maskText (u : Unicode) (s : String) :
    Clean (bearerToken.pattern u) none (maskText u s).toList := by
  rw [maskText, String.toList_ofList]
  apply clean_rewriteFrom (bearerToken_settles u)
  exact fun prev text hit rest h htext => bearerToken_next h htext _ _

theorem maskText_of_clean {s : String} (h : Clean (bearerToken.pattern u) none s.toList) :
    maskText u s = s := by
  rw [maskText, rewrite, rewriteFrom_clean h, String.ofList_toList]

theorem maskText_maskText (u : Unicode) (s : String) :
    maskText u (maskText u s) = maskText u s := maskText_of_clean (clean_maskText u s)

/-- No token is found where no label begins. -/
theorem clean_of_plain (h : text.all (fun c => !folds 'b' c) = true) (prev : Option Char) :
    Clean (bearerToken.pattern u) prev text := by
  induction text generalizing prev with
  | nil => trivial
  | cons c text ih =>
    rw [List.all_cons, Bool.and_eq_true] at h
    refine ⟨find_eq_none fun kept v hpre hlead => ?_, ih h.2 (some c)⟩
    obtain ⟨-, b, name, sep, rfl, hb, -⟩ := bearerToken_lead hlead
    obtain rfl := (List.cons_prefix_cons.mp hpre).1
    rw [hb] at h
    cases h.1

theorem not_matches_of_clean {s : String} (h : Clean (bearerToken.pattern u) none s.toList) :
    ¬ Matches u s := by
  rintro ⟨before, after, hsplit, hfind⟩
  rw [hsplit] at h
  have hafter := h.append_right
  have hlast : lastOf none before = before.getLast? := by rw [lastOf, Option.or_none]
  rw [hlast] at hafter
  cases after with
  | nil => exact hfind (by simp [Shape.find, Shape.findLabel, bearerToken, letters, matchAll])
  | cons c after => exact hfind hafter.1

end Settling

section Payload

def privateKeys : List String :=
  ["password", "secret", "access_token", "refresh_token", "api_key", "authorization",
    "credential", "credentials", "workflow_handle", "capability", "bearer", "hidden_reasoning",
    "chain_of_thought", "private_context"]

/-- `lower()`, as far as it makes ASCII letters: of the other characters only the Kelvin sign
has one. -/
def lowerChar (c : Char) : Char := if c.toNat = 0x212a then 'k' else c.toLower

def isPrivate (key : String) : Bool :=
  String.ofList (key.toList.map fun c => if lowerChar c = '-' then '_' else lowerChar c)
    ∈ privateKeys

structure MaskOmission where
  path : String
  reason : String
  deriving DecidableEq

def policyMasked (path : String) : MaskOmission := ⟨path, "policy_masked"⟩

def masked : Json := .str "[masked]"

variable (u : Unicode)

mutual

def maskPayload : Json → String → Json × List MaskOmission
  | .obj fields, path =>
    let cleaned := maskFields fields path
    (.obj cleaned.1, cleaned.2)
  | .arr items, path =>
    let cleaned := maskItems 0 items path
    (.arr cleaned.1, cleaned.2)
  | .str s, path => (.str (maskText u s), if maskText u s ≠ s then [policyMasked path] else [])
  | .null, _ => (.null, [])
  | .bool b, _ => (.bool b, [])
  | .num n, _ => (.num n, [])

def maskFields : List (String × Json) → String → List (String × Json) × List MaskOmission
  | [], _ => ([], [])
  | (key, item) :: fields, path =>
    let rest := maskFields fields path
    if isPrivate key then
      ((key, masked) :: rest.1,
        (if item ≠ masked then [policyMasked (path ++ "/" ++ key)] else []) ++ rest.2)
    else
      let cleaned := maskPayload item (path ++ "/" ++ key)
      ((key, cleaned.1) :: rest.1, cleaned.2 ++ rest.2)

def maskItems : ℕ → List Json → String → List Json × List MaskOmission
  | _, [], _ => ([], [])
  | i, item :: items, path =>
    let cleaned := maskPayload item (path ++ "/" ++ toString i)
    let rest := maskItems (i + 1) items path
    (cleaned.1 :: rest.1, cleaned.2 ++ rest.2)

end

end Payload

section Changes

variable (u : Unicode)

/-- What is made of a value. -/
def maskValue (v : Json) : Json := (maskPayload u v "").1

mutual

/-- The places at which something is masked. -/
def maskChanges : Json → List Place
  | .obj fields => fieldChanges fields
  | .arr items => itemChanges 0 items
  | .str s => if maskText u s ≠ s then [[]] else []
  | .null | .bool _ | .num _ => []

def fieldChanges : List (String × Json) → List Place
  | [] => []
  | (key, item) :: fields =>
    (if isPrivate key then if item ≠ masked then [[.key key]] else []
      else (maskChanges item).map (.key key :: ·)) ++ fieldChanges fields

def itemChanges : ℕ → List Json → List Place
  | _, [] => []
  | i, item :: items => (maskChanges item).map (.index i :: ·) ++ itemChanges (i + 1) items

end

/-- A place as a path has it. -/
def pathText : Place → String
  | [] => ""
  | .key name :: place => "/" ++ name ++ pathText place
  | .index i :: place => "/" ++ toString i ++ pathText place

/-- What is reported for a place inside the value at a path. -/
def report (path : String) (place : Place) : MaskOmission := policyMasked (path ++ pathText place)

theorem map_report_cons (path : String) (step : Step) (name : String) (places : List Place)
    (hstep : ∀ place, pathText (step :: place) = "/" ++ name ++ pathText place) :
    (places.map (step :: ·)).map (report path) = places.map (report (path ++ "/" ++ name)) := by
  rw [List.map_map]
  refine List.map_congr_left fun place _ => ?_
  simp only [Function.comp_apply, report, hstep, String.append_assoc]

mutual

/-- The path decides nothing but how the places are called. -/
theorem maskPayload_eq (v : Json) (path : String) :
    maskPayload u v path = (maskValue u v, (maskChanges u v).map (report path)) := by
  cases v with
  | obj fields =>
    rw [maskValue, maskPayload, maskPayload, maskChanges, maskFields_eq fields path]
  | arr items =>
    rw [maskValue, maskPayload, maskPayload, maskChanges, maskItems_eq 0 items path]
  | str s =>
    rw [maskValue, maskPayload, maskPayload, maskChanges]
    by_cases hs : maskText u s = s
    · simp [hs]
    · simp [hs, report, pathText]
  | _ => rfl

theorem maskFields_eq (fields : List (String × Json)) (path : String) :
    maskFields u fields path = ((maskFields u fields "").1,
      (fieldChanges u fields).map (report path)) := by
  cases fields with
  | nil => rfl
  | cons field fields =>
    obtain ⟨key, item⟩ := field
    simp only [maskFields, fieldChanges]
    rw [maskFields_eq fields path, List.map_append]
    by_cases hkey : isPrivate key = true
    · simp only [if_pos hkey]
      by_cases hitem : item ≠ masked
      · rw [if_pos hitem, if_pos hitem]
        simp [report, pathText, String.append_assoc]
      · rw [if_neg hitem, if_neg hitem, List.map_nil]
    · simp only [if_neg hkey]
      rw [maskPayload_eq item, maskPayload_eq item ("" ++ "/" ++ key),
        map_report_cons path (.key key) key _ fun _ => rfl]

theorem maskItems_eq (i : ℕ) (items : List Json) (path : String) :
    maskItems u i items path = ((maskItems u i items "").1,
      (itemChanges u i items).map (report path)) := by
  cases items with
  | nil => rfl
  | cons item items =>
    simp only [maskItems, itemChanges]
    rw [maskItems_eq (i + 1) items path, List.map_append, maskPayload_eq item,
      maskPayload_eq item ("" ++ "/" ++ toString i),
      map_report_cons path (.index i) (toString i) _ fun _ => rfl]

end

variable {u : Unicode} {v w x : Json} {place : Place} {step : Step} {path : String}

theorem maskValue_str (s : String) : maskValue u (.str s) = .str (maskText u s) := rfl

theorem maskFields_cons (key : String) (item : Json) (fields : List (String × Json)) :
    (maskFields u ((key, item) :: fields) "").1 =
      (key, if isPrivate key then masked else maskValue u item) :: (maskFields u fields "").1 := by
  simp only [maskFields]
  by_cases hkey : isPrivate key = true
  · simp only [if_pos hkey]
  · simp only [if_neg hkey]
    rw [maskPayload_eq]

theorem maskItems_cons (i : ℕ) (item : Json) (items : List Json) :
    (maskItems u i (item :: items) "").1 =
      maskValue u item :: (maskItems u (i + 1) items "").1 := by
  simp only [maskItems]
  rw [maskPayload_eq]

/-- Fields keep their keys and items their positions. -/
theorem maskValue_obj (fields : List (String × Json)) : maskValue u (.obj fields) =
    .obj (fields.map fun e => (e.1, if isPrivate e.1 then masked else maskValue u e.2)) := by
  have hfields : (maskFields u fields "").1 =
      fields.map fun e => (e.1, if isPrivate e.1 then masked else maskValue u e.2) := by
    induction fields with
    | nil => rfl
    | cons e fields ih => rw [maskFields_cons, ih, List.map_cons]
  exact congrArg Json.obj hfields

theorem maskValue_arr (items : List Json) :
    maskValue u (.arr items) = .arr (items.map (maskValue u)) := by
  have hitems (i : ℕ) : (maskItems u i items "").1 = items.map (maskValue u) := by
    induction items generalizing i with
    | nil => rfl
    | cons item items ih => rw [maskItems_cons, ih, List.map_cons]
  exact congrArg Json.arr (hitems 0)

theorem mem_fieldChanges {fields : List (String × Json)} : place ∈ fieldChanges u fields ↔
    ∃ key item, (key, item) ∈ fields ∧
      if isPrivate key then item ≠ masked ∧ place = [.key key]
      else ∃ rest ∈ maskChanges u item, place = .key key :: rest := by
  induction fields with
  | nil => simp [fieldChanges]
  | cons e fields ih =>
    obtain ⟨key, item⟩ := e
    have hhead : place ∈ (if isPrivate key then if item ≠ masked then [[Step.key key]] else []
        else (maskChanges u item).map (.key key :: ·)) ↔
        if isPrivate key then item ≠ masked ∧ place = [.key key]
        else ∃ rest ∈ maskChanges u item, place = .key key :: rest := by
      by_cases hkey : isPrivate key = true
      · by_cases hitem : item = masked <;> simp [hkey, hitem]
      · simp [hkey, eq_comm]
    rw [fieldChanges, List.mem_append, hhead, ih]
    constructor
    · rintro (hfirst | ⟨key', item', hmem, hrest⟩)
      · exact ⟨key, item, List.mem_cons_self, hfirst⟩
      · exact ⟨key', item', List.mem_cons_of_mem _ hmem, hrest⟩
    · rintro ⟨key', item', hmem, hrest⟩
      rcases List.mem_cons.mp hmem with heq | hmem
      · obtain ⟨rfl, rfl⟩ := Prod.mk.inj heq
        exact .inl hrest
      · exact .inr ⟨key', item', hmem, hrest⟩

theorem mem_itemChanges {i : ℕ} {items : List Json} : place ∈ itemChanges u i items ↔
    ∃ n item, items[n]? = some item ∧
      ∃ rest ∈ maskChanges u item, place = .index (i + n) :: rest := by
  induction items generalizing i with
  | nil => simp [itemChanges]
  | cons first items ih =>
    rw [itemChanges, List.mem_append, ih, List.mem_map]
    constructor
    · rintro (⟨rest, hrest, rfl⟩ | ⟨n, item, hitem, rest, hrest, rfl⟩)
      · exact ⟨0, first, rfl, rest, hrest, rfl⟩
      · refine ⟨n + 1, item, hitem, rest, hrest, ?_⟩
        rw [Nat.add_assoc, Nat.add_comm 1 n]
    · rintro ⟨n, item, hitem, rest, hrest, rfl⟩
      cases n with
      | zero =>
        obtain rfl := Option.some.inj hitem
        exact .inl ⟨rest, hrest, rfl⟩
      | succ n =>
        refine .inr ⟨n, item, hitem, rest, hrest, ?_⟩
        rw [Nat.add_assoc, Nat.add_comm 1 n]

mutual

theorem maskChanges_eq_nil (v : Json) : maskChanges u v = [] ↔ maskValue u v = v := by
  cases v with
  | obj fields =>
    rw [maskChanges, maskValue_obj, Json.obj.injEq]
    exact fieldChanges_eq_nil fields
  | arr items =>
    rw [maskChanges, maskValue_arr, Json.arr.injEq]
    exact itemChanges_eq_nil 0 items
  | str s =>
    rw [maskChanges, maskValue_str, Json.str.injEq]
    by_cases hs : maskText u s = s <;> simp [hs]
  | _ => exact iff_of_true rfl rfl

theorem fieldChanges_eq_nil (fields : List (String × Json)) : fieldChanges u fields = [] ↔
    fields.map (fun e => (e.1, if isPrivate e.1 then masked else maskValue u e.2)) = fields := by
  cases fields with
  | nil => exact iff_of_true rfl rfl
  | cons e fields =>
    obtain ⟨key, item⟩ := e
    rw [fieldChanges, List.append_eq_nil_iff, fieldChanges_eq_nil fields, List.map_cons,
      List.cons.injEq]
    by_cases hkey : isPrivate key = true
    · by_cases hitem : item = masked
      · simp [hkey, hitem]
      · simp [hkey, hitem, Ne.symm hitem]
    · simp [hkey, maskChanges_eq_nil item]

theorem itemChanges_eq_nil (i : ℕ) (items : List Json) :
    itemChanges u i items = [] ↔ items.map (maskValue u) = items := by
  cases items with
  | nil => exact iff_of_true rfl rfl
  | cons item items =>
    rw [itemChanges, List.append_eq_nil_iff, itemChanges_eq_nil (i + 1) items, List.map_cons,
      List.cons.injEq, List.map_eq_nil_iff, maskChanges_eq_nil item]

end

mutual

theorem maskValue_maskValue (v : Json) : maskValue u (maskValue u v) = maskValue u v := by
  cases v with
  | obj fields =>
    rw [maskValue_obj, maskValue_obj, maskFields_again fields]
  | arr items =>
    rw [maskValue_arr, maskValue_arr, maskItems_again items]
  | str s => rw [maskValue_str, maskValue_str, maskText_maskText]
  | _ => rfl

theorem maskFields_again (fields : List (String × Json)) :
    (fields.map fun e => (e.1, if isPrivate e.1 then masked else maskValue u e.2)).map
        (fun e => (e.1, if isPrivate e.1 then masked else maskValue u e.2)) =
      fields.map fun e => (e.1, if isPrivate e.1 then masked else maskValue u e.2) := by
  cases fields with
  | nil => rfl
  | cons e fields =>
    rw [List.map_cons, List.map_cons, maskFields_again fields]
    by_cases hkey : isPrivate e.1 = true
    · simp [hkey]
    · simp [hkey, maskValue_maskValue e.2]

theorem maskItems_again (items : List Json) :
    (items.map (maskValue u)).map (maskValue u) = items.map (maskValue u) := by
  cases items with
  | nil => rfl
  | cons item items =>
    rw [List.map_cons, List.map_cons, maskItems_again items, maskValue_maskValue item]

end

section Places

/-- No key on the way is private. -/
def Exposed (place : Place) : Prop := ∀ key, .key key ∈ place → isPrivate key = false

/-- What a value becomes under a step. -/
def maskUnder (u : Unicode) (step : Step) (v : Json) : Json :=
  match step with
  | .key key => if isPrivate key then masked else maskValue u v
  | .index _ => maskValue u v

theorem child?_maskValue (v : Json) (step : Step) :
    child? (maskValue u v) step = (child? v step).map (maskUnder u step) := by
  cases v with
  | obj fields =>
    rw [maskValue_obj]
    cases step with
    | key key =>
      simp only [child?, Dict.get]
      induction fields with
      | nil => rfl
      | cons e fields ih =>
        rw [List.map_cons, List.lookup_cons, List.lookup_cons, ih]
        cases hkey : key == e.1 with
        | true =>
          rw [← beq_iff_eq.mp hkey]
          rfl
        | false => rfl
    | index i => rfl
  | arr items =>
    rw [maskValue_arr]
    cases step with
    | key key => rfl
    | index i =>
      simp only [child?, List.getElem?_map]
      rfl
  | str s => cases step <;> rfl
  | _ => cases step <;> rfl

theorem child?_masked (step : Step) : child? masked step = none := by
  cases step <;> rfl

theorem outline_maskValue (v : Json) : outline (maskValue u v) = outline v := by
  cases v with
  | obj fields =>
    rw [maskValue_obj, outline, outline, List.map_map]
    rfl
  | arr items => rw [maskValue_arr, outline, outline, List.length_map]
  | _ => rfl

theorem Exposed.tail (h : Exposed (step :: place)) : Exposed place :=
  fun key hkey => h key (List.mem_cons_of_mem step hkey)

theorem maskUnder_exposed (h : Exposed (step :: place)) (v : Json) :
    maskUnder u step v = maskValue u v := by
  cases step with
  | key key =>
    have hkey := h key List.mem_cons_self
    simp only [maskUnder, hkey, Bool.false_eq_true, if_false]
  | index i => rfl

theorem at?_maskValue (h : Exposed place) (v : Json) :
    at? (maskValue u v) place = (at? v place).map (maskValue u) := by
  induction place generalizing v with
  | nil => rfl
  | cons step place ih =>
    rw [at?_cons, at?_cons, child?_maskValue]
    cases child? v step with
    | none => rfl
    | some w =>
      rw [Option.map_some, Option.bind_some, Option.bind_some, maskUnder_exposed h, ih h.tail]

/-- What stands in a masked value was exposed, or it is the mark. -/
theorem at?_maskValue_cases (h : at? (maskValue u v) place = some x) :
    (Exposed place ∧ ∃ w, at? v place = some w ∧ x = maskValue u w) ∨ x = masked := by
  induction place generalizing v with
  | nil => exact .inl ⟨fun _ hkey => (nomatch hkey), v, rfl, (Option.some.inj h).symm⟩
  | cons step place ih =>
    rw [at?_cons, child?_maskValue] at h
    cases hchild : child? v step with
    | none => rw [hchild] at h; cases h
    | some w =>
      rw [hchild, Option.map_some, Option.bind_some] at h
      by_cases hstep : maskUnder u step w = maskValue u w ∧ ∀ key, step = .key key →
          isPrivate key = false
      · rw [hstep.1] at h
        refine (ih h).imp_left fun ⟨hexposed, y, hy, hx⟩ => ⟨fun key hkey => ?_, y, ?_, hx⟩
        · rcases List.mem_cons.mp hkey with heq | hkey
          · exact hstep.2 key heq.symm
          · exact hexposed key hkey
        · rw [at?_cons_of_child hchild, hy]
      · -- the step is a private key, and below the mark there is nothing
        have hmark : maskUnder u step w = masked := by
          cases step with
          | key key =>
            cases hkey : isPrivate key with
            | true => simp only [maskUnder, hkey, if_true]
            | false =>
              refine absurd ⟨?_, fun key' heq => ?_⟩ hstep
              · simp only [maskUnder, hkey, Bool.false_eq_true, if_false]
              · rw [← Step.key.inj heq, hkey]
          | index i => exact absurd ⟨rfl, fun key' heq => nomatch heq⟩ hstep
        rw [hmark] at h
        cases place with
        | nil => exact .inr (Option.some.inj h).symm
        | cons step' place =>
          rw [at?_cons_of_none (child?_masked step')] at h
          cases h

/-- Where something is reported, another value stands after than before. -/
theorem changed_of_mem (hv : Distinct v) (h : place ∈ maskChanges u v) :
    ∃ x y, at? v place = some x ∧ at? (maskValue u v) place = some y ∧ x ≠ y := by
  induction place generalizing v with
  | nil =>
    cases v with
    | str s =>
      rw [maskChanges] at h
      by_cases hs : maskText u s = s
      · simp [hs] at h
      · exact ⟨.str s, .str (maskText u s), rfl, rfl, fun heq => hs (Json.str.inj heq).symm⟩
    | obj fields =>
      obtain ⟨key, item, -, hrest⟩ := mem_fieldChanges.mp h
      by_cases hkey : isPrivate key = true <;> simp [hkey] at hrest
    | arr items =>
      obtain ⟨n, item, -, rest, -, heq⟩ := mem_itemChanges.mp h
      cases heq
    | _ => cases h
  | cons step place ih =>
    cases v with
    | obj fields =>
      obtain ⟨key, item, hmem, hrest⟩ := mem_fieldChanges.mp h
      have hchild : child? (.obj fields) (.key key) = some item := get_of_mem hv.1 hmem
      have hitem : Distinct item := distinctFields_iff.mp hv.2 _ hmem
      cases hkey : isPrivate key with
      | true =>
        rw [if_pos hkey] at hrest
        obtain ⟨hne, heq⟩ := hrest
        obtain ⟨rfl, rfl⟩ := List.cons.inj heq
        have hmasked : child? (maskValue u (.obj fields)) (.key key) = some masked := by
          rw [child?_maskValue, hchild, Option.map_some, maskUnder, if_pos hkey]
        exact ⟨item, masked, at?_cons_of_child hchild, at?_cons_of_child hmasked, hne⟩
      | false =>
        rw [if_neg (Bool.eq_false_iff.mp hkey)] at hrest
        obtain ⟨rest, hmemrest, heq⟩ := hrest
        obtain ⟨rfl, rfl⟩ := List.cons.inj heq
        have hmasked : child? (maskValue u (.obj fields)) (.key key) =
            some (maskValue u item) := by
          rw [child?_maskValue, hchild, Option.map_some, maskUnder,
            if_neg (Bool.eq_false_iff.mp hkey)]
        obtain ⟨x, y, hx, hy, hne⟩ := ih hitem hmemrest
        exact ⟨x, y, (at?_cons_of_child hchild).trans hx, (at?_cons_of_child hmasked).trans hy, hne⟩
    | arr items =>
      obtain ⟨n, item, hget, rest, hmemrest, heq⟩ := mem_itemChanges.mp h
      rw [Nat.zero_add] at heq
      obtain ⟨rfl, rfl⟩ := List.cons.inj heq
      have hchild : child? (.arr items) (.index n) = some item := hget
      have hitem : Distinct item := distinctItems_iff.mp hv item (List.mem_of_getElem? hget)
      have hmasked : child? (maskValue u (.arr items)) (.index n) = some (maskValue u item) := by
        rw [child?_maskValue, hchild, Option.map_some, maskUnder]
      obtain ⟨x, y, hx, hy, hne⟩ := ih hitem hmemrest
      exact ⟨x, y, (at?_cons_of_child hchild).trans hx, (at?_cons_of_child hmasked).trans hy, hne⟩
    | str s =>
      rw [maskChanges] at h
      by_cases hs : maskText u s = s <;> simp [hs] at h
    | _ => cases h

/-- What a step leads to is one of the items or fields. -/
theorem mem_changes_of_child (hchild : child? v step = some w) (hstep : ∀ key, step = .key key →
    isPrivate key = false) (h : place ∈ maskChanges u w) : step :: place ∈ maskChanges u v := by
  cases v with
  | obj fields =>
    cases step with
    | key key =>
      refine mem_fieldChanges.mpr ⟨key, w, mem_of_get hchild, ?_⟩
      rw [if_neg (Bool.eq_false_iff.mp (hstep key rfl))]
      exact ⟨place, h, rfl⟩
    | index i => cases hchild
  | arr items =>
    cases step with
    | key key => cases hchild
    | index i => exact mem_itemChanges.mpr ⟨i, w, hchild, place, h, by rw [Nat.zero_add]⟩
  | _ => cases step <;> cases hchild

/-- Where another value stands after than before, something is reported on the way or inside. -/
theorem mem_changes_of_differ (h : at? v place ≠ at? (maskValue u v) place) :
    ∃ found ∈ maskChanges u v, found <+: place ∨ place <+: found := by
  induction place generalizing v with
  | nil =>
    have hne : maskChanges u v ≠ [] := by
      intro hnil
      exact h (congrArg some ((maskChanges_eq_nil v).mp hnil).symm)
    obtain ⟨found, hfound⟩ := List.exists_mem_of_ne_nil _ hne
    exact ⟨found, hfound, .inr List.nil_prefix⟩
  | cons step place ih =>
    rw [at?_cons, at?_cons, child?_maskValue] at h
    cases hchild : child? v step with
    | none => rw [hchild] at h; exact absurd rfl h
    | some w =>
      rw [hchild, Option.map_some, Option.bind_some, Option.bind_some] at h
      by_cases hstep : ∀ key, step = .key key → isPrivate key = false
      · have hunder : maskUnder u step w = maskValue u w := by
          cases step with
          | key key => simp only [maskUnder, hstep key rfl, Bool.false_eq_true, if_false]
          | index i => rfl
        rw [hunder] at h
        obtain ⟨found, hfound, hcompare⟩ := ih h
        refine ⟨step :: found, mem_changes_of_child hchild hstep hfound, ?_⟩
        exact hcompare.imp (fun hpre => List.cons_prefix_cons.mpr ⟨rfl, hpre⟩)
          fun hpre => List.cons_prefix_cons.mpr ⟨rfl, hpre⟩
      · -- a private key is reported itself
        simp only [not_forall, Bool.not_eq_false] at hstep
        obtain ⟨key, rfl, hkey⟩ := hstep
        have hne : w ≠ masked := by
          rintro rfl
          simp only [maskUnder, if_pos hkey, ne_eq, not_true_eq_false] at h
        cases v with
        | obj fields =>
          refine ⟨[.key key], mem_fieldChanges.mpr ⟨key, w, mem_of_get hchild, ?_⟩, .inl ?_⟩
          · rw [if_pos hkey]
            exact ⟨hne, rfl⟩
          · exact List.cons_prefix_cons.mpr ⟨rfl, List.nil_prefix⟩
        | _ => cases hchild

end Places

section Masking

variable {u : Unicode} {v : Json} {path : String}

/-- The mark of a private key is no bearer token. -/
theorem not_matches_masked (u : Unicode) : ¬ Matches u "[masked]" := by
  apply not_matches_of_clean
  exact clean_of_plain (by decide +kernel) none

/-- What a masked value owes to the value and to what is reported of it. -/
structure Masks (u : Unicode) (v : Json) (path : String) (w : Json)
    (omissions : List MaskOmission) : Prop where
  again : maskPayload u w path = (w, [])
  quiet : omissions = [] ↔ w = v
  shape : ∀ place, Exposed place → (at? w place).map outline = (at? v place).map outline
  keys : ∀ place key x, at? w (place ++ [.key key]) = some x → isPrivate key = true → x = masked
  texts : ∀ place s, at? w place = some (.str s) → ¬ Matches u s
  reports : ∃ places : List Place, omissions = places.map (report path) ∧
    (∀ place ∈ places, ∃ x y, at? v place = some x ∧ at? w place = some y ∧ x ≠ y) ∧
    ∀ place, at? v place ≠ at? w place → ∃ found ∈ places, found <+: place ∨ place <+: found

theorem maskPayload_maskValue (v : Json) (path : String) :
    maskPayload u (maskValue u v) path = (maskValue u v, []) := by
  have hnone : maskChanges u (maskValue u v) = [] :=
    (maskChanges_eq_nil _).mpr (maskValue_maskValue v)
  rw [maskPayload_eq, maskValue_maskValue, hnone, List.map_nil]

theorem shape_maskValue {place : Place} (h : Exposed place) :
    (at? (maskValue u v) place).map outline = (at? v place).map outline := by
  rw [at?_maskValue h, Option.map_map]
  congr 1
  funext w
  exact outline_maskValue w

theorem keys_maskValue {place : Place} {key : String} {x : Json}
    (h : at? (maskValue u v) (place ++ [.key key]) = some x) (hkey : isPrivate key = true) :
    x = masked := by
  rw [at?_append] at h
  obtain ⟨y, hy, hchild⟩ := Option.bind_eq_some_iff.mp h
  rw [at?_cons] at hchild
  rcases at?_maskValue_cases hy with ⟨-, w, -, rfl⟩ | rfl
  · rw [child?_maskValue] at hchild
    cases hw : child? w (.key key) with
    | none => rw [hw] at hchild; cases hchild
    | some z =>
      rw [hw, Option.map_some, Option.bind_some, maskUnder, if_pos hkey] at hchild
      exact (Option.some.inj hchild).symm
  · rw [child?_masked] at hchild
    cases hchild

theorem texts_maskValue {place : Place} {s : String}
    (h : at? (maskValue u v) place = some (.str s)) : ¬ Matches u s := by
  rcases at?_maskValue_cases h with ⟨-, w, -, hw⟩ | hmark
  · cases w with
    | str t =>
      obtain rfl := Json.str.inj hw
      exact not_matches_of_clean (clean_maskText u t)
    | obj fields => rw [maskValue_obj] at hw; cases hw
    | arr items => rw [maskValue_arr] at hw; cases hw
    | _ => cases hw
  · obtain rfl := Json.str.inj hmark
    exact not_matches_masked u

/-- A masked payload is masked for all: it keeps its shape outside the masked values, has no
private key with another value than the mark and no bearer token, and what is reported is exactly
where it was changed. -/
theorem payload_masked (u : Unicode) (path : String) (hv : Distinct v) :
    Masks u v path (maskPayload u v path).1 (maskPayload u v path).2 := by
  rw [maskPayload_eq]
  refine ⟨maskPayload_maskValue v path, ?_, fun place => shape_maskValue,
    fun place key x => keys_maskValue, fun place s => texts_maskValue,
    maskChanges u v, rfl, fun place => changed_of_mem hv, fun place => mem_changes_of_differ⟩
  rw [List.map_eq_nil_iff]
  exact maskChanges_eq_nil v

def credentialPayload : Json :=
  .obj [("api-Key", .str "abc"), ("log", .arr [.str "BEARER\t x1/=, ok", .num 1])]

theorem credential_payload_masked :
    Masks asciiWords credentialPayload "" (maskPayload asciiWords credentialPayload "").1
      (maskPayload asciiWords credentialPayload "").2 :=
  payload_masked asciiWords "" ⟨by decide, trivial, ⟨trivial, trivial, trivial⟩, trivial⟩

example : maskPayload asciiWords credentialPayload "" =
    (.obj [("api-Key", masked), ("log", .arr [.str "Bearer [masked], ok", .num 1])],
      [policyMasked "/api-Key", policyMasked "/log/0"]) := by
  decide +kernel

end Masking

end Changes

end ProjectControl.Packets
