import Mathlib
import ProjectControl.ExportText
import ProjectControl.JsonText

/-! The redaction of the values of the legacy export: keys that may hold secrets are dropped,
texts are redacted, and documents inside texts are only looked at once. -/

set_option autoImplicit false

namespace ProjectControl.Export

open Words

section Keys

/-- The lower case of a character. Beyond ASCII only two have a letter of `[a-z]` in theirs. -/
def lowered (c : Char) : List Char :=
  if c.toNat = 0x130 then ['i', Char.ofNat 0x307]
  else if c.toNat = 0x212a then ['k']
  else [c.toLower]

def isKeyChar (c : Char) : Bool := c.isLower || c.isDigit

/-- The key in lower case, with one underscore for each run of other characters inside it. -/
def normalized (key : String) : List Char :=
  ((words (fun c => !isKeyChar c) (key.toList.flatMap lowered)).intersperse ['_']).flatten

/-- `SENSITIVE_COLUMN_NAMES`. -/
def sensitiveColumnNames : List String :=
  ["token_hash", "token_digest", "bearer_token", "session_token", "claim_token",
    "claim_token_hash", "child_token", "worker_token", "approval_token", "approval_token_hash",
    "recovery_approval", "recovery_token", "password", "password_hash", "passwd", "passwd_hash",
    "secret", "credential", "credential_hash", "lease_hash", "lease_token_hash",
    "capability_token", "capability_token_hash", "authorization", "authorization_token",
    "api_key", "api_key_hash", "access_key", "private_key", "auth_header", "gpu_identifier",
    "model_endpoint", "packet", "packet_body", "child_packet", "raw_packet", "log", "logs",
    "raw_log", "raw_logs", "transcript", "transcripts", "stdout", "stderr", "traceback",
    "capability_lineage", "child_lineage"]

/-- `SENSITIVE_COLUMN_PARTS` and `token`. -/
def sensitiveParts : List (List Char) :=
  [['p', 'a', 's', 's', 'w', 'o', 'r', 'd'], ['p', 'a', 's', 's', 'w', 'd'],
    ['s', 'e', 'c', 'r', 'e', 't'], ['c', 'r', 'e', 'd', 'e', 'n', 't', 'i', 'a', 'l'],
    ['b', 'e', 'a', 'r', 'e', 'r', '_', 't', 'o', 'k', 'e', 'n'], ['t', 'o', 'k', 'e', 'n']]

/-- `_sensitive_key`. -/
def sensitiveKey (key : String) : Bool :=
  let name := normalized key
  String.ofList name ∈ sensitiveColumnNames || sensitiveParts.any (fun part => part <:+: name) ||
    (['l', 'e', 'a', 's', 'e'] <:+: name && ['h', 'a', 's', 'h'] <:+: name)

end Keys

section Values

variable (u : Unicode) (loads : String → Option Json)

mutual

/-- A value with other texts, and without the fields that may hold secrets. -/
def mapText (f : String → Json) : Json → Json
  | .str s => f s
  | .arr items => .arr (mapItems f items)
  | .obj fields => .obj (mapFields f fields)
  | .null => .null
  | .bool b => .bool b
  | .num n => .num n

def mapItems (f : String → Json) : List Json → List Json
  | [] => []
  | item :: items => mapText f item :: mapItems f items

def mapFields (f : String → Json) : List (String × Json) → List (String × Json)
  | [] => []
  | (key, v) :: fields =>
    if sensitiveKey key then mapFields f fields else (key, mapText f v) :: mapFields f fields

end

mutual

/-- `_sanitize_json`: the value, and whether it was changed. -/
def sanitizeJson : Json → Json × Bool
  | .str s => (.str (sanitizeText u s), sanitizeText u s ≠ s)
  | .arr items => ((.arr (sanitizeItems items).1), (sanitizeItems items).2)
  | .obj fields => ((.obj (sanitizeFields fields).1), (sanitizeFields fields).2)
  | .null => (.null, false)
  | .bool b => (.bool b, false)
  | .num n => (.num n, false)

def sanitizeItems : List Json → List Json × Bool
  | [] => ([], false)
  | item :: items =>
    ((sanitizeJson item).1 :: (sanitizeItems items).1,
      (sanitizeJson item).2 || (sanitizeItems items).2)

def sanitizeFields : List (String × Json) → List (String × Json) × Bool
  | [] => ([], false)
  | (key, v) :: fields =>
    if sensitiveKey key then ((sanitizeFields fields).1, true)
    else ((key, (sanitizeJson v).1) :: (sanitizeFields fields).1,
      (sanitizeJson v).2 || (sanitizeFields fields).2)

end

/-- The document in a text that starts like an object or an array. -/
def opened (text : String) : Option Json :=
  match (text.toList.dropWhile Processes.isSpace).head? with
  | some '{' | some '[' => loads text
  | _ => none

/-- The branch of `_sanitize_history_value` for a text. -/
def historyText (s : String) : Json :=
  match opened loads (sanitizeText u s) with
  | some parsed => if (sanitizeJson u parsed).2 then (sanitizeJson u parsed).1 else parsed
  | none => .str (sanitizeText u s)

/-- `_sanitize_history_value`. -/
def sanitizeHistoryValue (v : Json) : Json := mapText (historyText u loads) v

/-- `_parse_json_payload` of a text. -/
def parseJsonPayload (text : String) : Json :=
  match loads text with
  | some parsed => sanitizeHistoryValue u loads parsed
  | none => .str text

/-- The payload of an event in the history of the export. -/
def historyPayload (text : String) : Json :=
  sanitizeHistoryValue u loads (parseJsonPayload u loads text)

/-- A text of `_portable_row`, in a column of JSON documents or in another one. -/
def portableText (jsonColumn : Bool) (value : String) : String :=
  if jsonColumn then
    match loads value with
    | none => sanitizeText u value
    | some parsed =>
      if (sanitizeJson u parsed).2 then
        String.ofList (JsonText.render ⟨false, false⟩ (sanitizeJson u parsed).1)
      else value
  else sanitizeText u value

end Values

section Texts

variable {u : Unicode} {loads : String → Option Json} {f g : String → Json}

mutual

/-- The texts of a value that are not under a key that may hold secrets. -/
def texts : Json → List String
  | .str s => [s]
  | .arr items => itemTexts items
  | .obj fields => fieldTexts fields
  | .null | .bool _ | .num _ => []

def itemTexts : List Json → List String
  | [] => []
  | item :: items => texts item ++ itemTexts items

def fieldTexts : List (String × Json) → List String
  | [] => []
  | (key, v) :: fields => if sensitiveKey key then fieldTexts fields else texts v ++ fieldTexts fields

end

mutual

/-- Two passes over the texts do what one does exactly if they do on each text. -/
theorem mapText_fixed (v : Json) : mapText g (mapText f v) = mapText f v ↔
    ∀ s ∈ texts v, mapText g (f s) = f s := by
  cases v with
  | null => exact iff_of_true rfl (fun _ h => nomatch h)
  | bool b => exact iff_of_true rfl (fun _ h => nomatch h)
  | num n => exact iff_of_true rfl (fun _ h => nomatch h)
  | str s => rw [mapText, texts, List.forall_mem_singleton]
  | arr items => rw [mapText, mapText, texts, Json.arr.injEq, mapItems_fixed items]
  | obj fields => rw [mapText, mapText, texts, Json.obj.injEq, mapFields_fixed fields]

theorem mapItems_fixed (items : List Json) : mapItems g (mapItems f items) = mapItems f items ↔
    ∀ s ∈ itemTexts items, mapText g (f s) = f s := by
  cases items with
  | nil => exact iff_of_true rfl (fun _ h => nomatch h)
  | cons item items =>
    rw [mapItems, mapItems, itemTexts, List.cons.injEq, mapText_fixed item, mapItems_fixed items,
      List.forall_mem_append]

theorem mapFields_fixed (fields : List (String × Json)) :
    mapFields g (mapFields f fields) = mapFields f fields ↔
      ∀ s ∈ fieldTexts fields, mapText g (f s) = f s := by
  cases fields with
  | nil => exact iff_of_true rfl (fun _ h => nomatch h)
  | cons e fields =>
    obtain ⟨key, v⟩ := e
    rw [mapFields, fieldTexts]
    by_cases hkey : sensitiveKey key = true
    · rw [if_pos hkey, if_pos hkey, mapFields_fixed fields]
    · rw [if_neg hkey, if_neg hkey, mapFields, if_neg hkey, List.cons.injEq, Prod.mk.injEq,
        mapText_fixed v, mapFields_fixed fields, List.forall_mem_append]
      simp

end

/-- A value in which an object still has a key that may hold secrets, at any depth, also in the
documents that its texts are. -/
inductive Exposes (loads : String → Option Json) : Json → Prop
  | key {fields : List (String × Json)} {key : String} {w : Json} (h : (key, w) ∈ fields)
      (hkey : sensitiveKey key = true) : Exposes loads (.obj fields)
  | field {fields : List (String × Json)} {key : String} {w : Json} (h : (key, w) ∈ fields)
      (hw : Exposes loads w) : Exposes loads (.obj fields)
  | item {items : List Json} {w : Json} (h : w ∈ items) (hw : Exposes loads w) :
      Exposes loads (.arr items)
  | text {s : String} {w : Json} (h : loads s = some w) (hw : Exposes loads w) :
      Exposes loads (.str s)

mutual

/-- What the keys of a value hide is gone, and what is left is in its texts. -/
theorem exposes_mapText (v : Json) : Exposes loads (mapText f v) ↔
    ∃ s ∈ texts v, Exposes loads (f s) := by
  cases v with
  | null => exact iff_of_false (fun h => nomatch h) (fun h => nomatch h)
  | bool b => exact iff_of_false (fun h => nomatch h) (fun h => nomatch h)
  | num n => exact iff_of_false (fun h => nomatch h) (fun h => nomatch h)
  | str s => simp [mapText, texts]
  | arr items =>
    rw [mapText, texts, ← exposes_mapItems items]
    constructor
    · intro h
      cases h with
      | item hmem hw => exact ⟨_, hmem, hw⟩
    · rintro ⟨w, hmem, hw⟩
      exact .item hmem hw
  | obj fields =>
    rw [mapText, texts, ← exposes_mapFields fields]
    constructor
    · intro h
      cases h with
      | key hmem hkey => exact ⟨_, hmem, Or.inl hkey⟩
      | field hmem hw => exact ⟨_, hmem, Or.inr hw⟩
    · rintro ⟨e, hmem, hkey | hw⟩
      · exact .key hmem hkey
      · exact .field hmem hw

theorem exposes_mapItems (items : List Json) : (∃ w ∈ mapItems f items, Exposes loads w) ↔
    ∃ s ∈ itemTexts items, Exposes loads (f s) := by
  cases items with
  | nil => exact iff_of_false (fun h => nomatch h) (fun h => nomatch h)
  | cons item items =>
    rw [mapItems, itemTexts, List.exists_mem_cons_iff, exposes_mapText item,
      exposes_mapItems items]
    simp only [List.mem_append, or_and_right, exists_or]

theorem exposes_mapFields (fields : List (String × Json)) :
    (∃ e ∈ mapFields f fields, sensitiveKey e.1 = true ∨ Exposes loads e.2) ↔
      ∃ s ∈ fieldTexts fields, Exposes loads (f s) := by
  cases fields with
  | nil => exact iff_of_false (fun h => nomatch h) (fun h => nomatch h)
  | cons e fields =>
    obtain ⟨key, v⟩ := e
    rw [mapFields, fieldTexts]
    by_cases hkey : sensitiveKey key = true
    · rw [if_pos hkey, if_pos hkey, exposes_mapFields fields]
    · rw [if_neg hkey, if_neg hkey, List.exists_mem_cons_iff, exposes_mapFields fields,
        exposes_mapText v, or_iff_right hkey]
      simp only [List.mem_append, or_and_right, exists_or]

end

mutual

theorem sanitizeJson_fst (v : Json) :
    (sanitizeJson u v).1 = mapText (fun s => .str (sanitizeText u s)) v := by
  cases v with
  | null => rfl
  | bool b => rfl
  | num n => rfl
  | str s => rfl
  | arr items => rw [sanitizeJson, mapText, sanitizeItems_fst items]
  | obj fields => rw [sanitizeJson, mapText, sanitizeFields_fst fields]

theorem sanitizeItems_fst (items : List Json) :
    (sanitizeItems u items).1 = mapItems (fun s => .str (sanitizeText u s)) items := by
  cases items with
  | nil => rfl
  | cons item items => rw [sanitizeItems, mapItems, sanitizeJson_fst item, sanitizeItems_fst items]

theorem sanitizeFields_fst (fields : List (String × Json)) :
    (sanitizeFields u fields).1 = mapFields (fun s => .str (sanitizeText u s)) fields := by
  cases fields with
  | nil => rfl
  | cons e fields =>
    obtain ⟨key, v⟩ := e
    rw [sanitizeFields, mapFields]
    by_cases hkey : sensitiveKey key = true
    · rw [if_pos hkey, if_pos hkey, sanitizeFields_fst fields]
    · rw [if_neg hkey, if_neg hkey, sanitizeJson_fst v, sanitizeFields_fst fields]

end

mutual

/-- A value that is reported as unchanged is. -/
theorem sanitizeJson_unchanged (v : Json) :
    (sanitizeJson u v).2 = false → (sanitizeJson u v).1 = v := by
  cases v with
  | null => exact fun _ => rfl
  | bool b => exact fun _ => rfl
  | num n => exact fun _ => rfl
  | str s =>
    rw [sanitizeJson, decide_eq_false_iff_not, not_not]
    intro h
    rw [h]
  | arr items =>
    rw [sanitizeJson]
    intro h
    rw [sanitizeItems_unchanged items h]
  | obj fields =>
    rw [sanitizeJson]
    intro h
    rw [sanitizeFields_unchanged fields h]

theorem sanitizeItems_unchanged (items : List Json) :
    (sanitizeItems u items).2 = false → (sanitizeItems u items).1 = items := by
  cases items with
  | nil => exact fun _ => rfl
  | cons item items =>
    rw [sanitizeItems, Bool.or_eq_false_iff]
    rintro ⟨hitem, hitems⟩
    rw [sanitizeJson_unchanged item hitem, sanitizeItems_unchanged items hitems]

theorem sanitizeFields_unchanged (fields : List (String × Json)) :
    (sanitizeFields u fields).2 = false → (sanitizeFields u fields).1 = fields := by
  cases fields with
  | nil => exact fun _ => rfl
  | cons e fields =>
    obtain ⟨key, v⟩ := e
    rw [sanitizeFields]
    by_cases hkey : sensitiveKey key = true
    · rw [if_pos hkey]
      exact fun h => nomatch h
    · rw [if_neg hkey, Bool.or_eq_false_iff]
      rintro ⟨hv, hfields⟩
      rw [sanitizeJson_unchanged v hv, sanitizeFields_unchanged fields hfields]

end

end Texts

section Redacted

variable {u : Unicode} {loads : String → Option Json} {v : Json} {s : String}

/-- What the export promises of a value: to sanitize it again changes nothing, and nothing is
exposed. -/
structure Redacted (u : Unicode) (loads : String → Option Json) (v : Json) : Prop where
  jsonOnce : (sanitizeJson u (sanitizeJson u v).1).1 = (sanitizeJson u v).1
  historyOnce : sanitizeHistoryValue u loads (sanitizeHistoryValue u loads v) =
    sanitizeHistoryValue u loads v
  jsonHidden : ¬ Exposes loads (sanitizeJson u v).1
  historyHidden : ¬ Exposes loads (sanitizeHistoryValue u loads v)

/-- A text that the sanitizers deal with in one pass: no credential but bearer tokens is found
in it, no document that it is has a secret, and the texts of a document that the history opens
are such texts too and are not opened again. -/
structure Harmless (u : Unicode) (loads : String → Option Json) (s : String) : Prop where
  unlabelled : Unlabelled u (redactBearer u s)
  hidden : ¬ Exposes loads (.str (redactBearer u s))
  inner : ∀ w, opened loads (redactBearer u s) = some w → ∀ x ∈ texts w,
    Unlabelled u (redactBearer u x) ∧ opened loads (redactBearer u x) = none ∧
      ¬ Exposes loads (.str (redactBearer u x))

/-- A decoder whose documents that start like an object or an array are one. -/
def Containers (loads : String → Option Json) : Prop :=
  ∀ text w, opened loads text = some w → ∀ s, w ≠ .str s

theorem sanitizeText_of_unlabelled (h : Unlabelled u (redactBearer u s)) :
    sanitizeText u s = redactBearer u s := h

theorem historyText_opened {w : Json} (h : opened loads (sanitizeText u s) = some w) :
    historyText u loads s = mapText (fun x => .str (sanitizeText u x)) w := by
  unfold historyText
  rw [h, ← sanitizeJson_fst]
  by_cases hchanged : (sanitizeJson u w).2 = true
  · exact if_pos hchanged
  · have hsame := sanitizeJson_unchanged w (Bool.eq_false_iff.mpr hchanged)
    simp only [if_neg hchanged]
    exact hsame.symm

theorem historyText_plain (h : opened loads (sanitizeText u s) = none) :
    historyText u loads s = .str (sanitizeText u s) := by
  rw [historyText, h]

/-- A text that the history leaves as a text. -/
theorem historyText_eq_str (hloads : Containers loads) {t : String} :
    historyText u loads s = .str t ↔
      sanitizeText u s = t ∧ opened loads (sanitizeText u s) = none := by
  cases hopened : opened loads (sanitizeText u s) with
  | none =>
    rw [historyText_plain hopened, Json.str.injEq]
    exact (and_iff_left rfl).symm
  | some w =>
    rw [historyText_opened hopened]
    have hw := hloads _ w hopened
    constructor
    · intro h
      cases w with
      | str x => exact absurd rfl (hw x)
      | null => cases h
      | bool b => cases h
      | num n => cases h
      | arr items => cases h
      | obj fields => cases h
    · rintro ⟨-, hnone⟩
      cases hnone

/-- A redacted text that the history leaves as it is. -/
theorem historyText_fixed (hloads : Containers loads) :
    historyText u loads (sanitizeText u s) = .str (sanitizeText u s) ↔
      Unlabelled u (redactBearer u s) ∧ opened loads (redactBearer u s) = none := by
  rw [historyText_eq_str hloads, sanitizeText_idempotent_iff]
  constructor
  · rintro ⟨hlabel, hopened⟩
    rw [sanitizeText_idempotent_iff.mpr hlabel, sanitizeText_of_unlabelled hlabel] at hopened
    exact ⟨hlabel, hopened⟩
  · rintro ⟨hlabel, hopened⟩
    rw [sanitizeText_idempotent_iff.mpr hlabel, sanitizeText_of_unlabelled hlabel]
    exact ⟨hlabel, hopened⟩

/-- What one text contributes to the promise of the export. -/
theorem harmless_iff (hloads : Containers loads) : Harmless u loads s ↔
    sanitizeText u (sanitizeText u s) = sanitizeText u s ∧
      mapText (historyText u loads) (historyText u loads s) = historyText u loads s ∧
      ¬ Exposes loads (.str (sanitizeText u s)) ∧ ¬ Exposes loads (historyText u loads s) := by
  rw [sanitizeText_idempotent_iff]
  by_cases hlabel : Unlabelled u (redactBearer u s)
  · have hsame := sanitizeText_of_unlabelled hlabel
    rw [hsame]
    cases hopened : opened loads (redactBearer u s) with
    | none =>
      have hplain : historyText u loads s = .str (redactBearer u s) := by
        rw [historyText_plain (by rwa [hsame]), hsame]
      have hfixed := (historyText_fixed (s := s) hloads).mpr ⟨hlabel, hopened⟩
      rw [hsame] at hfixed
      rw [hplain, mapText]
      constructor
      · exact fun h => ⟨hlabel, hfixed, h.hidden, h.hidden⟩
      · rintro ⟨-, -, hhidden, -⟩
        refine ⟨hlabel, hhidden, fun w hw => ?_⟩
        rw [hopened] at hw
        cases hw
    | some w =>
      have hinner : historyText u loads s = mapText (fun x => .str (sanitizeText u x)) w :=
        historyText_opened (by rwa [hsame])
      rw [hinner, mapText_fixed, exposes_mapText]
      simp only [mapText, historyText_fixed hloads, not_exists, not_and]
      constructor
      · intro h
        refine ⟨hlabel, fun x hx => ?_, h.hidden, fun x hx => ?_⟩
        · exact ⟨(h.inner w hopened x hx).1, (h.inner w hopened x hx).2.1⟩
        · rw [sanitizeText_of_unlabelled (h.inner w hopened x hx).1]
          exact (h.inner w hopened x hx).2.2
      · rintro ⟨-, honce, hhidden, hexposes⟩
        refine ⟨hlabel, hhidden, fun w' hw' x hx => ?_⟩
        obtain rfl : w = w' := Option.some.inj (hopened.symm.trans hw')
        obtain ⟨hxlabel, hxopened⟩ := honce x hx
        have hx' := hexposes x hx
        rw [sanitizeText_of_unlabelled hxlabel] at hx'
        exact ⟨hxlabel, hxopened, hx'⟩
  · exact iff_of_false (fun h => hlabel h.unlabelled) (fun h => hlabel h.1)

/-- The export keeps its promise about a value exactly if it keeps it about each of its texts. -/
theorem redacted_iff (hloads : Containers loads) :
    Redacted u loads v ↔ ∀ s ∈ texts v, Harmless u loads s := by
  have hjson : (sanitizeJson u (sanitizeJson u v).1).1 = (sanitizeJson u v).1 ↔
      ∀ s ∈ texts v, sanitizeText u (sanitizeText u s) = sanitizeText u s := by
    simp only [sanitizeJson_fst, mapText_fixed, mapText, Json.str.injEq]
  have hhidden : ¬ Exposes loads (sanitizeJson u v).1 ↔
      ∀ s ∈ texts v, ¬ Exposes loads (.str (sanitizeText u s)) := by
    rw [sanitizeJson_fst, exposes_mapText]
    simp only [not_exists, not_and]
  have hhistory : ¬ Exposes loads (sanitizeHistoryValue u loads v) ↔
      ∀ s ∈ texts v, ¬ Exposes loads (historyText u loads s) := by
    rw [sanitizeHistoryValue, exposes_mapText]
    simp only [not_exists, not_and]
  have honce : sanitizeHistoryValue u loads (sanitizeHistoryValue u loads v) =
      sanitizeHistoryValue u loads v ↔ ∀ s ∈ texts v,
        mapText (historyText u loads) (historyText u loads s) = historyText u loads s :=
    mapText_fixed v
  simp only [harmless_iff hloads]
  constructor
  · intro h s hs
    exact ⟨hjson.mp h.jsonOnce s hs, honce.mp h.historyOnce s hs, hhidden.mp h.jsonHidden s hs,
      hhistory.mp h.historyHidden s hs⟩
  · intro h
    exact ⟨hjson.mpr (fun s hs => (h s hs).1), honce.mpr (fun s hs => (h s hs).2.1),
      hhidden.mpr (fun s hs => (h s hs).2.2.1), hhistory.mpr (fun s hs => (h s hs).2.2.2)⟩

section Cases

/-- The word characters of ASCII alone. -/
def asciiWords : Unicode := ⟨fun c => c.isAlphanum || c = '_', fun _ _ => rfl⟩

def readText (s : String) : Option Json := JsonText.read s.toList

theorem dropWhile_blank (text : List Char) : text.dropWhile Processes.isSpace =
    (JsonText.skip text).dropWhile Processes.isSpace := by
  induction text with
  | nil => rfl
  | cons c text ih =>
    by_cases hc : JsonText.blank c = true
    · have hspace : Processes.isSpace c = true := by
        simp only [JsonText.blank, Bool.or_eq_true, decide_eq_true_eq] at hc
        rcases hc with ((rfl | rfl) | rfl) | rfl <;> rfl
      rw [JsonText.skip, List.dropWhile_cons_of_pos hspace, List.dropWhile_cons_of_pos hc, ih]
      rfl
    · rw [JsonText.skip, List.dropWhile_cons_of_neg hc]

theorem readText_containers : Containers readText := by
  rintro text w h s rfl
  have hread : readText text = some (.str s) → (text.toList.dropWhile Processes.isSpace).head? =
      some '"' := by
    intro hread
    obtain ⟨tail, htail⟩ := List.head?_eq_some_iff.mp (JsonText.read_str hread)
    rw [dropWhile_blank, htail]
    rfl
  unfold opened at h
  split at h
  · next hbrace =>
    rw [hread h] at hbrace
    cases hbrace
  · next hbracket =>
    rw [hread h] at hbracket
    cases hbracket
  · cases h

/-- A labelled value is redacted once more in the second pass, and a document in a text keeps
its secrets where the text is no labelled value. -/
theorem label_is_redacted_twice :
    ¬ Redacted asciiWords readText (.obj [("note", .str "token=a")]) ∧
      ¬ Redacted asciiWords readText (.obj [("note", .str "\x7b\"secret\":1\x7d")]) := by
  refine ⟨fun h => absurd h.jsonOnce (by decide +kernel), fun h => h.jsonHidden ?_⟩
  have hsame : (sanitizeJson asciiWords (.obj [("note", .str "\x7b\"secret\":1\x7d")])).1 =
      .obj [("note", .str "\x7b\"secret\":1\x7d")] := by decide +kernel
  have hread : readText "\x7b\"secret\":1\x7d" = some (.obj [("secret", .num 1)]) := by decide +kernel
  rw [hsame]
  refine .field List.mem_cons_self (.text hread (.key List.mem_cons_self ?_))
  decide +kernel

theorem bearer_is_redacted :
    Redacted asciiWords readText (.obj [("note", .str "Bearer abc")]) := by
  have htexts : texts (.obj [("note", .str "Bearer abc")]) = ["Bearer abc"] := by decide +kernel
  refine (redacted_iff readText_containers).mpr (fun s hs => ?_)
  rw [htexts] at hs
  obtain rfl := List.mem_singleton.mp hs
  have hnone : readText (redactBearer asciiWords "Bearer abc") = none := by decide +kernel
  have hclosed : opened readText (redactBearer asciiWords "Bearer abc") = none := by
    decide +kernel
  refine ⟨by decide +kernel, fun h => ?_, fun w hw => ?_⟩
  · cases h with
    | text hread hw =>
      rw [hnone] at hread
      cases hread
  · rw [hclosed] at hw
    cases hw

end Cases

end Redacted

end ProjectControl.Export
