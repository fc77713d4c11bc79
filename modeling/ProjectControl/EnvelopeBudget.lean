import Mathlib
import ProjectControl.JsonText

/-! What the read tools answer with, and how an answer is made to fit its budget: `envelope`,
`bounded_payload` and `bounded_envelope`. -/

set_option autoImplicit false

namespace ProjectControl.Reads

open JsonText

section Payload

/-- `redact_output` of an object, and `int` of a text. -/
structure Platform where
  redactOutput : Dict → Dict
  intOfText : String → Option ℤ

/-- A `ValueError`, a `TypeError` or an `AttributeError`. -/
inductive Fault
  | value
  | type
  | attribute
  deriving DecidableEq

/-- The bytes of the canonical text; the order of the fields does not matter for them. -/
def encodedSize (v : Json) : ℕ := bytes (render ⟨true, false⟩ v)

/-- `d[key] = v`. -/
def put (d : Dict) (key : String) (v : Json) : Dict :=
  if d.any (fun e => e.1 = key) then d.map fun e => if e.1 = key then (key, v) else e
  else d ++ [(key, v)]

inductive Step
  | key (name : String)
  | index (i : ℕ)
  deriving DecidableEq

/-- The way from a value to something inside it. -/
abbrev Place := List Step

mutual

/-- Everything inside a value in the order of `collections`; `truncation` is left out. -/
def places : Json → List (Place × Json)
  | .arr items => itemPlaces 0 items
  | .obj fields => fieldPlaces fields
  | _ => []

def itemPlaces (i : ℕ) : List Json → List (Place × Json)
  | [] => []
  | v :: items =>
    ([.index i], v) :: (places v).map (fun e => (.index i :: e.1, e.2)) ++ itemPlaces (i + 1) items

def fieldPlaces : List (String × Json) → List (Place × Json)
  | [] => []
  | (key, v) :: fields =>
    if key = "truncation" then fieldPlaces fields
    else ([.key key], v) :: (places v).map (fun e => (.key key :: e.1, e.2)) ++ fieldPlaces fields

end

def lists (clean : Dict) : List (Place × List Json) :=
  (places (.obj clean)).filterMap fun e =>
    match e.2 with
    | .arr items => some (e.1, items)
    | _ => none

/-- The strings that stand in objects. -/
def strings (clean : Dict) : List (Place × String) :=
  (places (.obj clean)).filterMap fun e =>
    match e.2, e.1.getLast? with
    | .str s, some (.key _) => some (e.1, s)
    | _, _ => none

def dictionaries (clean : Dict) : List (Place × Dict) :=
  (places (.obj clean)).filterMap fun e =>
    match e.2 with
    | .obj fields => some (e.1, fields)
    | _ => none

def itemCount (clean : Dict) : ℕ := ((lists clean).map fun e => e.2.length).sum

def updateAt (f : Json → Json) : Place → Json → Json
  | [], v => f v
  | .key name :: rest, .obj fields =>
    .obj (fields.map fun e => if e.1 = name then (e.1, updateAt f rest e.2) else e)
  | .index i :: rest, .arr items => .arr (items.modify i (updateAt f rest))
  | _ :: _, v => v

def change (clean : Dict) (place : Place) (v : Json) : Dict :=
  match updateAt (fun _ => v) place (.obj clean) with
  | .obj fields => fields
  | _ => clean

def cutText (s : String) (n : ℕ) : String := String.ofList (s.toList.take n) ++ "…"

def keptKeys : List String := ["id", "type", "status", "relevance"]

/-- One round of the loop: the largest list of several items loses its second half, else the
longest long text, else the largest object its last key. -/
def shrink (clean : Dict) : Option Dict :=
  match ((lists clean).filter fun e => 1 < e.2.length).argmax fun e => encodedSize (.arr e.2) with
  | some (place, items) =>
    some (change clean place (.arr (items.take (items.length - max 1 (items.length / 2)))))
  | none =>
    match ((strings clean).filter fun e => 64 < e.2.length).argmax fun e => e.2.length with
    | some (place, s) =>
      some (change clean place (.str (cutText s (max 32 (min (s.length - 2) (s.length / 2))))))
    | none =>
      let candidates := (dictionaries clean).filter fun e =>
        1 < e.2.length && !e.2.any (fun f => f.1 = "truncation")
      match candidates.argmax fun e => encodedSize (.obj e.2) with
      | some (place, fields) =>
        match ((fields.map Prod.fst).filter (· ∉ keptKeys)).argmax id with
        | some key => some (change clean place (.obj (fields.filter fun f => f.1 ≠ key)))
        | none => none
      | none => none

/-- A step is repeated while it has something to do, so many times at most. -/
def repeatStep {α : Type*} (step : α → Option α) : ℕ → α → α
  | 0, a => a
  | n + 1, a =>
    match step a with
    | some a' => repeatStep step n a'
    | none => a

def trim (budgetBytes : ℕ) : Dict → Dict :=
  repeatStep (fun clean => if encodedSize (.obj clean) ≤ budgetBytes then none else shrink clean)
    10000

variable (p : Platform)

/-- `int(value)`. -/
def intOf : Json → Except Fault ℤ
  | .num n => pure n
  | .bool b => pure (if b then 1 else 0)
  | .str s =>
    match p.intOfText s with
    | some n => pure n
    | none => throw .value
  | _ => throw .type

def historicalItemsOmitted (clean : Dict) : Except Fault ℤ :=
  match Dict.get clean "ranking" with
  | some (.obj ranking) =>
    match Dict.get ranking "historical_items_omitted" with
    | some v => intOf p v
    | none => pure 0
  | _ => pure 0

def truncation (budgetBytes considered returned : ℕ) (omitted : ℤ) : Json :=
  .obj [("truncated", .bool true), ("budget_bytes", .num budgetBytes),
    ("items_considered", .num considered), ("items_returned", .num returned),
    ("historical_items_omitted", .num omitted)]

def boundedPayload (value : Dict) (budgetBytes : ℕ) : Except Fault Dict :=
  let clean := p.redactOutput value
  if encodedSize (.obj clean) ≤ budgetBytes then pure clean
  else do
    let considered := itemCount clean
    let omitted ← historicalItemsOmitted p clean
    let trimmed := trim budgetBytes
      (put clean "truncation" (truncation budgetBytes considered considered omitted))
    pure (put trimmed "truncation"
      (truncation budgetBytes considered (itemCount trimmed) omitted))

end Payload

section Envelopes

inductive ToolStatus
  | ok
  | partially
  | unavailable
  | invalidRequest
  | internalError
  deriving DecidableEq

def ToolStatus.value : ToolStatus → String
  | .ok => "ok"
  | .partially => "partial"
  | .unavailable => "unavailable"
  | .invalidRequest => "invalid_request"
  | .internalError => "internal_error"

structure ToolEnvelope where
  tool : String
  status : ToolStatus
  project : Json
  data : Dict
  warnings : List String
  cursor : Json

def ToolEnvelope.dump (e : ToolEnvelope) : Json :=
  .obj [("schema_version", .num 1), ("tool", .str e.tool), ("status", .str e.status.value),
    ("project", e.project), ("data", .obj e.data), ("warnings", .arr (e.warnings.map .str)),
    ("cursor", e.cursor)]

/-- What an envelope has of the snapshot: its compact identity and its warnings. -/
structure SnapshotHead where
  project : Json
  cursor : Json
  warnings : List String

def envelope (tool : String) (snapshot : SnapshotHead) (data : Dict) (warnings : List String) :
    ToolEnvelope :=
  let allWarnings := (snapshot.warnings ++ warnings).eraseDups
  { tool := tool
    status := if allWarnings.isEmpty then .ok else .partially
    project := snapshot.project
    data := data
    warnings := allWarnings
    cursor := snapshot.cursor }

def ToolEnvelope.Fits (budgetBytes : ℕ) (e : ToolEnvelope) : Prop :=
  encodedSize e.dump ≤ budgetBytes

instance (budgetBytes : ℕ) (e : ToolEnvelope) : Decidable (e.Fits budgetBytes) :=
  inferInstanceAs (Decidable (_ ≤ _))

def responseCoverage (budgetBytes : ℕ) : Json :=
  .obj [("budget_bytes", .num budgetBytes),
    ("measurement", .str "canonical_json_utf8_full_envelope"),
    ("expansion_cursor", .str "top_level.cursor"),
    ("stale_cursor_behavior", .str "typed_refresh_required")]

/-- `{**a, **b}`. -/
def merge (a b : Dict) : Dict := b.foldl (fun d e => put d e.1 e.2) a

theorem any_key (d : Dict) (key : String) :
    d.any (fun e => e.1 = key) = (Dict.get d key).isSome := by
  induction d with
  | nil => rfl
  | cons e rest ih =>
    obtain ⟨f, w⟩ := e
    by_cases hf : f = key
    · subst hf
      rw [Dict.get_cons_self, List.any_cons, decide_eq_true rfl, Bool.true_or, Option.isSome_some]
    · rw [Dict.get_cons_of_ne _ _ (Ne.symm hf), List.any_cons, decide_eq_false hf, Bool.false_or, ih]

theorem get_replace (d : Dict) (key k : String) (v : Json) :
    Dict.get (d.map fun e => if e.1 = key then (key, v) else e) k =
      if k = key then (Dict.get d key).map fun _ => v else Dict.get d k := by
  induction d with
  | nil => split_ifs <;> rfl
  | cons e rest ih =>
    obtain ⟨f, w⟩ := e
    rw [List.map_cons]
    by_cases hf : f = key
    · subst hf
      rw [if_pos rfl]
      by_cases hk : k = f
      · subst hk
        rw [if_pos rfl, Dict.get_cons_self, Dict.get_cons_self, Option.map_some]
      · rw [if_neg hk, Dict.get_cons_of_ne _ _ hk, Dict.get_cons_of_ne _ _ hk, ih, if_neg hk]
    · rw [if_neg hf, Dict.get_cons_of_ne _ _ (Ne.symm hf)]
      by_cases hk : k = f
      · subst hk
        rw [Dict.get_cons_self, if_neg hf, Dict.get_cons_self]
      · rw [Dict.get_cons_of_ne _ _ hk, Dict.get_cons_of_ne _ _ hk, ih]

theorem get_append (d d' : Dict) (k : String) :
    Dict.get (d ++ d') k = (Dict.get d k).or (Dict.get d' k) := List.lookup_append

theorem get_put (d : Dict) (key k : String) (v : Json) :
    Dict.get (put d key v) k = if k = key then some v else Dict.get d k := by
  rw [put, any_key]
  cases hd : Dict.get d key with
  | some w => rw [Option.isSome_some, if_pos rfl, get_replace, hd, Option.map_some]
  | none =>
    rw [Option.isSome_none, if_neg Bool.false_ne_true, get_append]
    by_cases hk : k = key
    · subst hk
      rw [hd, if_pos rfl, Dict.get_cons_self, Option.none_or]
    · rw [if_neg hk, Dict.get_cons_of_ne _ _ hk]
      exact Option.or_none

/-- Under a key of the second mapping stands what it has there, where it has one value only. -/
theorem get_merge_of_mem {a b : Dict} {key : String} {v : Json} (hmem : (key, v) ∈ b)
    (hsame : ∀ w, (key, w) ∈ b → w = v) : Dict.get (merge a b) key = some v := by
  induction b using List.reverseRecOn generalizing a with
  | nil => cases hmem
  | append_singleton b e ih =>
    obtain ⟨k, w⟩ := e
    rw [merge, List.foldl_append, List.foldl_cons, List.foldl_nil, get_put]
    by_cases hk : key = k
    · subst hk
      rw [if_pos rfl, hsame w (List.mem_append_right b (List.mem_singleton_self _))]
    · rw [if_neg hk]
      have hb : (key, v) ∈ b := (List.mem_append.mp hmem).resolve_right fun h =>
        hk (Prod.mk.inj (List.mem_singleton.mp h)).1
      exact ih hb fun u hu => hsame u (List.mem_append_left _ hu)

theorem get_of_mem {d : Dict} {key : String} {v : Json} (hmem : (key, v) ∈ d)
    (hsame : ∀ w, (key, w) ∈ d → w = v) : Dict.get d key = some v := by
  cases hget : Dict.get d key with
  | none =>
    have hne := List.lookup_eq_none_iff.mp hget (key, v) hmem
    exact absurd rfl (bne_iff_ne.mp hne)
  | some w =>
    obtain ⟨before, after, hd, _⟩ := List.lookup_eq_some_iff.mp hget
    rw [hsame w (hd ▸ List.mem_append_right before List.mem_cons_self)]

/-- What the second mapping does not name stays as it was. -/
theorem get_merge_of_not_mem {a b : Dict} {key : String} (h : key ∉ b.map Prod.fst) :
    Dict.get (merge a b) key = Dict.get a key := by
  induction b using List.reverseRecOn with
  | nil => rfl
  | append_singleton b e ih =>
    rw [List.map_append, List.mem_append, not_or] at h
    have hne : key ≠ e.1 := fun heq => h.2 (heq ▸ List.mem_cons_self)
    rw [merge, List.foldl_append, List.foldl_cons, List.foldl_nil, get_put, if_neg hne]
    exact ih h.1

variable (p : Platform) (budgetBytes : ℕ)

/-- The payload is trimmed to what the rest leaves of the budget, and to half of that and so on
while the whole is still too large. -/
def trimData (payload essential : Dict) : ℕ → ℕ → ToolEnvelope → Except Fault ToolEnvelope
  | 0, _, e => pure e
  | n + 1, available, e => do
    let trimmed ← boundedPayload p payload available
    let e := { e with data := merge trimmed essential }
    if e.Fits budgetBytes ∨ available ≤ 128 then pure e
    else trimData payload essential n (max 128 (available / 2)) e

def popWarning (e : ToolEnvelope) : Option ToolEnvelope :=
  if ¬ e.Fits budgetBytes ∧ 1 < e.warnings.length then
    some { e with warnings := e.warnings.dropLast }
  else none

/-- The first warning is halved, down to `least` characters. -/
def shortenWarning (longest least : ℕ) (mark : String) (e : ToolEnvelope) : Option ToolEnvelope :=
  match e.warnings with
  | first :: rest =>
    if ¬ e.Fits budgetBytes ∧ longest < first.length then
      let kept := String.ofList (first.toList.take (max least (first.length / 2))) ++ mark
      some { e with warnings := kept :: rest }
    else none
  | [] => none

def firstLength (e : ToolEnvelope) : ℕ := ((e.warnings.head?).map String.length).getD 0

def shortenWarnings (e : ToolEnvelope) : ToolEnvelope :=
  let popped := repeatStep (popWarning budgetBytes) e.warnings.length e
  repeatStep (shortenWarning budgetBytes 48 24 "…") (firstLength popped) popped

/-- The essential fields alone, and if these do not fit either, their names. -/
def keepEssential (essential : Dict) (expansionRoute : Option String) (e : ToolEnvelope) :
    Except Fault ToolEnvelope :=
  if e.Fits budgetBytes ∨ essential.isEmpty then pure e
  else
    let e := { e with data := essential }
    if e.Fits budgetBytes then pure e
    else
      match (Dict.get essential "response_coverage").getD (.obj []) with
      | .obj coverage =>
        let omitted := ((essential.map Prod.fst).filter (· ≠ "response_coverage")).insertionSort
          (· ≤ ·)
        let route :=
          match expansionRoute with
          | some route => if route = "" then none else some route
          | none => none
        let coverage := merge coverage [("essential_fields_omitted", .arr (omitted.map .str)),
          ("expansion_required", .bool true),
          ("expansion_route",
            .str (route.getD "use_the_tool_documented_expansion_or_revalidation_route"))]
        pure { e with
          status := .partially
          warnings := (e.warnings ++ ["response_essential_fields_require_expansion"]).eraseDups
          data := [("response_coverage", .obj coverage)] }
      | _ => throw .attribute

/-- The last data: the coverage, the identity and the first of what is ready. -/
def lastData (value : ToolEnvelope) (coverage : Json) : Dict :=
  let identity := (Dict.get value.data "observation_identity").toList.map fun v =>
    ("observation_identity", v)
  let ready :=
    match Dict.get value.data "ready" with
    | some (.arr items) => [("ready", .arr (items.take 20))]
    | _ => []
  ("response_coverage", coverage) :: (identity ++ ready)

def lastResort (value e : ToolEnvelope) : ToolEnvelope :=
  if e.Fits budgetBytes then e
  else { e with data := lastData value ((Dict.get e.data "response_coverage").getD .null) }

def boundedEnvelope (value : ToolEnvelope) (essentialDataKeys : List String)
    (expansionRoute : Option String) : Except Fault ToolEnvelope :=
  if value.Fits budgetBytes then pure value
  else do
    let data :=
      if (Dict.get value.data "response_coverage").isSome then value.data
      else value.data ++ [("response_coverage", responseCoverage budgetBytes)]
    let essential := ("response_coverage" :: essentialDataKeys).eraseDups.filterMap fun key =>
      (Dict.get data key).map fun v => (key, v)
    let payload := data.filter fun e => !essential.any fun f => f.1 = e.1
    let base := encodedSize ({ value with data := [] } : ToolEnvelope).dump
    let available := budgetBytes - base - encodedSize (.obj essential) - 32
    let e ← trimData p budgetBytes payload essential (available + 1) available
      { value with data := data }
    let e ← keepEssential budgetBytes essential expansionRoute (shortenWarnings budgetBytes e)
    let e := lastResort budgetBytes value e
    pure (repeatStep (shortenWarning budgetBytes 8 8 "") (firstLength e) e)

/-- An answer that fits is left as it is. -/
theorem boundedEnvelope_of_fits {value : ToolEnvelope} (h : value.Fits budgetBytes)
    (essentialDataKeys : List String) (expansionRoute : Option String) :
    boundedEnvelope p budgetBytes value essentialDataKeys expansionRoute = .ok value :=
  if_pos h

end Envelopes

end ProjectControl.Reads
