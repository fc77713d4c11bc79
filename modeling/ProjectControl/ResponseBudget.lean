import Mathlib
import ProjectControl.JsonText
import ProjectControl.Transaction

/-! The answers of the information service and their sizes: how an answer is put together from
what a tool gathered, and what is left of one that is larger than the budget of its profile. -/

set_option autoImplicit false

namespace ProjectControl.Context

open JsonText

section Service

def sharedInformationTools : List String :=
  ["overview", "frontier", "delta", "search", "context", "trace", "evidence", "machine"]

/-- `RESPONSE_BUDGETS_BYTES`. -/
def responseBudget (profile : String) : ℕ := if profile = "observer" then 65536 else 8192

inductive Error where
  | permission (text : String)
  | value (text : String)
  | provider (text : String)
  /-- Python itself refuses an operand. -/
  | operand

structure Snapshot where
  todoRevision : Json
  observedAt : String
  cursor : Json

/-- What the branch of a tool leaves behind. -/
structure Gathered where
  status : String
  data : Json
  sources : List Json := []
  omissions : List Json := []
  context : Dict := []
  contextError : Option String := none
  snapshotError : Option String := none
  snapshot : Option Snapshot := none

structure Request where
  tool : String
  project : Option String
  params : Dict

/-- The registry, the tools' own branches, the packet store and the rest that an answer is made
with. -/
structure Service where
  profile : String
  resolveWorkspace : String → Except String (Option String × List String)
  displayName : String → Option String
  gather : String → Option String → Dict → Except Error Gathered
  maskPayload : Json → Json × List Json
  text : Json → String
  /-- The id of the new packet and the data that it holds. -/
  createPacket : Json → Except Error (String × Json)
  lookupSize : String → Option ℕ
  utcNow : String

end Service

section Coverage

structure Coverage where
  omissions : List Json
  semanticRevision : Json
  contextRevision : Json
  contextProjectUuid : Json
  observedAt : String
  complete : Bool

def Coverage.toJson (c : Coverage) : Json :=
  .obj [("omissions", .arr c.omissions), ("semantic_revision", c.semanticRevision),
    ("context_revision", c.contextRevision), ("context_project_uuid", c.contextProjectUuid),
    ("observed_at", .str c.observedAt), ("complete", .bool c.complete)]

def reason (text : String) : Json := .obj [("reason", .str text)]

def importantReasons : List String :=
  ["local_worker_state_unavailable", "cuda_evidence_unavailable", "evidence_unavailable"]

/-- The reason of an omission, if it is one of the important ones. -/
def importantReason? (item : Json) : Option String :=
  match item with
  | .obj d =>
    match Dict.get d "reason" with
    | some (.str text) => if text ∈ importantReasons then some text else none
    | _ => none
  | _ => none

/-- The first omission of each important reason, and the ordinary omissions. -/
def sortOmission (s : Dict × List Json) (item : Json) : Dict × List Json :=
  match importantReason? item with
  | some text => if s.1.any (fun e => e.1 = text) then s else (s.1 ++ [(text, item)], s.2)
  | none => (s.1, s.2 ++ [item])

def chosenOmissions (original : List Json) : List Json :=
  let sorted := original.foldl sortOmission ([], [])
  sorted.1.map Prod.snd ++ sorted.2.take (8 - sorted.1.length)

def compactOmission (item : Json) : Json :=
  match item with
  | .obj d =>
    let kept := ["reason", "unit", "omitted_count", "count"].filterMap
      (fun key => (Dict.get d key).map (fun v => (key, v)))
    .obj (if kept.length = d.length then kept else kept ++ [("details_truncated", .bool true)])
  | _ => reason "provider_omission"

def omittedCount (text : String) (n : ℕ) : List Json :=
  if n = 0 then []
  else [.obj [("reason", .str text), ("omitted_count", .num n)]]

/-- The omissions that a limited answer keeps. -/
def keptOmissions (original : List Json) (sourceCount : ℕ) : List Json :=
  (chosenOmissions original).map compactOmission ++
    omittedCount "coverage_omissions" (original.length - (chosenOmissions original).length) ++
    omittedCount "source_locators" sourceCount

/-- `_size_limited_coverage`. -/
def sizeLimitedCoverage (coverage : Coverage) (sizeLimit : Json) (sourceCount : ℕ) : Coverage :=
  { coverage with
    complete := false
    omissions := keptOmissions coverage.omissions sourceCount ++ [sizeLimit] }

end Coverage

section Answers

variable (h : Service)

/-- `bool(value)`. -/
def truthy : Json → Bool
  | .null => false
  | .bool b => b
  | .num n => n ≠ 0
  | .str s => s ≠ ""
  | .arr items => !items.isEmpty
  | .obj fields => !fields.isEmpty

def field? (v : Json) (key : String) : Option Json :=
  match v with
  | .obj d => Dict.get d key
  | _ => none

/-- `{'reason': 'prepared_context_omission', **item}`. -/
def preparedOmission? (item : Json) : Option Json :=
  match item with
  | .obj d => some (.obj (("reason", (Dict.get d "reason").getD (.str "prepared_context_omission")) ::
      d.filter (fun e => e.1 ≠ "reason")))
  | _ => none

/-- The elements of a value that is iterated. -/
def iterated : Json → Except Error (List Json)
  | .arr items => .ok items
  | .str s => .ok (s.toList.map (fun c => .str (String.singleton c)))
  | .obj fields => .ok (fields.map (fun e => .str e.1))
  | _ => .error .operand

/-- The first elements of a value that is sliced. -/
def sliced (n : ℕ) : Json → Except Error (List Json)
  | .obj _ => .error .operand
  | v => (iterated v).map (List.take n)

/-- The omissions of a prepared context, if it has any. -/
def preparedOmissions (data : Json) : Except Error (Option (List Json)) :=
  match (field? data "prepared_context").bind (field? · "omissions") with
  | some v => if truthy v = true then
      (sliced 32 v).map (fun items => some (items.filterMap preparedOmission?)) else .ok none
  | none => .ok none

def warningOmissions (data : Json) : Except Error (List Json) :=
  match field? data "warnings" with
  | some v => if truthy v = true then (iterated v).map (List.map (fun w => reason (h.text w)))
      else .ok []
  | none => .ok []

/-- The omissions and the status of an answer, before anything is masked. -/
def collect (g : Gathered) : Except Error (List Json × String) := do
  let prepared ← preparedOmissions g.data
  let status := if prepared.isSome ∧ g.status = "ok" then "partial" else g.status
  let warnings ← warningOmissions h g.data
  let registration := if "source_registration_unavailable".toList <:+: render ⟨true, true⟩ (.obj g.context)
    then [reason "semantic_source_registration_unavailable"] else []
  let snapshotError := (g.snapshotError.filter (· ≠ "")).toList.map (fun text =>
    Json.obj [("reason", .str text), ("owner", .str "todo-orchestrator")])
  let omissions := g.omissions ++ prepared.getD [] ++ warnings ++ registration ++
    (g.contextError.filter (· ≠ "")).toList.map reason ++ snapshotError
  return (omissions, if omissions ≠ [] ∧ status = "ok" then "partial" else status)

def coverageOf (g : Gathered) (omissions : List Json) : Coverage where
  omissions := omissions
  semanticRevision := (g.snapshot.map Snapshot.todoRevision).getD .null
  contextRevision := (Dict.get g.context "project_revision").getD .null
  contextProjectUuid := (Dict.get g.context "project_uuid").getD .null
  observedAt := (g.snapshot.map Snapshot.observedAt).getD h.utcNow
  complete := omissions.isEmpty

/-- `response['continuation']`, where the answer has one. -/
def continuation (tool : String) (data : Json) : Dict :=
  match field? data "continuation" with
  | some v => if tool = "context" ∧ truthy v = true then [("continuation", v)] else []
  | none => []

/-- What an answer is put together from, once its packet is stored. -/
structure Parts where
  status : String
  packet : String
  data : Json
  sources : List Json
  coverage : Coverage
  more : Dict

def Parts.response (p : Parts) : Json :=
  .obj ([("status", .str p.status), ("packet", .str p.packet), ("data", p.data),
    ("sources", .arr p.sources), ("coverage", p.coverage.toJson)] ++ p.more)

/-- `len(json.dumps(response, ensure_ascii=False).encode())`. -/
def responseSize (response : Json) : ℕ := bytes (render ⟨false, true⟩ response)

/-- The first half of the end of `call`, up to `response`. -/
def assemble (r : Request) (g : Gathered) : Except Error Parts := do
  let (omissions, status) ← collect h g
  let (data, masked) := h.maskPayload g.data
  let coverage := coverageOf h g (omissions ++ masked)
  let (packet, stored) ← h.createPacket (.obj [("status", .str status), ("data", data),
    ("coverage", coverage.toJson), ("cursor", (g.snapshot.map Snapshot.cursor).getD .null)])
  return ⟨status, packet, stored, g.sources, coverage, continuation r.tool data⟩

def sizeLimitOf (budget required : ℕ) : Json :=
  .obj [("reason", .str "response_exceeds_profile_maximum"), ("maximum_bytes", .num budget),
    ("required_bytes", .num required)]

/-- The packet that a larger budget would have to hold: the one asked for, or the new one. -/
def packetTarget (r : Request) (packet : String) : String :=
  match Dict.get r.params "query" with
  | some (.obj query) =>
    if r.tool = "search" ∧ Dict.get query "kind" = some (.str "packet") then
      ((Dict.get query "target").bind Json.text?).getD packet
    else packet
  | _ => packet

/-- `required_bytes`. -/
def requiredBytes (r : Request) (p : Parts) : ℕ :=
  max ((h.lookupSize (packetTarget r p.packet)).getD (responseSize p.response))
    (responseSize p.response)

/-- What is left of an answer that does not fit. -/
def Parts.limited (p : Parts) (budget required : ℕ) : Parts :=
  let sizeLimit := sizeLimitOf budget required
  { p with
    status := "partial"
    data := .obj [("size_limit", sizeLimit)]
    sources := []
    coverage := sizeLimitedCoverage p.coverage sizeLimit p.sources.length }

/-- The second half: the answer itself, or what the budget leaves of it. -/
def fitted (r : Request) (p : Parts) : Json :=
  if responseSize p.response ≤ responseBudget h.profile then p.response
  else (p.limited (responseBudget h.profile) (requiredBytes h r p)).response

/-- `display_name or project`. -/
def nameOf (project : String) : String :=
  match h.displayName project with
  | some name => if name = "" then project else name
  | none => project

def candidateRow (project : String) : Json :=
  .obj [("project", .str project), ("name", .str (nameOf h project))]

def nextCall (tool project : String) : Json :=
  .obj [("tool", .str tool), ("arguments", .obj [("project", .str project)])]

def choicesData (tool : String) (candidates : List String) : Json :=
  .obj [("resolution", .str "ambiguous"), ("candidates", .arr (candidates.map (candidateRow h))),
    ("next_calls", .arr (candidates.map (nextCall tool)))]

def choicesCoverage : Json :=
  .obj [("omissions", .arr [reason "project_selector_ambiguous"]), ("semantic_revision", .null),
    ("context_revision", .null), ("observed_at", .str h.utcNow), ("complete", .bool false)]

/-- The answer that lists the projects a selector may stand for. -/
def choices (tool packet : String) (candidates : List String) : Json :=
  .obj [("status", .str "partial"), ("packet", .str packet), ("data", choicesData h tool candidates),
    ("sources", .arr []), ("coverage", choicesCoverage h),
    ("next_calls", .arr (candidates.map (nextCall tool)))]

def choicesPayload (tool : String) (candidates : List String) : Json :=
  .obj [("status", .str "partial"), ("data", choicesData h tool candidates),
    ("coverage", choicesCoverage h), ("cursor", .null)]

/-- `_ambiguous_project_response`. -/
def ambiguousProjectResponse (tool : String) (candidates : List String) : Except Error Json := do
  let (packet, _) ← h.createPacket (choicesPayload h tool candidates)
  return choices h tool packet candidates

/-- The project that a request names, or the projects that its selector leaves open. -/
def selected (r : Request) : Except Error (Option String × List String) :=
  match r.project with
  | none => .ok (none, [])
  | some selector =>
    match h.resolveWorkspace selector with
    | .error _ => .error (.permission "project_not_permitted")
    | .ok found => .ok found

/-- `InformationService.call`. -/
def call (r : Request) : Except Error Json := do
  if r.tool ∉ sharedInformationTools ++ ["read", "inspect"] then
    throw (.permission "unsupported_information_tool")
  if r.tool = "read" ∧ h.profile ≠ "observer" then
    throw (.permission "observer_read_required; use native find/rg/Git")
  let (project, ambiguous) ← selected h r
  if ambiguous ≠ [] then
    ambiguousProjectResponse h r.tool ambiguous
  else if project = none ∧ r.tool ∉ ["overview", "search", "machine"] then
    throw (.value "project_required")
  else do
    let g ← h.gather r.tool project r.params
    let p ← assemble h r g
    return fitted h r p

end Answers

section Sizes

variable (h : Service)

/-- The size of the canonical encoding. -/
def canonicalBytes (v : Json) : ℕ := bytes (render ⟨false, false⟩ v)

def textBytes (s : String) : ℕ := bytes (quote ⟨false, false⟩ s)

theorem canonicalBytes_str (s : String) : canonicalBytes (.str s) = textBytes s := rfl

theorem fieldBytes_eq (key : String) (v : Json) :
    fieldBytes false (key, v) = textBytes key + canonicalBytes v + 2 := rfl

theorem itemBytes_eq (v : Json) : itemBytes false v = canonicalBytes v + 1 := rfl

theorem canonicalBytes_obj (e : String × Json) (fields : Dict) :
    canonicalBytes (.obj (e :: fields)) = ((e :: fields).map (fieldBytes false)).sum + 1 :=
  bytes_object e fields

theorem canonicalBytes_arr (v : Json) (items : List Json) :
    canonicalBytes (.arr (v :: items)) = ((v :: items).map (itemBytes false)).sum + 1 :=
  bytes_array v items

/-- What a candidate takes in each of the three lists that name it. -/
def candidateBytes (tool project : String) : ℕ :=
  91 + 2 * textBytes tool + 3 * textBytes project + textBytes (nameOf h project)

def choicesBytes (tool packet : String) (candidates : List String) : ℕ :=
  270 + textBytes packet + textBytes h.utcNow + (candidates.map (candidateBytes h tool)).sum

theorem candidateRow_bytes (project : String) :
    itemBytes false (candidateRow h project) =
      21 + textBytes project + textBytes (nameOf h project) := by
  have hproject : textBytes "project" = 9 := by decide +kernel
  have hname : textBytes "name" = 6 := by decide +kernel
  rw [itemBytes_eq, candidateRow, canonicalBytes_obj]
  simp only [List.map_cons, List.map_nil, List.sum_cons, List.sum_nil, fieldBytes_eq,
    canonicalBytes_str, hproject, hname]
  omega

theorem nextCall_bytes (tool project : String) :
    itemBytes false (nextCall tool project) = 35 + textBytes tool + textBytes project := by
  have htool : textBytes "tool" = 6 := by decide +kernel
  have harguments : textBytes "arguments" = 11 := by decide +kernel
  have hproject : textBytes "project" = 9 := by decide +kernel
  rw [itemBytes_eq, nextCall, canonicalBytes_obj]
  simp only [List.map_cons, List.map_nil, List.sum_cons, List.sum_nil, fieldBytes_eq,
    canonicalBytes_obj, canonicalBytes_str, htool, harguments, hproject]
  omega

/-- The three lists of an ambiguous answer grow with every candidate. -/
theorem choices_bytes (tool packet : String) (project : String) (others : List String) :
    canonicalBytes (choices h tool packet (project :: others)) =
      choicesBytes h tool packet (project :: others) := by
  have hrows (candidates : List String) :
      ((candidates.map (candidateRow h)).map (itemBytes false)).sum +
        2 * ((candidates.map (nextCall tool)).map (itemBytes false)).sum =
      (candidates.map (candidateBytes h tool)).sum := by
    induction candidates with
    | nil => rfl
    | cons c candidates ih =>
      simp only [List.map_cons, List.sum_cons, candidateRow_bytes, nextCall_bytes,
        candidateBytes] at ih ⊢
      omega
  have hall := hrows (project :: others)
  rw [choices, canonicalBytes_obj, choicesBytes, ← hall]
  simp only [List.map_cons, List.map_nil, List.sum_cons, List.sum_nil, fieldBytes_eq,
    canonicalBytes_str, choicesData, choicesCoverage, canonicalBytes_obj, canonicalBytes_arr,
    reason, itemBytes_eq]
  have hwords : textBytes "partial" = 9 ∧ textBytes "ambiguous" = 11 ∧
      textBytes "project_selector_ambiguous" = 28 ∧ canonicalBytes .null = 4 ∧
      canonicalBytes (.bool false) = 5 ∧ canonicalBytes (.arr []) = 2 := by decide +kernel
  have hkeys : textBytes "status" = 8 ∧ textBytes "packet" = 8 ∧ textBytes "data" = 6 ∧
      textBytes "sources" = 9 ∧ textBytes "coverage" = 10 ∧ textBytes "next_calls" = 12 ∧
      textBytes "resolution" = 12 ∧ textBytes "candidates" = 12 := by decide +kernel
  have hcoverage : textBytes "omissions" = 11 ∧ textBytes "reason" = 8 ∧
      textBytes "semantic_revision" = 19 ∧ textBytes "context_revision" = 18 ∧
      textBytes "observed_at" = 13 ∧ textBytes "complete" = 10 := by decide +kernel
  omega

/-- What a limited answer takes: the provenance of its coverage, the omissions that it keeps and
a continuation of the tool's own. -/
def limitBytes (budget required : ℕ) (p : Parts) : ℕ :=
  351 + textBytes p.packet + 2 * canonicalBytes (.num budget) +
    2 * canonicalBytes (.num required) + canonicalBytes p.coverage.semanticRevision +
    canonicalBytes p.coverage.contextRevision + canonicalBytes p.coverage.contextProjectUuid +
    textBytes p.coverage.observedAt +
    ((keptOmissions p.coverage.omissions p.sources.length).map (itemBytes false)).sum +
    (p.more.map (fieldBytes false)).sum

theorem sizeLimitOf_bytes (budget required : ℕ) :
    canonicalBytes (sizeLimitOf budget required) =
      80 + canonicalBytes (.num budget) + canonicalBytes (.num required) := by
  have hkeys : textBytes "reason" = 8 ∧ textBytes "response_exceeds_profile_maximum" = 34 ∧
      textBytes "maximum_bytes" = 15 ∧ textBytes "required_bytes" = 16 := by decide +kernel
  rw [sizeLimitOf, canonicalBytes_obj]
  simp only [List.map_cons, List.map_nil, List.sum_cons, List.sum_nil, fieldBytes_eq,
    canonicalBytes_str]
  omega

theorem canonicalBytes_append (items : List Json) (v : Json) :
    canonicalBytes (.arr (items ++ [v])) =
      (items.map (itemBytes false)).sum + canonicalBytes v + 2 := by
  cases items with
  | nil =>
    rw [List.nil_append, canonicalBytes_arr, List.map_singleton, List.sum_singleton, itemBytes_eq,
      List.map_nil, List.sum_nil]
    omega
  | cons w items =>
    rw [List.cons_append, canonicalBytes_arr, List.map_cons, List.map_append, List.sum_cons,
      List.sum_append, List.map_singleton, List.sum_singleton, itemBytes_eq v, List.map_cons,
      List.sum_cons]
    omega

theorem limited_bytes (budget required : ℕ) (p : Parts) :
    canonicalBytes (p.limited budget required).response = limitBytes budget required p := by
  have hlimit := sizeLimitOf_bytes budget required
  have hwords : textBytes "partial" = 9 ∧ textBytes "size_limit" = 12 ∧
      canonicalBytes (.bool false) = 5 ∧ canonicalBytes (.arr []) = 2 := by decide +kernel
  have hkeys : textBytes "status" = 8 ∧ textBytes "packet" = 8 ∧ textBytes "data" = 6 ∧
      textBytes "sources" = 9 ∧ textBytes "coverage" = 10 := by decide +kernel
  have hcoverage : textBytes "omissions" = 11 ∧ textBytes "semantic_revision" = 19 ∧
      textBytes "context_revision" = 18 ∧ textBytes "context_project_uuid" = 22 ∧
      textBytes "observed_at" = 13 ∧ textBytes "complete" = 10 := by decide +kernel
  rw [Parts.limited, Parts.response, List.cons_append, canonicalBytes_obj, limitBytes]
  simp only [List.cons_append, List.nil_append, List.map_cons, List.map_nil, List.sum_cons,
    List.sum_nil, fieldBytes_eq, canonicalBytes_str, canonicalBytes_obj, Coverage.toJson,
    sizeLimitedCoverage, canonicalBytes_append]
  omega

end Sizes

section Budget

variable (h : Service) (r : Request)

/-- The answers that keep to the budget: the list of the open projects is short, and of an
answer that is too large itself what is left is short. -/
structure Fits : Prop where
  choices : ∀ (project : Option String) (candidates : List String) (packet : String)
    (stored : Json), selected h r = .ok (project, candidates) → candidates ≠ [] →
      h.createPacket (choicesPayload h r.tool candidates) = .ok (packet, stored) →
      choicesBytes h r.tool packet candidates ≤ responseBudget h.profile
  limited : ∀ (project : Option String) (g : Gathered) (p : Parts),
    selected h r = .ok (project, []) → h.gather r.tool project r.params = .ok g →
      assemble h r g = .ok p → responseBudget h.profile < responseSize p.response →
      limitBytes (responseBudget h.profile) (requiredBytes h r p) p ≤ responseBudget h.profile

/-- Every answer leaves through one of two exits. -/
def Exits (response : Json) : Prop :=
  (∃ project candidates packet stored, selected h r = .ok (project, candidates) ∧
    candidates ≠ [] ∧
    h.createPacket (choicesPayload h r.tool candidates) = .ok (packet, stored) ∧
    response = choices h r.tool packet candidates) ∨
  ∃ project g p, selected h r = .ok (project, []) ∧
    h.gather r.tool project r.params = .ok g ∧ assemble h r g = .ok p ∧
    response = fitted h r p

variable {h r}

theorem call_exits : Ensures (call h r) (Exits h r) := by
  unfold call
  refine .ite (fun _ => .bind (P := fun _ => False) .throw (fun _ h => h.elim)) (fun _ => ?_)
  refine .ite (fun _ => .bind (P := fun _ => False) .throw (fun _ h => h.elim)) (fun _ => ?_)
  refine .bind .of_eq (fun found hfound => ?_)
  obtain ⟨project, candidates⟩ := found
  refine .ite (fun hne => ?_) (fun hnone => .ite (fun _ => .throw) (fun _ => ?_))
  · refine .bind .of_eq (fun created hpacket => .pure ?_)
    exact Or.inl ⟨project, candidates, created.1, created.2, hfound, hne, hpacket, rfl⟩
  · obtain rfl : candidates = [] := not_not.mp hnone
    refine .bind .of_eq (fun g hg => .bind .of_eq (fun p hp => .pure ?_))
    exact Or.inr ⟨project, g, p, hfound, hg, hp, rfl⟩

theorem fitted_bytes {p : Parts} :
    canonicalBytes (fitted h r p) ≤ responseBudget h.profile ↔
      (responseBudget h.profile < responseSize p.response →
        limitBytes (responseBudget h.profile) (requiredBytes h r p) p ≤
          responseBudget h.profile) := by
  unfold fitted
  by_cases hsize : responseSize p.response ≤ responseBudget h.profile
  · rw [if_pos hsize]
    have hcompact : canonicalBytes p.response ≤ responseSize p.response := bytes_le_spaced _
    constructor
    · intro _ hlarge
      omega
    · intro _
      omega
  · rw [if_neg hsize, limited_bytes]
    constructor
    · intro hlimit _
      exact hlimit
    · intro hlimit
      exact hlimit (Nat.lt_of_not_le hsize)

theorem choices_fit {tool packet : String} {candidates : List String} (hne : candidates ≠ []) :
    canonicalBytes (choices h tool packet candidates) = choicesBytes h tool packet candidates := by
  cases candidates with
  | nil => exact absurd rfl hne
  | cons project others => exact choices_bytes h tool packet project others

theorem fits_choices {project : Option String} {candidates : List String} {packet : String}
    {stored : Json} (hfound : selected h r = .ok (project, candidates)) (hne : candidates ≠ [])
    (hpacket : h.createPacket (choicesPayload h r.tool candidates) = .ok (packet, stored)) :
    choicesBytes h r.tool packet candidates ≤ responseBudget h.profile ↔ Fits h r := by
  constructor
  · intro hsize
    refine ⟨fun project' candidates' packet' stored' hfound' _ hpacket' => ?_,
      fun project' g p hfound' => ?_⟩
    · cases hfound.symm.trans hfound'
      cases hpacket.symm.trans hpacket'
      exact hsize
    · cases hfound.symm.trans hfound'
      exact absurd rfl hne
  · exact fun hfits => hfits.choices project candidates packet stored hfound hne hpacket

theorem fits_limited {project : Option String} {g : Gathered} {p : Parts}
    (hfound : selected h r = .ok (project, [])) (hg : h.gather r.tool project r.params = .ok g)
    (hp : assemble h r g = .ok p) :
    (responseBudget h.profile < responseSize p.response →
      limitBytes (responseBudget h.profile) (requiredBytes h r p) p ≤ responseBudget h.profile) ↔
      Fits h r := by
  constructor
  · intro hlimit
    refine ⟨fun project' candidates' packet' stored' hfound' hne => ?_,
      fun project' g' p' hfound' hg' hp' => ?_⟩
    · cases hfound.symm.trans hfound'
      exact absurd rfl hne
    · cases hfound.symm.trans hfound'
      cases hg.symm.trans hg'
      cases hp.symm.trans hp'
      exact hlimit
  · exact fun hfits => hfits.limited project g p hfound hg hp

/-- An answer keeps to the budget of its profile exactly if what cannot be left out of it does. -/
theorem within_budget_iff {response : Json} (hcall : call h r = .ok response) :
    canonicalBytes response ≤ responseBudget h.profile ↔ Fits h r := by
  rcases call_exits response hcall with
    ⟨project, candidates, packet, stored, hfound, hne, hpacket, hresponse⟩ |
    ⟨project, g, p, hfound, hg, hp, hresponse⟩
  · rw [hresponse, choices_fit hne]
    exact fits_choices hfound hne hpacket
  · rw [hresponse, fitted_bytes]
    exact fits_limited hfound hg hp

end Budget

section Cases

/-- Two projects of one repository name, both shown under a name of `n` letters. -/
def twoProjects (n : ℕ) : Service where
  profile := "coder"
  resolveWorkspace _ := .ok (none, ["first", "second"])
  displayName _ := some (String.ofList (List.replicate n 'x'))
  gather _ _ _ := .error (.value "project_required")
  maskPayload data := (data, [])
  text _ := ""
  createPacket data := .ok ("packet:1", data)
  lookupSize _ := none
  utcNow := "2026-01-01T00:00:00Z"

def overview : Request := ⟨"overview", some "repo", []⟩

theorem call_overview (n : ℕ) : call (twoProjects n) overview =
    .ok (choices (twoProjects n) "overview" "packet:1" ["first", "second"]) := rfl

theorem length_le_textBytes (s : String) : s.toList.length ≤ textBytes s := by
  have hescape : s.toList.length ≤ (s.toList.flatMap (escape false)).length :=
    length_le_flatMap_escape s.toList
  have hquoted := length_le_bytes (quote ⟨false, false⟩ s)
  simp only [quote, List.length_append, List.length_cons] at hquoted
  simp only [textBytes, quote]
  omega

theorem nameOf_twoProjects (n : ℕ) (project : String) :
    nameOf (twoProjects (n + 1)) project = String.ofList (List.replicate (n + 1) 'x') := by
  have hne : String.ofList (List.replicate (n + 1) 'x') ≠ "" := by
    intro hempty
    have hlist := congrArg String.toList hempty
    rw [String.toList_ofList] at hlist
    cases hlist
  exact if_neg hne

theorem choices_grow (n : ℕ) : n + 1 < canonicalBytes
    (choices (twoProjects (n + 1)) "overview" "packet:1" ["first", "second"]) := by
  have hname := length_le_textBytes (nameOf (twoProjects (n + 1)) "first")
  rw [nameOf_twoProjects, String.toList_ofList, List.length_replicate] at hname
  rw [choices_fit (List.cons_ne_nil _ _), choicesBytes, List.map_cons, List.sum_cons,
    candidateBytes, nameOf_twoProjects]
  omega

/-- A list of two projects with a name of 8192 letters is larger than the budget. -/
theorem large_name_exceeds_budget : ¬ ∀ response,
    call (twoProjects 8192) overview = .ok response →
      canonicalBytes response ≤ responseBudget (twoProjects 8192).profile := by
  intro hbound
  have hsize := hbound _ (call_overview 8192)
  have hlarge : 8192 < canonicalBytes
      (choices (twoProjects 8192) "overview" "packet:1" ["first", "second"]) := choices_grow 8191
  have hbudget : responseBudget (twoProjects 8192).profile = 8192 := rfl
  omega

theorem two_projects_fit :
    canonicalBytes (choices (twoProjects 1) "overview" "packet:1" ["first", "second"]) ≤ 8192 ∧
      Fits (twoProjects 1) overview := by
  have hsize : canonicalBytes (choices (twoProjects 1) "overview" "packet:1" ["first", "second"]) ≤
      8192 := by decide +kernel
  exact ⟨hsize, (within_budget_iff (call_overview 1)).mp hsize⟩

end Cases

end ProjectControl.Context
