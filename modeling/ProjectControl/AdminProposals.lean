import Mathlib
import ProjectControl.CompactHost
import ProjectControl.Keyed
import ProjectControl.Resumption
import ProjectControl.SortedKeys
import ProjectControl.Values

/-! Administrator proposals: a preview is stored under a reference that the host issues, and a
later call consumes it. Calls of several clients may run side by side, and each may be cut off. -/

set_option autoImplicit false

namespace ProjectControl.AdminProposals

open ProjectControl.Compact
  (Codec Entry Err Journal isDigest maxPreviewBytes maxResultBytes maxRecords)
open JsonText (render sortKeys)
open Resumption Resumption.Spec

section Records

/-- The administrator previews of a journal: identity, project, repository and data. -/
def adminEntries (j : Journal) : List (String × String × String × Dict) :=
  j.filterMap (fun e => match e with
    | .adminPreview identity project repository data => some (identity, project, repository, data)
    | _ => none)

/-- The previews of one identity. -/
def previews (j : Journal) (identity : String) : List (String × String × Dict) :=
  (adminEntries j).filterMap (fun e => if e.1 = identity then some e.2 else none)

def setPreview (j : Journal) (identity : String) (data : Dict) : Journal :=
  j.map (fun e => match e with
    | .adminPreview h project repository old =>
      .adminPreview h project repository (if h = identity then data else old)
    | e => e)

/-- `_find` for the kind `admin_preview`. -/
def find (j : Journal) (identity project repository : String) : Except Err (Option Dict) :=
  match previews j identity with
  | [] => .ok none
  | [(p, r, data)] =>
    if p ≠ project ∨ r ≠ repository then .error (.workflow "workflow_handle_scope_mismatch")
    else .ok (some data)
  | _ => .error (.workflow "workflow_store_duplicate_identity")

variable (c : Codec) (digest : String → String)

def component (value name : String) (maximum : ℕ) : Except Err Unit :=
  if c.safeComponent value maximum then .ok () else .error (.workflow (name ++ "_invalid"))

/-- `create` for the kind `admin_preview`. -/
def create (j : Journal) (project repository : String) (data : Dict) (identity : String) :
    Except Err (String × Journal) := do
  Compact.Store.checkBytes (c.dictBytes data) maxPreviewBytes "workflow_record_too_large"
  let j ← Compact.Store.read j
  if maxRecords ≤ j.length then .error (.workflow "workflow_store_full")
  else if previews j identity ≠ [] then .error (.workflow "workflow_store_identity_conflict")
  else do
    let j ← Compact.Store.write c (j ++ [.adminPreview identity project repository data])
    .ok (identity, j)

/-- The data of a new preview. -/
def previewData (action packageDigest : String) (authorityRevision : ℤ) (preview : Dict)
    (idempotencyKey : String) : Dict :=
  [("action", .str action), ("package_digest", .str packageDigest),
    ("authority_revision", .num authorityRevision), ("preview", .obj preview),
    ("idempotency_key", .str idempotencyKey), ("result", .null)]

/-- `record_admin_preview`; the identity is the token that was drawn. -/
def recordAdminPreview (project repository action packageDigest : String) (authorityRevision : ℤ)
    (preview : Dict) (j : Journal) (identity : String) : Except Err (String × Journal) := do
  component c project "project" 128
  component c repository "repository" 128
  component c action "admin_action" 64
  if isDigest packageDigest = false ∨ authorityRevision < 0 then
    .error (.workflow "admin_preview_identity_invalid")
  else do
    Compact.Store.checkBytes (c.dictBytes preview) maxPreviewBytes "admin_preview_too_large"
    let idempotencyKey := "pc-" ++ String.ofList ((digest identity).toList.take 48)
    create c j project repository
      (previewData action packageDigest authorityRevision preview idempotencyKey) identity

/-- `get_admin_preview`. -/
def getAdminPreview (project repository : String) (proposalRef : Json) (action packageDigest : String)
    (authorityRevision : Option ℤ) (j : Journal) : Except Err (Option Dict) := do
  component c project "project" 128
  component c repository "repository" 128
  match proposalRef with
  | .str ref => do
    component c ref "workflow_handle" 256
    let j ← Compact.Store.read j
    match ← find j ref project repository with
    | none => .ok none
    | some record =>
      if Dict.value record "action" ≠ .str action ∨
          Dict.value record "package_digest" ≠ .str packageDigest then .ok none
      else if authorityRevision.any (fun n => Dict.value record "authority_revision" ≠ .num n) then
        .ok none
      else .ok (some record)
  | _ => .error (.workflow "workflow_handle_invalid")

/-- What `_canonical` compares. -/
def canonical (v : Json) : List Char := render ⟨false, false⟩ (sortKeys v)

/-- `complete_admin_preview`. -/
def completeAdminPreview (project repository proposalRef idempotencyKey : String) (result : Dict)
    (j : Journal) : Except Err Journal := do
  component c project "project" 128
  component c repository "repository" 128
  component c idempotencyKey "idempotency_key" 128
  Compact.Store.checkBytes (c.dictBytes result) maxResultBytes "admin_result_too_large"
  let j ← Compact.Store.read j
  match ← find j proposalRef project repository with
  | none => .error (.workflow "workflow_handle_unavailable")
  | some record =>
    if Dict.value record "idempotency_key" ≠ .str idempotencyKey then
      .error (.workflow "admin_preview_idempotency_mismatch")
    else if Dict.value record "result" = .null then
      Compact.Store.write c (setPreview j proposalRef (Keyed.assign record "result" (.obj result)))
    else if canonical (Dict.value record "result") ≠ canonical (.obj result) then
      .error (.workflow "admin_preview_result_conflict")
    else .ok j

end Records

section Calls

/-- A `ValueError`, a `RuntimeError`, an error of the workflow store, or another exception. -/
inductive Fault
  | value (text : String)
  | runtime (text : String)
  | store (e : Err)
  | other
  deriving DecidableEq

inductive NativeTool
  | commitPlan
  | closeRun
  | retireRun
  deriving DecidableEq

/-- The Todo authority: what it says of its revision, what it previews and carries out, what
others do to it, and the results that it has recorded under idempotency keys. -/
structure NativeAuthority (A E : Type) where
  revision : A → Json
  previewPlan : A → String → Except String Dict
  carryOut : A → NativeTool → Dict → String → A × Except String Dict
  evolve : A → E → Option A
  ledger : A → String → Option Dict

/-- A later revision is a number that is no smaller. -/
def Later (old new : Json) : Prop := ∀ n, old = .num n → ∃ n', new = .num n' ∧ n ≤ n'

/-- What the authority is relied on for: a call that is answered with a result has it recorded under
its key, what is recorded stays, and the revision does not go back. -/
structure NativeAuthority.Lawful {A E : Type} (N : NativeAuthority A E) : Prop where
  recorded : ∀ a tool args key result, (N.carryOut a tool args key).2 = .ok result →
    N.ledger (N.carryOut a tool args key).1 key = some result
  carryOut_keeps : ∀ a tool args key k result, N.ledger a k = some result →
    N.ledger (N.carryOut a tool args key).1 k = some result
  carryOut_later : ∀ a tool args key, Later (N.revision a) (N.revision (N.carryOut a tool args key).1)
  evolve_keeps : ∀ a e a' k result, N.evolve a e = some a' → N.ledger a k = some result →
    N.ledger a' k = some result
  evolve_later : ∀ a e a', N.evolve a e = some a' → Later (N.revision a) (N.revision a')

structure Shared (A : Type) where
  journal : Journal
  authority : A

/-- What a step meets: a fresh token, a call that does not reach the authority, and an answer of the
authority that does not come back. -/
structure Input where
  token : String := ""
  unreached : Option String := none
  lost : Option String := none

inductive Step
  | readRevision
  | previewPlan
  | readRun
  | carryOut
  | drawToken
  | record
  | get
  | complete
  deriving DecidableEq

abbrev Client (A : Type) := Prog (Shared A) Input Step Fault

inductive Lifecycle
  | closeRun
  | retire
  | supersede
  deriving DecidableEq

def Lifecycle.text : Lifecycle → String
  | .closeRun => "close_run"
  | .retire => "retire"
  | .supersede => "supersede"

def Lifecycle.tool : Lifecycle → NativeTool
  | .closeRun => .closeRun
  | _ => .retireRun

/-- The calls of `plan` that make a proposal or consume one. -/
inductive Call
  | preview (action : String) (nativePlan : Dict)
  | apply (nativePlan : Dict) (proposalRef : String)
  | prepare (action : Lifecycle) (intent : Dict)
  | execute (action : Lifecycle) (preparedRequest : Dict)

/-- What a call answers. The exception of its last step is among the answers. -/
inductive Answer
  | preview (action : String) (revision : ℤ) (ref : String) (preview : Dict)
  | needsPreview (reason : String)
  | prepared (action : Lifecycle) (revision : ℤ) (request : Dict)
  | needsPrepare (reason : String)
  | result (result : Dict)
  | raised (e : Fault)

variable {A E : Type} (N : NativeAuthority A E) (c : Codec) (digest : String → String)
  (project repository : String)

/-- `_authority_revision`. -/
def authorityRevision : Client A ℤ :=
  Prog.atomic .readRevision (fun s v => (s, match v.unreached with
    | some reason => .error (.runtime reason)
    | none => match N.revision s.authority with
      | .num n => if n < 0 then .error (.runtime "native_authority_revision_unavailable") else .ok n
      | _ => .error (.runtime "native_authority_revision_unavailable")))

def previewPlan (packageJson : String) : Client A Dict :=
  Prog.atomic .previewPlan (fun s v => (s, match v.unreached with
    | some reason => .error (.runtime reason)
    | none => (N.previewPlan s.authority packageJson).mapError .runtime))

/-- A call of the authority that may change it, and whose answer may be lost. -/
def carryOut (tool : NativeTool) (args : Dict) (key : String) : Client A Dict :=
  Prog.atomic .carryOut (fun s v => match v.unreached with
    | some reason => (s, .error (.runtime reason))
    | none =>
      let (a, reply) := N.carryOut s.authority tool args key
      ({ s with authority := a }, match v.lost with
        | some reason => .error (.runtime reason)
        | none => reply.mapError .runtime))

def drawToken : Client A String := Prog.atomic .drawToken (fun s v => (s, .ok v.token))

/-- An operation of the store, under its lock. -/
def stored {α : Type} (step : Step) (f : Journal → String → Except Err (α × Journal)) : Client A α :=
  Prog.atomic step (fun s v => match f s.journal v.token with
    | .ok (a, j) => ({ s with journal := j }, .ok a)
    | .error e => (s, .error (.store e)))

/-- `_canonical_admin_json`: the text of a document and its digest. -/
def canonicalAdminJson (value : Dict) (field : String) : Except Fault (String × String) :=
  let encoded := String.ofList (canonical (.obj value))
  if 256 * 1024 < encoded.utf8ByteSize then .error (.value (field ++ "_too_large"))
  else .ok (encoded, digest encoded)

/-- `==` of two decoded documents. -/
def sameJson (v w : Json) : Bool := Values.Value.same (Values.ofJson v) (Values.ofJson w)

/-- The last step of a call that carried something out. -/
def complete (ref key : String) (result : Dict) : Client A Answer :=
  Prog.atomic .complete (fun s _ =>
    match completeAdminPreview c project repository ref key result s.journal with
    | .ok j => ({ s with journal := j }, .ok (.result result))
    | .error e => (s, .ok (.raised (.store e))))

/-- `plan` for the actions `validate`, `diff` and `amend`. -/
def makePreview (action : String) (nativePlan : Dict) : Client A Answer := do
  let (packageJson, packageDigest) ← Prog.ofExcept (canonicalAdminJson digest nativePlan "native_plan")
  let revision ← authorityRevision N
  let preview ← previewPlan N packageJson
  let ref ← stored .record
    (recordAdminPreview c digest project repository "plan" packageDigest revision preview)
  pure (.preview action revision ref preview)

/-- A stored result: none, a mapping, or something that is no mapping. -/
def storedResult (record : Dict) : Except Fault (Option Dict) :=
  match Dict.value record "result" with
  | .null => .ok none
  | .obj result => .ok (some result)
  | _ => .error .other

/-- `plan` for the action `apply`. -/
def applyProposal (nativePlan : Dict) (proposalRef : String) : Client A Answer := do
  let (packageJson, packageDigest) ← Prog.ofExcept (canonicalAdminJson digest nativePlan "native_plan")
  let revision ← authorityRevision N
  if proposalRef = "" then Prog.fail (.value "host_issued_proposal_required")
  else do
    let found ← stored .get (fun j _ => (getAdminPreview c project repository (.str proposalRef) "plan"
      packageDigest none j).map (·, j))
    match found with
    | none => pure (.needsPreview "matching_current_preview_required")
    | some record =>
      match ← Prog.ofExcept (storedResult record) with
      | some result => pure (.result result)
      | none =>
        if Dict.value record "authority_revision" ≠ .num revision then
          pure (.needsPreview "authority_revision_changed")
        else
          match Dict.value record "preview", Dict.value record "idempotency_key" with
          | .obj preview, .str key => do
            let result ← carryOut N .commitPlan
              [("package_json", .str packageJson), ("preview", .obj preview)] key
            complete c project repository proposalRef key result
          | _, _ => Prog.fail (.runtime "stored_native_plan_preview_invalid")

end Calls

section Intents

def keysOf (d : Dict) : List String := d.map Prod.fst

/-- A text that is neither empty nor longer than so many bytes. -/
def shortText (maxBytes : ℕ) : Json → Option String
  | .str s => if s = "" ∨ maxBytes < s.utf8ByteSize then none else some s
  | _ => none

def exactKeys (names : List String) (d : Dict) : Bool :=
  names.all (keysOf d).contains && (keysOf d).all names.contains

def textField (row : Dict) (field : String) (maxBytes : ℕ) : Except Fault String :=
  match shortText maxBytes (Dict.value row field) with
  | some s => .ok s
  | none => .error (.value (field ++ "_invalid"))

/-- The source of a handoff. -/
def handoffSource : Json → Except Fault String
  | .obj row =>
    if exactKeys ["source_assignment_id", "successor_assignment_id"] row then do
      let source ← textField row "source_assignment_id" 128
      let _ ← textField row "successor_assignment_id" 128
      .ok source
    else .error (.value "handoff_fields_invalid")
  | _ => .error (.value "handoff_fields_invalid")

/-- The assignment that is left unresolved. -/
def unresolvedId : Json → Except Fault String
  | .obj row =>
    if exactKeys ["assignment_id", "reason"] row then do
      let assignmentId ← textField row "assignment_id" 128
      let _ ← textField row "reason" 512
      .ok assignmentId
    else .error (.value "unresolved_fields_invalid")
  | _ => .error (.value "unresolved_fields_invalid")

/-- The check of the dispositions of a run that is retired. -/
def checkDispositions (intent : Dict) : Except Fault Unit :=
  match Dict.value intent "handoffs", Dict.value intent "unresolved" with
  | .arr handoffs, .arr unresolved =>
    if 4096 < handoffs.length + unresolved.length then
      .error (.value "retirement_dispositions_too_large")
    else do
      let handoffSources ← handoffs.mapM handoffSource
      let unresolvedIds ← unresolved.mapM unresolvedId
      if ¬ handoffSources.Nodup ∨ ¬ unresolvedIds.Nodup then
        .error (.value "retirement_assignment_disposition_duplicate")
      else if handoffSources.any unresolvedIds.contains then
        .error (.value "retirement_assignment_disposition_conflict")
      else if handoffs ≠ [] ∧ (Dict.value intent "successor_run_id").truthy = false then
        .error (.value "retirement_handoffs_require_successor")
      else .ok ()
  | _, _ => .error (.value "retirement_disposition_arrays_invalid")

def intentKeys : Lifecycle → List String
  | .closeRun => ["run_id", "successor_run_id"]
  | _ => ["run_id", "successor_run_id", "disposition_schema_version", "handoffs", "unresolved"]

/-- The checks of an intent; what is answered is the run. -/
def checkIntent (action : Lifecycle) (intent : Dict) : Except Fault String :=
  let has (key : String) : Bool := (keysOf intent).contains key
  if !(keysOf intent).all (intentKeys action).contains || !has "run_id" then
    .error (.value "run_lifecycle_intent_fields_invalid")
  else if action = .closeRun ∧ has "successor_run_id" then
    .error (.value "close_run_successor_not_permitted")
  else if action = .supersede ∧ (Dict.value intent "successor_run_id").truthy = false then
    .error (.value "supersede_successor_required")
  else
    match Json.text? (Dict.value intent "run_id") with
    | none => .error (.value "run_id_invalid")
    | some runId =>
      if action = .closeRun then .ok runId
      else if has "disposition_schema_version" ≠ (has "handoffs" || has "unresolved") then
        .error (.value "retirement_dispositions_require_version")
      else if !has "disposition_schema_version" then .ok runId
      else if Dict.value intent "disposition_schema_version" ≠ .num 1 then
        .error (.value "disposition_schema_version_unsupported")
      else if !has "handoffs" || !has "unresolved" then
        .error (.value "retirement_disposition_arrays_required")
      else (checkDispositions intent).map (fun _ => runId)

def requestKeys : List String :=
  ["run_id", "expected_revision", "idempotency_key", "schedule_digest", "successor_run_id",
    "disposition_schema_version", "handoffs", "unresolved", "intent_digest", "proposal_ref"]

def requiredKeys : List String :=
  ["run_id", "expected_revision", "idempotency_key", "intent_digest", "proposal_ref"]

/-- The checks of a prepared request that is brought back. -/
def checkRequest (action : Lifecycle) (request : Dict) : Except Fault Unit :=
  let has (key : String) : Bool := (keysOf request).contains key
  if !(keysOf request).all requestKeys.contains ||
      !requiredKeys.all has then
    .error (.value "prepared_run_request_fields_invalid")
  else if action = .closeRun ∧ has "successor_run_id" then
    .error (.value "close_run_successor_not_permitted")
  else if action = .closeRun ∧
      (has "disposition_schema_version" || has "handoffs" || has "unresolved") then
    .error (.value "close_run_dispositions_not_permitted")
  else if action = .supersede ∧ (Dict.value request "successor_run_id").truthy = false then
    .error (.value "supersede_successor_required")
  else .ok ()

variable {A E : Type} (N : NativeAuthority A E) (c : Codec) (digest : String → String)
  (project repository : String)

/-- The request that is prepared for an intent. -/
def preparedRequest (runId : String) (revision : ℤ) (token intentDigest : String) (intent : Dict) :
    Dict :=
  [("run_id", .str runId), ("expected_revision", .num revision),
    ("idempotency_key", .str ("pc-run-" ++ token)), ("intent_digest", .str intentDigest)] ++
  ["successor_run_id", "disposition_schema_version", "handoffs", "unresolved"].filterMap
    (fun field => (Dict.get intent field).map (field, ·))

/-- `plan` for a lifecycle action without a prepared request. What `todo_read_run` answers is not
looked at. -/
def prepareRequest (action : Lifecycle) (intent : Dict) : Client A Answer := do
  let runId ← Prog.ofExcept (checkIntent action intent)
  let revision ← authorityRevision N
  Prog.atomic .readRun (fun s _ => (s, .ok ()))
  let (_, intentDigest) ← Prog.ofExcept (canonicalAdminJson digest intent "run_lifecycle_intent")
  let token ← drawToken
  let request := preparedRequest runId revision token intentDigest intent
  let ref ← stored .record (recordAdminPreview c digest project repository action.text intentDigest
    revision [("prepared_request", .obj request)])
  pure (.prepared action revision (request ++ [("proposal_ref", .str ref)]))

/-- `d.pop(key)`, what is left. -/
def without (key : String) (d : Dict) : Dict := d.filter (fun e => e.1 ≠ key)

/-- The prepared request of a stored preview; a preview that is no mapping raises. -/
def storedRequest (record : Dict) : Except Fault Json :=
  match Dict.value record "preview" with
  | .obj preview => .ok (Dict.value preview "prepared_request")
  | _ => .error .other

/-- `plan` for a lifecycle action with a prepared request. -/
def executeRequest (action : Lifecycle) (request : Dict) : Client A Answer := do
  Prog.ofExcept (checkRequest action request)
  let ref := Dict.value request "proposal_ref"
  let request := without "proposal_ref" request
  match Dict.value request "intent_digest" with
  | .str intentDigest => do
    if intentDigest.length ≠ 64 then Prog.fail (.value "run_lifecycle_intent_digest_invalid")
    else do
      let revision ← authorityRevision N
      let found ← stored .get (fun j _ => (getAdminPreview c project repository ref action.text
        intentDigest none j).map (·, j))
      match found with
      | none => Prog.fail (.value "host_issued_prepared_request_required")
      | some record => do
        let prepared ← Prog.ofExcept (storedRequest record)
        if !sameJson prepared (.obj request) then
          Prog.fail (.value "host_issued_prepared_request_required")
        else
          match ← Prog.ofExcept (storedResult record) with
          | some result => pure (.result result)
          | none =>
            if Dict.value record "authority_revision" ≠ .num revision ∨
                !sameJson (Dict.value request "expected_revision") (.num revision) then
              pure (.needsPrepare "authority_revision_changed")
            else
              match ref, Dict.value request "idempotency_key" with
              | .str ref, .str key => do
                let result ← carryOut N action.tool (without "intent_digest" request) key
                match Dict.value record "idempotency_key" with
                | .str recordKey => complete c project repository ref recordKey result
                | _ => Prog.fail (.store (.workflow "idempotency_key_invalid"))
              | _, _ => Prog.fail (.runtime "native_operation_rejected")
  | _ => Prog.fail (.value "run_lifecycle_intent_digest_invalid")

/-- `plan`. -/
def plan : Call → Client A Answer
  | .preview action nativePlan => makePreview N c digest project repository action nativePlan
  | .apply nativePlan ref => applyProposal N c digest project repository nativePlan ref
  | .prepare action intent => prepareRequest N c digest project repository action intent
  | .execute action request => executeRequest N c project repository action request

end Intents

end ProjectControl.AdminProposals
