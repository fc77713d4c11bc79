import Mathlib
import ProjectControl.Json
import ProjectControl.ProcessStart

/-! The operations on delegated children: one nested function serves six tools, and what it binds
in one of its branches is a local name in all of them. -/

set_option autoImplicit false

namespace ProjectControl.ChildOperations

section Requests

/-- The tools for a child that has been started. -/
inductive LaterTool
  | readChildExecution
  | submitChildCandidate
  | reviewChildCandidate
  | cancelChild
  | reconcileChild
  deriving DecidableEq

inductive ChildTool
  | startChild
  | later (tool : LaterTool)
  deriving DecidableEq

/-- A `NativeWorkflowError`, a `ValueError`, an `UnboundLocalError`, or another exception with the
code that it may have. -/
inductive Error
  | native (code : String)
  | value (text : String)
  | unboundLocal (name : String)
  | other (code : Option String) (stale : Bool)
  deriving DecidableEq

/-- The scope of a child: its paths and its locks. -/
structure AttemptScope where
  paths : List (String × String)
  locks : List (String × String)
  deriving DecidableEq

/-- What a session is asked for. -/
inductive Call
  | startChild (parentAttemptId credential executionId logicalId : String) (scope : AttemptScope)
      (actions : List String) (idempotencyKey : Option String) (retryOf : Option String)
      (expectedRevision : Option ℤ)
  | readChildExecution (executionId : String)
  | submitChildCandidate (executionId candidateId summary : String)
      (artifacts : List (String × String)) (idempotencyKey : Option String)
      (expectedRevision : Option ℤ)
  | reviewChildCandidate (executionId candidateId decision reviewId : String)
      (reason idempotencyKey : Option String) (expectedRevision : Option ℤ)
  | requestChildCancel (executionId cancellationId : String)
      (reason idempotencyKey : Option String) (expectedRevision : Option ℤ)
  | reconcileChildStopped (executionId : String) (idempotencyKey : Option String)
      (expectedRevision : Option ℤ)
  deriving DecidableEq

def Call.executionId : Call → String
  | .startChild _ _ executionId .. => executionId
  | .readChildExecution executionId => executionId
  | .submitChildCandidate executionId .. => executionId
  | .reviewChildCandidate executionId .. => executionId
  | .requestChildCancel executionId .. => executionId
  | .reconcileChildStopped executionId .. => executionId

/-- The credential of a child, as it is issued. -/
structure CredentialRequest where
  projectId : String
  principal : String
  profile : String
  parentAttemptId : String
  logicalId : String
  executionId : String
  scope : AttemptScope
  actions : List String
  idempotencyKey : String

structure Grant where
  value : Json
  childPrincipal : String
  bearerToken : String

/-- An open session of the workflow package: its answers, and the public values of these. -/
structure Session where
  projectId : String
  grant : Call → Except Error Grant
  answer : Call → Except Error Json
  artifactRef : String → Except Error String
  publicValue : String → Json → Except Error Json

/-- What the host is built with; the validator of the binding and the closing of the session may
raise. -/
structure Host where
  principal : String
  profile : String
  session : String → String → Option String → Except Error Session
  childCredentialFor : Option (CredentialRequest → Except Error String)
  storeChildBearer : String → String → Grant → Except Error Unit
  stableId : String → Except Error String
  sha256Digest : String → Except Error String
  attemptScope : AttemptScope → Except Error AttemptScope
  bindingAfterError : Option Error
  onExit : Option Error

def maxCollection : ℕ := 4096

/-- `_required_text`. -/
def requiredText (value : Json) (field : String) (maxBytes : ℕ) : Except Error String :=
  match value with
  | .str s =>
    if s.toList.all Processes.isSpace || maxBytes < s.utf8ByteSize then
      throw (.value (field ++ "_invalid"))
    else pure s
  | _ => throw (.value (field ++ "_invalid"))

def optionalRevision : Json → Except Error (Option ℤ)
  | .null => pure none
  | .num n => if n < 0 then throw (.value "expected_revision_invalid") else pure (some n)
  | _ => throw (.value "expected_revision_invalid")

def jsonMapping (value : Json) (field : String) : Except Error Dict :=
  match value with
  | .obj d => pure d
  | _ => throw (.value (field ++ "_invalid"))

/-- `_stable_id`. -/
def stableId (h : Host) (value : Json) (field : String) : Except Error String := do
  h.stableId (← requiredText value field 128)

def optionalReason : Json → Except Error (Option String)
  | .null => pure none
  | value => some <$> requiredText value "reason" 1000

end Requests

section Scopes

/-- The names that the body of the nested function `action` binds. -/
def bound : List String :=
  ["AttemptScopeSnapshot", "raw_scope", "paths_raw", "locks_raw", "pairs", "scope", "raw_actions",
    "actions", "logical_id", "execution_id", "credential", "retry_of", "grant", "error", "value",
    "ChildArtifactRef", "Sha256Digest", "artifact_values", "artifacts", "item", "row", "ref",
    "typed_ref", "digest", "decision", "reason"]

/-- The validated request in the enclosing call. -/
structure Captured where
  args : Dict
  parentAttemptId : String
  executionId : String
  key : Option String
  revision : Option ℤ

/-- What the body has bound so far of the names that it shares with the enclosing call, and the
calls it has made. -/
structure Frame where
  executionId : Option String
  calls : List Call

abbrev Action := ExceptT Error (StateM Frame)

/-- Reading a name: one that the body binds anywhere is local to it and unbound until then, the
others are those of the enclosing call. -/
def load (name : String) (outer : String) (slot : Frame → Option String) : Action String := do
  if name ∈ bound then
    match slot (← get) with
    | some v => pure v
    | none => throw (.unboundLocal name)
  else pure outer

def Captured.loadExecutionId (c : Captured) : Action String :=
  load "execution_id" c.executionId Frame.executionId

def record (call : Call) : Action Unit :=
  modify fun frame => { frame with calls := frame.calls ++ [call] }

end Scopes

section Branches

variable (h : Host) (c : Captured) (session : Session)

def pairs (label : String) (items : List Json) : Except Error (List (String × String)) :=
  items.mapM fun item =>
    match item with
    | .arr [first, second] => do
      pure (← requiredText first label 512, ← requiredText second label 32)
    | _ => throw (.value (label ++ "_entry_invalid"))

/-- The scope that the request gives to the child. -/
def childScope : Except Error AttemptScope := do
  let rawScope ← jsonMapping (Dict.value c.args "scope") "scope"
  if ¬ (rawScope.all (fun e => e.1 ∈ ["paths", "locks"]) ∧
      ["paths", "locks"].all fun key => (Dict.get rawScope key).isSome) then
    throw (.value "child_scope_fields_invalid")
  match Dict.value rawScope "paths", Dict.value rawScope "locks" with
  | .arr pathsRaw, .arr locksRaw =>
    if maxCollection < pathsRaw.length ∨ maxCollection < locksRaw.length then
      throw (.value "child_scope_too_large")
    h.attemptScope ⟨← pairs "child_path" pathsRaw, ← pairs "child_lock" locksRaw⟩
  | _, _ => throw (.value "child_scope_lists_invalid")

def childActions : Except Error (List String) := do
  match Dict.value c.args "actions" with
  | .arr raw =>
    if raw.length < 1 ∨ 128 < raw.length then throw (.value "child_actions_invalid")
    let actions ← raw.mapM fun item => stableId h item "action"
    if ¬ actions.Nodup then throw (.value "child_actions_not_unique")
    pure actions
  | _ => throw (.value "child_actions_invalid")

/-- The branch that starts a child; it binds `execution_id` anew. -/
def start : Action Json := do
  match h.childCredentialFor with
  | none => throw (.native "child_credential_issuer_unavailable")
  | some issue =>
    let scope ← childScope h c
    let actions ← childActions h c
    let logicalId ← stableId h (Dict.value c.args "logical_id") "logical_id"
    let executionId ← stableId h (Dict.value c.args "execution_id") "execution_id"
    modify fun frame => { frame with executionId := some executionId }
    let credential ← issue
      { projectId := session.projectId, principal := h.principal, profile := h.profile
        parentAttemptId := c.parentAttemptId, logicalId := logicalId
        executionId := ← c.loadExecutionId, scope := scope, actions := actions
        idempotencyKey := c.key.getD "None" }
    let retryOf ←
      match Dict.value c.args "retry_of" with
      | .null => pure none
      | value => some <$> stableId h value "retry_of"
    let call := Call.startChild c.parentAttemptId credential (← c.loadExecutionId) logicalId scope
      actions c.key retryOf c.revision
    record call
    let grant ← session.grant call
    match h.storeChildBearer c.parentAttemptId (← c.loadExecutionId) grant with
    | .ok _ => pure ()
    | .error _ => throw (.native "child_credential_storage_failed")
    session.publicValue "child_execution_grant" grant.value

def artifact (item : Json) : Except Error (String × String) := do
  let row ← jsonMapping item "artifact"
  let ref ← jsonMapping (Dict.value row "ref") "artifact_ref"
  if ¬ ref.all (fun e => e.1 ∈
      ["project_id", "kind", "entity_id", "definition_revision_id", "incarnation_id"]) then
    throw (.value "artifact_ref_fields_invalid")
  if Dict.value ref "kind" ≠ .str "artifact" then throw (.value "artifact_ref_kind_invalid")
  let typed ← session.artifactRef (← requiredText (Dict.value ref "entity_id") "artifact_id" 128)
  let digest ← h.sha256Digest (← requiredText (Dict.value row "digest") "digest" 64)
  pure (typed, digest)

def artifacts : Except Error (List (String × String)) :=
  match (Dict.get c.args "artifacts").getD (.arr []) with
  | .arr items =>
    if maxCollection < items.length then throw (.value "artifacts_invalid")
    else items.mapM (artifact h session)
  | _ => throw (.value "artifacts_invalid")

/-- A call of the session; its arguments are read before it is made. -/
def ask (call : Action Call) (kind : String) : Action Json := do
  let call ← call
  record call
  let value ← session.answer call
  session.publicValue kind value

def readExecution : Action Json :=
  ask session (do pure (.readChildExecution (← c.loadExecutionId))) "child_execution"

def submit : Action Json := do
  let artifacts ← artifacts h c session
  ask session (do
    let executionId ← c.loadExecutionId
    let candidateId ← stableId h (Dict.value c.args "candidate_id") "candidate_id"
    let summary ← requiredText (Dict.value c.args "summary") "summary" 4096
    pure (.submitChildCandidate executionId candidateId summary artifacts c.key c.revision))
    "child_operation"

def review : Action Json := do
  let decision ← requiredText (Dict.value c.args "decision") "decision" 16
  if decision ≠ "accepted" ∧ decision ≠ "rejected" then throw (.value "child_decision_invalid")
  let reason ← optionalReason (Dict.value c.args "reason")
  ask session (do
    let executionId ← c.loadExecutionId
    let candidateId ← requiredText (Dict.value c.args "candidate_id") "candidate_id" 128
    let reviewId ← stableId h (Dict.value c.args "review_id") "review_id"
    pure (.reviewChildCandidate executionId candidateId decision reviewId reason c.key c.revision))
    "child_operation"

def cancel : Action Json := do
  let reason ← optionalReason (Dict.value c.args "reason")
  ask session (do
    let executionId ← c.loadExecutionId
    let cancellationId ← stableId h (Dict.value c.args "cancellation_id") "cancellation_id"
    pure (.requestChildCancel executionId cancellationId reason c.key c.revision))
    "child_operation"

def reconcile : Action Json :=
  ask session (do pure (.reconcileChildStopped (← c.loadExecutionId) c.key c.revision))
    "child_operation"

/-- The nested function `action`. -/
def action (tool : ChildTool) : Action Json :=
  match tool with
  | .startChild => start h c session
  | .later .readChildExecution => readExecution c session
  | .later .submitChildCandidate => submit h c session
  | .later .reviewChildCandidate => review h c session
  | .later .cancelChild => cancel h c session
  | .later .reconcileChild => reconcile c session

end Branches

section Host

variable (h : Host)

/-- How `_guarded` reports an exception. -/
def rejection : Error → Error
  | .other (some code) false => .native (if code = "" then "native_operation_rejected" else code)
  | _ => .native "native_operation_rejected"

/-- `_guarded`: the calls that were made, and the outcome. -/
def guarded (session : Except Error Session) (operation : Session → Action Json) :
    List Call × Except Error Json :=
  match session with
  | .error e => ([], .error e)
  | .ok session =>
    let (result, frame) := (operation session).run.run ⟨none, []⟩
    let outcome : Except Error Json :=
      match result with
      | .ok data => .ok (.obj [("status", .str "ok"), ("data", data)])
      | .error (.native code) => .error (.native code)
      | .error e => .error (h.bindingAfterError.getD (rejection e))
    match h.onExit with
    | some e => (frame.calls, .error e)
    | none => (frame.calls, outcome)

def validated (tool : ChildTool) (args : Dict) : Except Error Captured := do
  let parentAttemptId ← requiredText (Dict.value args "parent_attempt_id") "parent_attempt_id" 128
  let executionId ← requiredText (Dict.value args "execution_id") "execution_id" 128
  let key ←
    if tool = .later .readChildExecution then pure none
    else some <$> stableId h (Dict.value args "idempotency_key") "idempotency_key"
  let revision ← optionalRevision (Dict.value args "expected_revision")
  pure ⟨args, parentAttemptId, executionId, key, revision⟩

/-- `_child_operation`. -/
def childOperation (tool : ChildTool) (project : String) (args : Dict)
    (repository : Option String) : List Call × Except Error Json :=
  match validated h tool args with
  | .error e => ([], .error e)
  | .ok c => guarded h (h.session project c.parentAttemptId repository) fun session =>
    action h c session tool

end Host

section Unbound

variable {α β : Type}

/-- Nothing is asked and nothing is bound, whatever comes out. -/
def Keeps (a : Action α) : Prop := ∀ frame, ∃ r, a.run.run frame = (r, frame)

/-- An exception before anything is asked, as long as the body has not bound `execution_id`. -/
def Fails (a : Action α) : Prop :=
  ∀ frame, frame.executionId = none → ∃ e, a.run.run frame = (.error e, frame)

theorem keeps_lift (e : Except Error α) : Keeps (liftM e : Action α) := by
  intro frame
  cases e with
  | ok x => exact ⟨.ok x, rfl⟩
  | error e => exact ⟨.error e, rfl⟩

theorem run_bind (a : Action α) (f : α → Action β) (frame : Frame) :
    (a >>= f).run.run frame =
      match a.run.run frame with
      | (.ok x, frame) => (f x).run.run frame
      | (.error e, frame) => (.error e, frame) := by
  rw [ExceptT.run_bind, StateT.run_bind]
  rcases a.run.run frame with ⟨r, frame⟩
  cases r with
  | ok x => rfl
  | error e => rfl

theorem Keeps.bind {a : Action α} {f : α → Action β} (ha : Keeps a) (hf : ∀ x, Fails (f x)) :
    Fails (a >>= f) := by
  intro frame hframe
  obtain ⟨r, hr⟩ := ha frame
  rw [run_bind, hr]
  cases r with
  | ok x => exact hf x frame hframe
  | error e => exact ⟨e, rfl⟩

theorem Fails.bind {a : Action α} (ha : Fails a) (f : α → Action β) : Fails (a >>= f) := by
  intro frame hframe
  obtain ⟨e, he⟩ := ha frame hframe
  rw [run_bind, he]
  exact ⟨e, rfl⟩

theorem fails_throw (e : Error) : Fails (throw e : Action α) := fun _ _ => ⟨e, rfl⟩

/-- The name is bound in the branch that starts a child, so no other branch sees the request's. -/
theorem fails_load (c : Captured) : Fails c.loadExecutionId := by
  intro frame hframe
  refine ⟨.unboundLocal "execution_id", ?_⟩
  unfold Captured.loadExecutionId load
  rw [if_pos (by decide), run_bind]
  change (match frame.executionId with
    | some v => (pure v : Action String)
    | none => throw (Error.unboundLocal "execution_id")).run.run frame = _
  rw [hframe]
  rfl

variable (h : Host) (c : Captured) (session : Session)

theorem fails_ask {call : Action Call} (hcall : Fails call) (kind : String) :
    Fails (ask session call kind) :=
  hcall.bind _

theorem fails_readExecution : Fails (readExecution c session) :=
  fails_ask session ((fails_load c).bind _) _

theorem fails_submit : Fails (submit h c session) :=
  (keeps_lift _).bind fun _ => fails_ask session ((fails_load c).bind _) _

theorem fails_review : Fails (review h c session) := by
  apply (keeps_lift _).bind
  intro decision
  dsimp only
  split
  · exact (fails_throw _).bind _
  · exact (keeps_lift _).bind fun _ => fails_ask session ((fails_load c).bind _) _

theorem fails_cancel : Fails (cancel h c session) :=
  (keeps_lift _).bind fun _ => fails_ask session ((fails_load c).bind _) _

theorem fails_reconcile : Fails (reconcile c session) :=
  fails_ask session ((fails_load c).bind _) _

theorem fails_action (tool : LaterTool) : Fails (action h c session (.later tool)) := by
  cases tool with
  | readChildExecution => exact fails_readExecution c session
  | submitChildCandidate => exact fails_submit h c session
  | reviewChildCandidate => exact fails_review h c session
  | cancelChild => exact fails_cancel h c session
  | reconcileChild => exact fails_reconcile c session

theorem guarded_of_fails {opened : Except Error Session} {operation : Session → Action Json}
    (hfails : ∀ session, Fails (operation session)) :
    ∃ e, guarded h opened operation = ([], .error e) := by
  cases opened with
  | error e => exact ⟨e, rfl⟩
  | ok session =>
    obtain ⟨e, he⟩ := hfails session ⟨none, []⟩ rfl
    unfold guarded
    dsimp only
    rw [he]
    cases h.onExit with
    | some e => exact ⟨e, rfl⟩
    | none =>
      cases e with
      | native code => exact ⟨_, rfl⟩
      | value text => exact ⟨_, rfl⟩
      | unboundLocal name => exact ⟨_, rfl⟩
      | other code stale => exact ⟨_, rfl⟩

/-- No later operation asks the session for anything, and each raises. -/
theorem childOperation_later (tool : LaterTool) (project : String) (args : Dict)
    (repository : Option String) :
    ∃ e, childOperation h (.later tool) project args repository = ([], .error e) := by
  unfold childOperation
  cases validated h (.later tool) args with
  | error e => exact ⟨e, rfl⟩
  | ok c => exact guarded_of_fails h fun session => fails_action h c session tool

end Unbound

section Lifecycle

/-- The kind of value that a tool returns. -/
def LaterTool.kind : LaterTool → String
  | .readChildExecution => "child_execution"
  | _ => "child_operation"

/-- One call of the session, for the execution of the request, and its public value as the
outcome. -/
def Reaches (h : Host) (tool : LaterTool) (project : String) (args : Dict)
    (repository : Option String) : Prop :=
  ∃ call, (childOperation h (.later tool) project args repository).1 = [call] ∧
    Dict.get args "execution_id" = some (.str call.executionId) ∧
    ∀ session parentAttemptId reply value,
      h.session project parentAttemptId repository = .ok session →
      session.answer call = .ok reply → session.publicValue tool.kind reply = .ok value →
      (childOperation h (.later tool) project args repository).2 =
        .ok (.obj [("status", .str "ok"), ("data", value)])

/-- On no host does an operation on a started child reach its execution. -/
theorem child_operation_never_reaches (h : Host) (tool : LaterTool) (project : String)
    (args : Dict) (repository : Option String) : ¬ Reaches h tool project args repository := by
  intro hreaches
  obtain ⟨call, hcalls, -, -⟩ := hreaches
  obtain ⟨e, he⟩ := childOperation_later h tool project args repository
  rw [he] at hcalls
  cases hcalls

def plainSession : Session where
  projectId := "project"
  grant := fun _ => .ok ⟨.null, "child", "bearer"⟩
  answer := fun _ => .ok .null
  artifactRef := .ok
  publicValue := fun _ value => .ok value

def plainHost : Host where
  principal := "mutator"
  profile := "mutator"
  session := fun _ _ _ => .ok plainSession
  childCredentialFor := some fun _ => .ok "credential"
  storeChildBearer := fun _ _ _ => .ok ()
  stableId := .ok
  sha256Digest := .ok
  attemptScope := .ok
  bindingAfterError := none
  onExit := none

def startArgs : Dict :=
  [("parent_attempt_id", .str "attempt-1"), ("execution_id", .str "execution-1"),
    ("idempotency_key", .str "key-1"), ("logical_id", .str "child-1"),
    ("scope", .obj [("paths", .arr []), ("locks", .arr [])]), ("actions", .arr [.str "read"])]

def readArgs : Dict :=
  [("parent_attempt_id", .str "attempt-1"), ("execution_id", .str "execution-1")]

/-- The child is started, and reading its execution is rejected without a call. -/
theorem started_child_is_not_read :
    childOperation plainHost .startChild "project" startArgs none =
        ([.startChild "attempt-1" "credential" "execution-1" "child-1" ⟨[], []⟩ ["read"]
          (some "key-1") none none], .ok (.obj [("status", .str "ok"), ("data", .null)])) ∧
      childOperation plainHost (.later .readChildExecution) "project" readArgs none =
        ([], .error (.native "native_operation_rejected")) ∧
      ¬ Reaches plainHost .readChildExecution "project" readArgs none := by
  refine ⟨rfl, rfl, ?_⟩
  intro hreaches
  obtain ⟨call, hcalls, -, -⟩ := hreaches
  cases hcalls

end Lifecycle

end ProjectControl.ChildOperations
