import ProjectControl.CompactIntent

/-! `next_task`, the authoring part of `finish_task` and the renewal of leases.
The in-process renewal lock is not modelled, so that every order of the steps of
calls in one or in several processes is allowed. -/

set_option autoImplicit false

namespace ProjectControl.Compact

open Resumption

/-- `_native_attention`. -/
def nativeAttention (data : Dict) (handle : Option Handle := none) : Response :=
  .attention ((reasonOf data).getD "native_operation_rejected") handle
    (if handle.isSome then ["inspect_task"] else [])

/-- `_optional_text`. -/
def optionalText (value : Dict) (key : String) : Except Err (Option String) :=
  match value.get key with
  | none | some .null => .ok none
  | some raw =>
    let entity := (raw.fields?.bind (fun fields => Dict.get fields "entity_id"))
    let raw : Json := match entity with
      | some (.str id) => .str id
      | _ => raw
    match raw.text? with
    | some text => .ok (some text)
    | none => .error (.workflow (key ++ "_invalid"))

/-- `_first_text`. -/
def firstText (value : Dict) (first : String) (others : List String) : Except Err String :=
  go (first :: others)
where
  go : List String → Except Err String
    | [] => .error (.workflow (first ++ "_missing"))
    | key :: rest => do
      match ← optionalText value key with
      | some text => .ok text
      | none => go rest

/-- `_nested_text`. -/
def nestedText (value : Dict) (keys : List String) : Option String :=
  (value.path keys).bind Json.text?

/-- `_generated_id`; the digest of the handle stands for the handle. -/
def generatedId (kind : String) (handle : Handle) : String := "pcw-" ++ kind ++ "-" ++ handle

structure Selection where
  taskId : String
  runId : Option String
  assignmentId : Option String
  planRevisionId : String
  authorityRevision : ℕ

/-- The checks that `next_task` makes of a selected candidate. -/
def readSelection (candidate : Dict) (requested : Request) : Except Err Selection := do
  let taskId ← firstText candidate "work_item_id" ["target_id", "task_id"]
  let runId ← optionalText candidate "run_id"
  let assignmentId ← optionalText candidate "assignment_id"
  let planRevisionId ← firstText candidate "plan_revision_id" ["plan_revision"]
  match ((candidate.get "authority_revision").or (candidate.get "observed_revision")).bind
      Json.nat? with
  | none => .error (.workflow "work_selection_revision_invalid")
  | some authorityRevision =>
    if requested.taskId ≠ none ∧ requested.taskId ≠ some taskId then
      .error (.workflow "work_selection_target_mismatch")
    else if requested.runId ≠ none ∧ requested.runId ≠ runId then
      .error (.workflow "work_selection_run_mismatch")
    else .ok ⟨taskId, runId, assignmentId, planRevisionId, authorityRevision⟩

/-- The changes that a selection makes to its record. -/
def preparedRecord (t : Target) (requested : Request) (candidate : Dict) (sel : Selection) :
    Record where
  phase := some .workspacePending
  selection := some candidate
  project := some t.project
  repository := some t.repository
  request := some requested
  taskId := some sel.taskId
  runId := some sel.runId
  assignmentId := some sel.assignmentId
  planRevisionId := some sel.planRevisionId
  authorityRevision := some sel.authorityRevision
  workspaceId := some (generatedId "ws" t.handle)
  createWorkspaceKey := some (operationKey t.handle .createWorkspace (.selection candidate))
  dispatchKey := some (operationKey t.handle .dispatchAttempt (.selection candidate))

def setNoWork (current : Record) : Except Err (Option Record) :=
  if current.phase ≠ some .selecting then .ok none
  else .ok (some { current with phase := some .noWork })

def saveSelection (prepared : Record) (current : Record) : Except Err (Option Record) :=
  if current.phase ≠ some .selecting then .ok none
  else .ok (some (current.merge prepared))

def isDigest (s : String) : Bool :=
  s.toList.length = 64 && s.toList.all (fun ch => ch ∈ "0123456789abcdef".toList)

/-- `_validate_handoff_proof`. -/
def validateHandoffProof (c : Codec) (proof : Dict) (record : Record) : Except Err Dict :=
  match nestedText proof ["attempt_id"], nestedText proof ["source_commit"],
      nestedText proof ["source_digest"] with
  | some attemptId, some _, some digest =>
    if some attemptId ≠ record.attemptId then
      .error (.workflow "authoring_handoff_proof_scope_mismatch")
    else if isDigest digest = false then
      .error (.workflow "authoring_handoff_source_digest_invalid")
    else if c.dictBytes proof > maxResultBytes then
      .error (.workflow "authoring_handoff_proof_too_large")
    else .ok proof
  | _, _, _ => .error (.workflow "authoring_handoff_proof_incomplete")

/-- The note of a report: the note and the reason that are given, by lines. -/
def combinedNote (note reason : Option String) : Option String :=
  match note.filter (· ≠ ""), reason.filter (· ≠ "") with
  | none, none => none
  | some n, none => some n
  | none, some r => some r
  | some n, some r => some (n ++ "\n" ++ r)

section Payloads

def workspacePayload (r : Record) (taskId planRevisionId workspaceId : String) : Payload :=
  ⟨.createWorkspace, [("assignment_id", .ofText? (r.assignmentId.getD none)),
    ("plan_revision_id", .str planRevisionId), ("run_id", .ofText? (r.runId.getD none)),
    ("work_item_id", .str taskId), ("workspace_id", .str workspaceId)]⟩

def dispatchPayload (r : Record) (taskId planRevisionId workspaceId : String) : Payload :=
  ⟨.dispatchAttempt, [("assignment_id", .ofText? (r.assignmentId.getD none)),
    ("plan_revision_id", .str planRevisionId), ("run_id", .ofText? (r.runId.getD none)),
    ("work_item_id", .str taskId), ("workspace_id", .str workspaceId)]⟩

def heartbeatPayload (attemptId leaseId planRevisionId : String) : Payload :=
  ⟨.heartbeatAttempt, [("attempt_id", .str attemptId), ("lease_id", .str leaseId),
    ("plan_revision_id", .str planRevisionId)]⟩

def resumePayload (attemptId leaseId planRevisionId taskId runId assignmentId : String) :
    Payload :=
  ⟨.resumeAttempt, [("assignment_id", .str assignmentId), ("attempt_id", .str attemptId),
    ("lease_id", .str leaseId), ("plan_revision_id", .str planRevisionId),
    ("run_id", .str runId), ("work_item_id", .str taskId)]⟩

def verifyPayload (r : Record) (requirementId : String) : Payload :=
  ⟨.verifyAttempt, [("attempt_id", .ofText? r.attemptId), ("requirement_id", .str requirementId)]⟩

def handbackPayload (r : Record) : Payload :=
  ⟨.handbackAttempt, [("attempt_id", .ofText? r.attemptId), ("lease_id", .ofText? r.leaseId)]⟩

def reportPayload (r : Record) (note : Option String) : Payload :=
  ⟨.reportOutcome, [("attempt_id", .ofText? r.attemptId),
    ("disposition", .ofText? ((r.outcomeDisposition.getD none).map Disposition.text)),
    ("note", .ofText? note)]⟩

def releasePayload (r : Record) : Payload :=
  ⟨.releaseAttempt, [("attempt_id", .ofText? r.attemptId), ("lease_id", .ofText? r.leaseId)]⟩

end Payloads

section Calls

variable {A : Type} (N : NativeHost A) (c : Codec)

/-- `_bounded_response`. -/
def respond (response : Response) : Host A Response :=
  if c.responseBytes response > maxResponseBytes then raise "workflow_response_too_large"
  else .done response

/-- A key that the code reads with `record[...]`. -/
def need {α : Type} : Option α → Host A α
  | some a => .done a
  | none => .fail .other

theorem need_bind {α β : Type} {x : Option α} {a : α} (hx : x = some a) (f : α → Host A β) :
    (need x >>= f) = f a := by
  rw [hx]
  rfl

def drawToken : Host A Handle := .atomic .read (fun s v => (s, .ok v.token))

/-- Goes on with the record unless the stage has already answered. -/
def andStage (stage : Host A (Response ⊕ Record)) (rest : Record → Host A Response) :
    Host A Response := do
  match ← stage with
  | .inl response => .done response
  | .inr record => rest record

/-- `_resume_active_locked`; `none` stands for the reply with status `ok`. -/
def resumeActive (t : Target) (record : Record) : Host A (Option Response) :=
  match record.attemptId, record.leaseId, record.taskId, record.runId.getD none,
      record.assignmentId.getD none, record.planRevisionId with
  | some attemptId, some leaseId, some taskId, some runId, some assignmentId,
      some planRevisionId =>
    if "" ∈ [attemptId, leaseId, taskId, runId, assignmentId, planRevisionId] then
      .done (some (.attention "workflow_attempt_binding_incomplete" (some t.handle)))
    else do
      let inspected ← serveRead N t.project t.repository .inspectAttempt
        [("attempt_id", .str attemptId)]
      if isAttention inspected then .done (some (nativeAttention inspected (some t.handle)))
      else do
        let generation := record.resumeGeneration.getD 0
        let (resumed, _) ← invokePhase N c t record (.resume generation)
          (resumePayload attemptId leaseId planRevisionId taskId runId assignmentId)
        if isAttention resumed then .done (some (nativeAttention resumed (some t.handle)))
        else
          match nestedText resumed ["result", "lease_id"] with
          | none => .done (some (.attention "attempt_resume_receipt_incomplete" (some t.handle)))
          | some nextLease => do
            let _ ← storeUpdate c t none
              { leaseId := some nextLease, resumeGeneration := some (generation + 1),
                lastResumeReceipt := some resumed, lastAttemptInspection := some inspected,
                renewalAttention := some none }
            .done none
  | _, _, _, _, _, _ =>
    .done (some (.attention "workflow_attempt_binding_incomplete" (some t.handle)))

/-- `_heartbeat_active`. -/
def heartbeatActive (t : Target) (record : Record) : Host A (Option Response) :=
  match record.attemptId, record.leaseId, record.planRevisionId with
  | some attemptId, some leaseId, some planRevisionId => do
    let generation := record.heartbeatGeneration.getD 0
    let (renewed, _) ← invokePhase N c t record (.heartbeat generation)
      (heartbeatPayload attemptId leaseId planRevisionId)
    if isAttention renewed then .done (some (nativeAttention renewed (some t.handle)))
    else
      match nestedText renewed ["result", "lease_id"] with
      | none => .done (some (.attention "lease_renewal_receipt_incomplete" (some t.handle)))
      | some nextLease => do
        let _ ← storeUpdate c t none
          { leaseId := some nextLease, heartbeatGeneration := some (generation + 1),
            lastHeartbeatReceipt := some renewed, renewalAttention := some none }
        .done none
  | _, _, _ => .done (some (.attention "workflow_attempt_binding_incomplete" (some t.handle)))

def noteRenewal (t : Target) (reason : String) : Host A Unit := do
  let _ ← storeUpdate c t none { renewalAttention := some (some reason) }
  .done ()

/-- One pass of `_lease_renewal_loop`. -/
def renewalPass (t : Target) : Host A Unit :=
  Prog.tryCatch
    (do
      let record ← storeGet c t
      if record.phase = some .active ∨ record.phase = some .contextPending then do
        match ← heartbeatActive N c t record with
        | some (.attention reason _ _ _) => noteRenewal c t reason
        | _ => .done ()
      else .done ())
    (fun _ => Prog.tryCatch (noteRenewal c t "lease_renewal_failed") (fun _ => .done ()))

/-- The requirements of `_run_gates_locked`, one request after the other. -/
def verifyAll (t : Target) (record : Record) :
    List String → List (String × Dict) → Host A Response
  | [], results => respond c (.verified results.reverse t.handle)
  | requirementId :: rest, results => do
    let (result, _) ← invokePhase N c t record (.verify requirementId)
      (verifyPayload record requirementId)
    if isAttention result then .done (nativeAttention result (some t.handle))
    else verifyAll t record rest ((requirementId, result) :: results)

/-- `_run_gates`; without a list the record's own requirements are run. -/
def runGates (t : Target) (record : Record) (requested : Option (List String)) :
    Host A Response :=
  let declared := record.requirementIds.getD []
  let requested := requested.getD declared
  if requested.all (· ∈ declared) then verifyAll N c t record requested []
  else raise "requirement_not_declared_in_plan"

/-- The phase `selecting` of `next_task`. -/
def selectWork (t : Target) (requested : Request) (record : Record) :
    Host A (Response ⊕ Record) := do
  let choice ← invoke N .selectNextWork record
    [("run_id", .ofText? requested.runId), ("work_item_id", .ofText? requested.taskId)]
  if isAttention choice then .done (.inl (nativeAttention choice))
  else
    match (choice.get "selection").getD (.obj choice) with
    | .null => do
      let record ← storeAtomic c (.select t.handle) t setNoWork
      if record.phase = some .noWork then do
        let response ← respond c .noWork
        .done (.inl response)
      -- another request selected first; the missing choice is then refused
      else raise "work_selection_invalid"
    | .obj candidate =>
      if c.dictBytes candidate > maxPreviewBytes then raise "work_selection_too_large"
      else do
        let sel ← Prog.ofExcept (readSelection candidate requested)
        let record ← storeAtomic c (.select t.handle) t
          (saveSelection (preparedRecord t requested candidate sel))
        if record.phase = some .selecting then
          .done (.inl (.attention "workflow_selection_conflict" (some t.handle)))
        else .done (.inr record)
    | _ => raise "work_selection_invalid"

/-- The phase `workspace_pending`: the whole local record is written back. -/
def createWorkspace (t : Target) (record : Record) : Host A (Response ⊕ Record) := do
  let taskId ← need record.taskId
  let planRevisionId ← need record.planRevisionId
  let workspaceId ← need record.workspaceId
  let (workspace, record) ← invokePhase N c t record .createWorkspace
    (workspacePayload record taskId planRevisionId workspaceId)
    record.authorityRevision record.createWorkspaceKey
  if isAttention workspace then .done (.inl (nativeAttention workspace))
  else do
    let record := { record with phase := some .dispatchPending, workspace := some workspace }
    let _ ← storeUpdate c t (some .workspacePending) record
    .done (.inr record)

/-- The attempt that a dispatch receipt names. -/
def dispatchedAttempt (receipt : Dict) : Except Err (Option String) :=
  match nestedText receipt ["attempt_ref", "entity_id"] with
  | some id => .ok (some id)
  | none => optionalText receipt "attempt_id"

/-- The phase `dispatch_pending`: again the whole local record is written back. -/
def dispatchAttempt (t : Target) (record : Record) : Host A (Response ⊕ Record) := do
  let taskId ← need record.taskId
  let planRevisionId ← need record.planRevisionId
  let workspaceId ← need record.workspaceId
  let (dispatched, record) ← invokePhase N c t record .dispatchAttempt
    (dispatchPayload record taskId planRevisionId workspaceId) none record.dispatchKey
  if isAttention dispatched then .done (.inl (nativeAttention dispatched (some t.handle)))
  else do
    let attemptId ← Prog.ofExcept (dispatchedAttempt dispatched)
    let leaseId ← Prog.ofExcept (optionalText dispatched "lease_id")
    match attemptId, leaseId with
    | some attemptId, some leaseId => do
      let record := { record with
        phase := some .contextPending, attemptId := some attemptId, leaseId := some leaseId,
        dispatchReceipt := some dispatched }
      let _ ← storeUpdate c t (some .dispatchPending) record
      .done (.inr record)
    | _, _ => raise "dispatch_receipt_incomplete"

/-- The context capsule of a task and the checks it declares. Unwrapping the
document and expanding its work item only read. -/
def prepareCapsule : Host A (Dict × List String) :=
  .atomic (.native .buildContext) (fun s v => match v.capsule with
    | .ok capsule => (s, .ok capsule)
    | .error code => (s, .error (.workflow code)))

/-- The phase `context_pending`: only the context fields are merged. -/
def buildContext (t : Target) (record : Record) : Host A (Response ⊕ Record) := do
  let taskId ← need record.taskId
  let attemptId ← need record.attemptId
  let context ← invoke N .buildContext record
    [("assignment_id", .ofText? (record.assignmentId.getD none)),
      ("attempt_id", .str attemptId), ("max_bytes", .num 4096),
      ("run_id", .ofText? (record.runId.getD none)), ("work_item_id", .str taskId)]
  if isAttention context then .done (.inl (nativeAttention context (some t.handle)))
  else if c.dictBytes context > maxContextCapsuleBytes then raise "task_context_too_large"
  else do
    let (capsule, requirementIds) ← prepareCapsule
    let record ← storeUpdate c t (some .contextPending)
      { phase := some .active, context := some capsule,
        requirementIds := some requirementIds }
    .done (.inr record)

/-- Runs a stage when the record is in its phase. -/
def whenPhase (phase : Phase) (stage : Record → Host A (Response ⊕ Record)) (record : Record) :
    Host A (Response ⊕ Record) :=
  if record.phase = some phase then stage record else .done (.inr record)

/-- Renews the lease of an active record and answers with its packet. -/
def resumeTask (t : Target) (record : Record) : Host A Response := do
  match ← resumeActive N c t record with
  | some response => .done response
  | none => do
    let _ ← storeGet c t
    respond c (.task t.handle true)

/-- The answer of `next_task` once the stages are done. -/
def answerTask (t : Target) (isNew : Bool) (record : Record) : Host A Response :=
  if record.phase = some .reviewPending then respond c (.reviewPending t.handle record.taskId)
  else if record.phase ≠ some .active then
    .done (.attention "workflow_recovery_required" (some t.handle)
      ["inspect_task", "finish_task"])
  else if isNew then respond c (.task t.handle false)
  else resumeTask N c t record

/-- What `next_task` does with the record that it reserved or resumes. -/
def advanceTask (t : Target) (requested : Request) (isNew : Bool) (record : Record) :
    Host A Response :=
  if record.phase = some .active ∧ record.context.isSome then resumeTask N c t record
  else if record.phase = some .noWork then respond c .noWork
  else
    andStage (whenPhase .selecting (selectWork N c t requested) record) fun record =>
    andStage (whenPhase .workspacePending (createWorkspace N c t) record) fun record =>
    andStage (whenPhase .dispatchPending (dispatchAttempt N c t) record) fun record =>
    andStage (whenPhase .contextPending (buildContext N c t) record) fun record =>
    answerTask N c t isNew record

def reserveWorkflow (project repository : String) (requested : Request) :
    Host A (Handle × Record × Bool) :=
  .await .reserve (fun s v => s.journal.fresh v.token)
    (fun s v => onJournal (fun j => Store.reserveWorkflow c j project repository requested v.token) s)

def reserveReview (project repository : String) (candidate : ReviewCandidate) :
    Host A (Handle × Record × Bool) :=
  .await .reserve (fun s v => s.journal.fresh v.token)
    (fun s v => onJournal (fun j => Store.reserveReview c j project repository
      (candidate.record project repository) v.token) s)

/-- `_next_pending_review`: the candidate that the authority's pages name first. -/
def nextPendingReview : Host A (Option ReviewCandidate) :=
  .atomic (.native .readAuthority) (fun s v => match v.review with
    | .ok candidate => (s, .ok candidate)
    | .error code => (s, .error (.workflow code)))

/-- The review that a mutator is handed before authoring work of its own. -/
def pendingReview (mutator : Bool) (project repository : String) (requested : Request) :
    Host A (Option ReviewCandidate) :=
  if mutator then do
    match ← Prog.atomic .read (fun s _ =>
        (s, Store.findCurrentWorkflow c s.journal project repository requested)) with
    | none => nextPendingReview
    | some _ => .done none
  else .done none

/-- The handler at the end of a tool: errors become a request for attention. -/
def orAttention (handle : Option Handle) (failed : String) (body : Host A Response) :
    Host A Response :=
  body.tryCatch (fun e => match e with
    | .workflow code => .done (.attention code handle)
    | .other => .done (.attention failed handle))

/-- `next_task` on a resolved scope. -/
def nextTask (mutator : Bool) (project repository : String) (requested : Request) :
    Host A Response :=
  orAttention none "compact_workflow_next_task_failed" (do
    match ← pendingReview c mutator project repository requested with
    | some candidate => do
      let (handle, record, _) ← reserveReview c project repository candidate
      respond c (.reviewRequired handle record.taskId record.candidateDisposition)
    | none => do
      let (handle, record, isNew) ← reserveWorkflow c project repository requested
      advanceTask N c ⟨handle, project, repository⟩ requested isNew
        { record with project := some project, repository := some repository })

/-- `_handle`, with the scope written into the record. -/
def resolveHandle (handle : Handle) : Host A (Target × Record) :=
  .atomic .read (fun s _ => (s, (Store.getAnyScope c s.journal handle).map
    (fun row => (⟨handle, row.1, row.2.1⟩,
      { row.2.2 with project := some row.1, repository := some row.2.1 }))))

def FinishAction.disposition : FinishAction → Option Disposition
  | .complete => some .completed
  | .handoff => some .noChange
  | .block => some .failed
  | _ => none

/-- The immutable finish request that is recorded on an active handle. -/
def finishRecord (handle : Handle) (action : FinishAction) (note reason : Option String)
    (token : Handle) : Record where
  phase := some .handbackPending
  finishAction := some action
  outcomeDisposition := some action.disposition
  finishNote := some note
  finishReason := some reason
  candidateHandle := some (if action.disposition.isSome then some token else none)
  reportKey := some (operationKey handle .finishReport
    (.finish action action.disposition note reason))
  handbackKey := some (operationKey handle .finishHandback .empty)
  releaseKey := some (operationKey handle .finishRelease .empty)

/-- The gates that a completion runs before it is recorded. -/
def finishGates (t : Target) (record : Record) (action : FinishAction) : Host A Response :=
  if action = .complete then runGates N c t record none else .done (.verified [] t.handle)

/-- `finish_task` on a record in phase `active`. -/
def recordFinish (t : Target) (record : Record) (action : FinishAction)
    (disposition note reason : Option String) : Host A (Response ⊕ Record) :=
  if action = .complete ∧ disposition ≠ none ∧ disposition ≠ some "completed" then
    raise "completion_disposition_conflicts"
  else do
    let gates ← finishGates N c t record action
    if gates.isAttention then .done (.inl gates)
    else do
      let record ← storeGet c t
      let record := { record with project := some t.project, repository := some t.repository }
      let token ← drawToken
      let finish := finishRecord t.handle action note reason token
      let _ ← storeUpdate c t (some .active) finish
      .done (.inr (record.merge finish))

/-- `finish_task` on a record whose finish request is already recorded. -/
def checkFinish (record : Record) (action : FinishAction) (note reason : Option String) :
    Host A (Response ⊕ Record) :=
  if record.finishAction ≠ some action then
    raise "finish_action_conflicts_with_pending_operation"
  else if note ≠ none ∧ some note ≠ record.finishNote then
    raise "finish_note_conflicts_with_pending_operation"
  else if reason ≠ none ∧ some reason ≠ record.finishReason then
    raise "finish_reason_conflicts_with_pending_operation"
  else .done (.inr record)

/-- The phase `handback_pending`. -/
def handBack (t : Target) (record : Record) : Host A (Response ⊕ Record) := do
  let (handback, record) ← invokePhase N c t record .finishHandback (handbackPayload record)
    none record.handbackKey
  if isAttention handback then .done (.inl (nativeAttention handback (some t.handle)))
  else do
    let proof ← Prog.ofExcept (validateHandoffProof c handback record)
    let next := if (record.outcomeDisposition.getD none).isSome then .reportPending
      else Phase.releasePending
    let record := { record with handbackProof := some proof, phase := some next }
    let _ ← storeUpdate c t (some .handbackPending)
      { handbackProof := some proof, phase := some next }
    .done (.inr record)

/-- The phase `report_pending`. -/
def reportOutcome (t : Target) (record : Record) : Host A (Response ⊕ Record) := do
  let note := combinedNote (record.finishNote.getD none) (record.finishReason.getD none)
  let (report, record) ← invokePhase N c t record .finishReport (reportPayload record note)
    none record.reportKey
  if isAttention report then .done (.inl (nativeAttention report (some t.handle)))
  else
    match nestedText report ["candidate_ref", "entity_id"] with
    | none => .done (.inl (.attention "outcome_report_receipt_incomplete" (some t.handle)))
    | some candidateId => do
      let _ ← storeUpdate c t (some .reportPending)
        { candidateId := some candidateId, reportReceipt := some report,
          phase := some .reviewPending }
      let response ← respond c (.reviewPending t.handle record.taskId)
      .done (.inl response)

/-- The phase `release_pending`. -/
def releaseAttempt (t : Target) (record : Record) : Host A (Response ⊕ Record) := do
  let (released, _) ← invokePhase N c t record .finishRelease (releasePayload record)
    none record.releaseKey
  if isAttention released then .done (.inl (nativeAttention released (some t.handle)))
  else do
    let _ ← storeUpdate c t (some .releasePending)
      { phase := some .released, releaseReceipt := some released }
    let response ← respond c (.terminal .released t.handle)
    .done (.inl response)

/-- The authoring actions of `finish_task` on a record that was read. -/
def finishRecorded (t : Target) (record : Record) (action : FinishAction)
    (disposition note reason : Option String) : Host A Response :=
  if record.mode = some .review then raise "authoring_handle_required"
  else
    match record.phase with
    | some .reviewPending => respond c (.reviewPending t.handle record.taskId)
    | some .released => respond c (.terminal .released t.handle)
    | some .reviewAccepted => respond c (.terminal .reviewAccepted t.handle)
    | some .reviewRejected => respond c (.terminal .reviewRejected t.handle)
    | some .integrated => respond c (.terminal .integrated t.handle)
    | some .active => finish (recordFinish N c t record action disposition note reason)
    | some .handbackPending | some .reportPending | some .releasePending =>
      finish (checkFinish record action note reason)
    | _ => raise "workflow_attempt_not_active"
where
  finish (recorded : Host A (Response ⊕ Record)) : Host A Response :=
    andStage recorded fun record =>
    andStage (whenPhase .handbackPending (handBack N c t) record) fun record =>
    andStage (whenPhase .reportPending (reportOutcome N c t) record) fun record =>
    andStage (whenPhase .releasePending (releaseAttempt N c t) record) fun _ =>
    .done (.attention "workflow_recovery_required" (some t.handle))

def checkTexts (note reason : Option String) : Host A Unit :=
  if note.all (fun text => c.safeComponent text 4000) = false then raise "note_invalid"
  else if reason.all (fun text => c.safeComponent text 2000) = false then raise "reason_invalid"
  else .done ()

/-- `finish_task` with the actions `complete`, `handoff`, `block` and `release`. -/
def finishAuthoring (handle : Handle) (action : FinishAction)
    (disposition note reason : Option String) : Host A Response :=
  orAttention (some handle) "compact_workflow_finish_failed" (do
    checkTexts c note reason
    let (t, record) ← resolveHandle c handle
    finishRecorded N c t record action disposition note reason)

end Calls

end ProjectControl.Compact
