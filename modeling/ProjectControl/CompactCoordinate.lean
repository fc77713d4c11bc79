import ProjectControl.CompactHost

/-! `coordinate_task`, the reviewing part of `finish_task`, and the pool of the
calls that share one journal. -/

set_option autoImplicit false

namespace ProjectControl.Compact

open Resumption

section Arguments

/-- `required`: the named fields, all of which must be given. -/
def required (fields : Dict) : List String → Except Err Dict
  | [] => .ok []
  | name :: rest =>
    match fields.get name with
    | none => .error (.workflow (name ++ "_missing"))
    | some value => do
      let others ← required fields rest
      .ok ((name, value) :: others)

/-- The fields of a list of names that are given. -/
def given (fields : Dict) (names : List String) : Dict :=
  names.filterMap (fun name => (fields.get name).map (fun value => (name, value)))

def contextArguments (r : Record) : Dict :=
  [("run_id", .ofText? (r.runId.getD none)),
    ("assignment_id", .ofText? (r.assignmentId.getD none)), ("attempt_id", .ofText? r.attemptId)]

/-- The native tool of a declaration action and the values it requires. -/
def declarationTool : CoordinateAction → Option (Tool × List String)
  | .arrive | .arriveRendezvous => some (.arriveRendezvous, ["participant"])
  | .publishInterface => some (.publishInterface, ["version", "rationale"])
  | .resolveDecision => some (.resolveDecision, ["option_id", "rationale"])
  | .acceptCheckpoint => some (.acceptCheckpoint, ["evidence_ids", "rationale"])
  | .releaseBarrier => some (.releaseBarrier, ["rationale"])
  | .openBlocker => some (.openBlocker, ["reason"])
  | .clearBlocker => some (.clearBlocker, ["reason"])
  | _ => none

def declarationArguments (fields : Dict) (r : Record) (tool : Tool) (names : List String) :
    Except Err Payload :=
  match r.planRevisionId.filter (· ≠ "") with
  | none => .error (.workflow "plan_revision_unavailable")
  | some planRevisionId => do
    let declaration ← required fields ["declaration_id"]
    let values ← required fields names
    .ok ⟨tool, contextArguments r ++ declaration ++
      [("plan_revision_id", .str planRevisionId)] ++ values⟩

def needAttempt (r : Record) : Except Err String :=
  match r.attemptId.filter (· ≠ "") with
  | none => .error (.workflow "attempt_unavailable")
  | some attemptId => .ok attemptId

def decisionOf (action : CoordinateAction) (fields : Dict) : Json :=
  match action with
  | .acceptChild => .str "accepted"
  | .rejectChild => .str "rejected"
  | _ => (fields.get "decision").getD .null

/-- `_coordinate_arguments`. -/
def coordinateArguments (handle : Handle) (action : CoordinateAction) (fields : Dict)
    (r : Record) : Except Err Payload :=
  let context := contextArguments r
  let parent : Dict := [("parent_attempt_id", .ofText? r.attemptId)]
  match action with
  | .sync =>
    let scope := Json.obj [("kind", .str "attempt"), ("entity_id", .ofText? r.attemptId)]
    .ok ⟨.syncInbox, context ++ [("scope", (fields.get "scope").getD scope),
      ("limit", (fields.get "limit").getD (.num 50))]⟩
  | .message => do
    let needed ← required fields ["scope", "recipients", "subject"]
    .ok ⟨.sendMessage,
      context ++ needed ++ given fields ["message_type", "body", "content_ref"]⟩
  | .answer => do
    let needed ← required fields ["question_id"]
    .ok ⟨.answerQuestion, context ++ needed ++ given fields ["body", "content_ref"]⟩
  | .publishContext | .publishFinding => do
    let needed ← required fields ["work_item_id", "source_manifest"]
    let source ← required fields ["source_fragment_refs", "summary"]
    .ok ⟨.publishFinding, context ++ needed ++ source ++
      given fields ["finding_id", "expected_finding_version"]⟩
  | .invalidateFinding => do
    let needed ← required fields ["work_item_id", "source_manifest"]
    let finding ← required fields ["finding_id", "finding_version", "reason"]
    .ok ⟨.invalidateFinding, context ++ needed ++ finding⟩
  | .fork | .startChild => do
    let needed ← required fields ["scope", "actions"]
    .ok ⟨.startChild, parent ++ needed ++
      [("logical_id", (fields.get "logical_id").getD (.str (generatedId "logical" handle))),
        ("execution_id", (fields.get "execution_id").getD (.str (generatedId "child" handle)))] ++
      given fields ["retry_of"]⟩
  | .acceptChild | .rejectChild | .reviewChildCandidate => do
    let needed ← required fields ["execution_id", "candidate_id"]
    .ok ⟨.reviewChildCandidate, parent ++ needed ++ [("decision", decisionOf action fields),
      ("review_id", (fields.get "review_id").getD (.str (generatedId "review" handle)))] ++
      given fields ["reason"]⟩
  | .submitChildCandidate => do
    let needed ← required fields ["execution_id", "candidate_id", "summary"]
    .ok ⟨.submitChildCandidate, parent ++ needed ++
      [("artifacts", (fields.get "artifacts").getD (.arr []))]⟩
  | .cancelChild => do
    let needed ← required fields ["execution_id"]
    .ok ⟨.cancelChild, parent ++ needed ++ [("cancellation_id",
      (fields.get "cancellation_id").getD (.str (generatedId "cancel" handle)))] ++
      given fields ["reason"]⟩
  | .reconcileChild => do
    let needed ← required fields ["execution_id"]
    .ok ⟨.reconcileChild, parent ++ needed⟩
  | .recover => do
    let needed ← required fields ["intent"]
    .ok ⟨.applyRecovery, needed⟩
  | .integrate => do
    let attemptId ← needAttempt r
    .ok ⟨.integrateAttempt, [("attempt_id", .str attemptId)]⟩
  | .acceptOutcome => candidateArguments .acceptOutcome
  | .rejectOutcome => candidateArguments .rejectOutcome
  | .reserveResource => do
    let attemptId ← needAttempt r
    let needed ← required fields ["resource_class", "units"]
    .ok ⟨.reserveResource, ("attempt_id", .str attemptId) :: needed⟩
  | .reconcileResource => resourceArguments .reconcileResource
  | .retryResource => resourceArguments .retryResource
  | .releaseResource => resourceArguments .releaseResource
  | action =>
    match declarationTool action with
    | some (tool, names) => declarationArguments fields r tool names
    | none => .error (.workflow "workflow_action_unsupported")
where
  candidateArguments (tool : Tool) : Except Err Payload :=
    match r.attemptId.filter (· ≠ ""), r.candidateId with
    | some attemptId, some candidateId =>
      .ok ⟨tool, [("attempt_id", .str attemptId), ("candidate_id", .str candidateId)]⟩
    | _, _ => .error (.workflow "candidate_unavailable")
  resourceArguments (tool : Tool) : Except Err Payload := do
    let needed ← required fields ["operation_id"]
    .ok ⟨tool, needed⟩

/-- `_git_integration_result`. -/
def gitIntegrationResult (result : Dict) : IntegrationResult :=
  let empty : IntegrationResult := ⟨false, none, "unknown", none, "integration_receipt_invalid"⟩
  if result.get "format" ≠ some (.str "todo-orchestrator.api-document") ∨
      result.get "version" ≠ some (.num 1) ∨ result.get "kind" ≠ some (.str "git_effect") then
    empty
  else
    match (result.get "payload").bind Json.fields? with
    | none => empty
    | some payload =>
      let operationId := textOf (Dict.get payload "operation_id")
      let state := (textOf (Dict.get payload "state")).getD "unknown"
      let observation := (Dict.get payload "observation").bind Json.fields?
      let disposition := observation.bind (fun o => textOf (Dict.get o "disposition"))
      let reason :=
        if textOf (Dict.get payload "state") = some state ∧
            state ∈ ["dirty", "conflict", "unknown", "not_applied", "rejected"] then
          "integration_" ++ state
        else "integration_not_confirmed_applied"
      let fields : IntegrationResult := ⟨false, operationId, state, disposition, reason⟩
      match operationId.filter (· ≠ ""), observation with
      | some id, some o =>
        if Dict.path payload ["request", "operation"] ≠ some (.str "integrate") ∨
            Dict.get o "operation_id" ≠ some (.str id) then fields
        else if state = "finalized" ∧ disposition = some "applied" ∧
            (textOf (Dict.get o "resulting_source")).any isDigest then
          { fields with applied := true, reason := "integration_applied" }
        else fields
      | _, _ => fields
where
  textOf : Option Json → Option String
    | some (.str s) => some s
    | _ => none

/-- `_recovery_payload`. -/
def recoveryPayload (result : Dict) : Dict :=
  if result.get "format" = some (.str "todo-orchestrator.api-document") then
    match (result.get "payload").bind Json.fields? with
    | some payload =>
      if result.get "kind" = some (.str "recovery") ∧ result.get "version" = some (.num 1) then
        payload
      else []
    | none => []
  else result

/-- The recovery dispositions that release an attempt. -/
def requestsRelease (payload : Dict) : Bool :=
  payload.get "disposition" = some (.str "release_expired_attempt") ||
    payload.get "disposition" = some (.str "handoff_dirty_workspace")

/-- `_recovery_confirms_attempt_release`. -/
def recoveryConfirmsAttemptRelease (result : Dict) (record : Record) : Bool :=
  let payload := recoveryPayload result
  match record.attemptId, record.leaseId with
  | some attemptId, some leaseId =>
    requestsRelease payload &&
    payload.path ["intent", "kind"] = payload.get "disposition" &&
    payload.path ["intent", "attempt", "entity_id"] = some (.str attemptId) &&
    payload.path ["intent", "expected_lease_id"] = some (.str leaseId) &&
    payload.path ["result", "receipt", "command_kind"] =
      some (.str "todo.attempt.reconcile_expired") &&
    payload.path ["result", "receipt", "result", "attempt_id"] = some (.str attemptId) &&
    payload.path ["result", "receipt", "result", "state"] = some (.str "released")
  | _, _ => false

end Arguments

section Calls

variable {A : Type} (N : NativeHost A) (c : Codec)

/-- What a completed operation is answered with when it is asked for again. -/
def replayOperation (t : Target) (action : CoordinateAction) (record : Record) (result : Dict) :
    Host A Response := do
  if action = .recover ∧ recoveryConfirmsAttemptRelease result record then do
    let _ ← storeUpdate c t record.phase
      { phase := some .released, releaseReceipt := some result }
    respond c (.coordinated action t.handle (some result))
  else if action = .integrate then
    let integration := gitIntegrationResult result
    if integration.applied then do
      let _ ← storeUpdate c t record.phase
        { phase := some .integrated, integrationReceipt := some result,
          integrationOperationId := integration.operationId }
      respond c (.coordinated action t.handle (some result))
    else respond c (.integration t.handle integration)
  else respond c (.coordinated action t.handle (some result))

/-- The changes that the result of an action makes to its record. -/
def coordinateChanges (action : CoordinateAction) (record : Record) (result : Dict)
    (operations : ActionId → Option OperationEntry) : Record :=
  let changes : Record := { operations := some operations }
  match action with
  | .recover =>
    if recoveryConfirmsAttemptRelease result record then
      { changes with phase := some .released, releaseReceipt := some result }
    else changes
  | .publishFinding | .publishContext =>
    { changes with findingId := nestedText result ["finding_ref", "entity_id"] }
  | .integrate =>
    let integration := gitIntegrationResult result
    let changes := { changes with
      integrationReceipt := some result, integrationOperationId := integration.operationId }
    if integration.applied then { changes with phase := some .integrated } else changes
  | .acceptOutcome => { changes with phase := some .reviewAccepted }
  | .rejectOutcome => { changes with phase := some .reviewRejected }
  | _ => changes

def coordinateAnswer (t : Target) (action : CoordinateAction) (record : Record) (result : Dict) :
    Host A Response :=
  if action = .integrate ∧ (gitIntegrationResult result).applied = false then
    respond c (.integration t.handle (gitIntegrationResult result))
  else if action = .recover ∧ requestsRelease (recoveryPayload result) ∧
      recoveryConfirmsAttemptRelease result record = false then
    .done (.attention "recovery_result_does_not_confirm_attempt_release" (some t.handle)
      ["inspect_task"] (some "inspect_task(recovery)"))
  else respond c (.coordinated action t.handle (some result))

/-- The part of `_execute_coordinate_action` that sends the request. -/
def sendOperation (t : Target) (action : CoordinateAction) (fields : Dict) (record : Record)
    (payload : Payload) : Host A Response := do
  let actionId : ActionId := ⟨action, fields⟩
  let (result, _) ← invokePhase N c t record (.coordinate actionId) payload
  if isAttention result then .done (nativeAttention result (some t.handle))
  else do
    let current ← storeGet c t
    match current.intent (.coordinate actionId) with
    | none => raise "workflow_phase_intent_unavailable"
    | some intent => do
      let entry : OperationEntry := ⟨action, intent.idempotencyKey, none⟩
      let operations := Function.update (record.operations.getD (fun _ => none)) actionId
        (some entry)
      let _ ← storeUpdate c t record.phase { operations := some operations }
      if c.dictBytes result > maxResultBytes then raise "workflow_action_result_too_large"
      else do
        let operations := Function.update operations actionId
          (some { entry with result := some result })
        let _ ← storeUpdate c t record.phase (coordinateChanges action record result operations)
        coordinateAnswer c t action record result

/-- `_execute_coordinate_action`. -/
def executeCoordinateAction (t : Target) (action : CoordinateAction) (fields : Dict)
    (record : Record) : Host A Response := do
  let payload ← Prog.ofExcept (coordinateArguments t.handle action fields record)
  match (record.operation ⟨action, fields⟩).bind OperationEntry.result with
  | some result => replayOperation c t action record result
  | none => sendOperation N c t action fields record payload

/-- The review actions that a phase of a review record allows. -/
def reviewActionAllowed (action : CoordinateAction) (phase : Option Phase) : Bool :=
  match action with
  | .acceptOutcome => phase = some .reviewPending || phase = some .reviewAccepted
  | .rejectOutcome => phase = some .reviewPending || phase = some .reviewRejected
  | .integrate => phase = some .reviewAccepted || phase = some .integrated
  | _ => false

/-- A failed finish retains its immutable request, and only native recovery may
reconcile such a pending handle. -/
def authoringActionAllowed (action : CoordinateAction) (phase : Option Phase) : Bool :=
  phase = some .active || action = .recover && (phase = some .handbackPending ||
    phase = some .reportPending || phase = some .releasePending)

/-- The checks before `_execute_coordinate_action`. -/
def checkCoordinate (action : CoordinateAction) (record : Record) : Except Err Unit :=
  if record.mode = some .review then
    if reviewActionAllowed action record.phase = false then
      .error (.workflow "review_action_not_permitted")
    else if record.attemptId.isNone ∨ record.candidateId.isNone then
      .error (.workflow "candidate_unavailable")
    else .ok ()
  else if authoringActionAllowed action record.phase = false then
    .error (.workflow "workflow_attempt_not_active")
  else if action = .integrate ∨ action = .acceptOutcome ∨ action = .rejectOutcome then
    .error (.workflow "review_handle_required")
  else .ok ()

/-- A list of texts; anything else is refused with `code`. -/
def textList (code : String) : Json → Except Err (List String)
  | .arr items => items.mapM (fun item => match item with
    | .str s => .ok s
    | _ => .error (.workflow code))
  | _ => .error (.workflow code)

/-- The note or the reason among the fields of an action. -/
def textField (fields : Dict) (name : String) : Except Err (Option String) :=
  match fields.get name with
  | none | some .null => .ok none
  | some (.str s) => .ok (some s)
  | some _ => .error (.workflow (name ++ "_invalid"))

def bindRequiredGates (handle : Handle) (fields : Dict) (record : Record) : Host A Response := do
  let requested ← Prog.ofExcept (textList "required_gates_invalid"
    (((fields.get "required_gates").or (fields.get "gate_ids")).getD (.arr [])))
  let declared := record.requirementIds.getD []
  if requested.all (· ∈ declared) && declared.all (· ∈ requested) then
    respond c (.gatesBound declared handle)
  else respond c (.needsPlanChange declared handle)

/-- `finish_task` as `coordinate_task` calls it, with the note and reason given. -/
def finishFromFields (handle : Handle) (action : FinishAction) (fields : Dict) :
    Host A Response :=
  orAttention (some handle) "compact_workflow_finish_failed" (do
    let note ← Prog.ofExcept (textField fields "note")
    let reason ← Prog.ofExcept (textField fields "reason")
    finishAuthoring N c handle action none note reason)

def outcomeAction (fields : Dict) : Except Err FinishAction :=
  if fields.get "disposition" = some (.str "completed") then .ok .complete
  else if fields.get "disposition" = some (.str "no_change") then .ok .handoff
  else if fields.get "disposition" = some (.str "failed") then .ok .block
  else .error (.workflow "outcome_disposition_unsupported")

/-- `coordinate_task` on the record that was read. -/
def coordinateRecorded (t : Target) (action : CoordinateAction) (fields : Dict)
    (record : Record) : Host A Response :=
  match action with
  | .bindRequiredGates => bindRequiredGates c t.handle fields record
  | .requestIntegration =>
    .done (.attention "complete_and_hand_back_before_integration" (some t.handle)
      ["finish_task", "inspect_task"] (some "finish_task"))
  | .runGates => do
    match fields.get "requirement_ids" with
    | none => runGates N c t record none
    | some value => do
      let requested ← Prog.ofExcept (textList "requirement_ids_invalid" value)
      runGates N c t record (some requested)
  | .verify => do
    let requirementId ← Prog.ofExcept (firstText fields "requirement_id" [])
    runGates N c t record (some [requirementId])
  | .heartbeat | .resume =>
    if record.phase ≠ some .active then raise "workflow_attempt_not_active"
    else do
      match ← resumeActive N c t record with
      | some response => .done response
      | none => respond c (.coordinated action t.handle none)
  | .releaseAttempt => finishFromFields N c t.handle .release fields
  | .reportOutcome => do
    let finish ← Prog.ofExcept (outcomeAction fields)
    finishFromFields N c t.handle finish fields
  | action => do
    Prog.ofExcept (checkCoordinate action record)
    executeCoordinateAction N c t action fields record

/-- The actions that `_execute_coordinate_action` carries out. -/
def CoordinateAction.executes : CoordinateAction → Bool
  | .bindRequiredGates | .requestIntegration | .runGates | .verify | .heartbeat | .resume
  | .releaseAttempt | .reportOutcome => false
  | _ => true

theorem coordinateRecorded_executes {t : Target} {action : CoordinateAction} {fields : Dict}
    {record : Record} (h : action.executes) :
    coordinateRecorded N c t action fields record = (do
      Prog.ofExcept (checkCoordinate action record)
      executeCoordinateAction N c t action fields record) := by
  cases action <;> first | rfl | cases h

/-- `coordinate_task`. -/
def coordinateTask (handle : Handle) (action : CoordinateAction) (fields : Dict) :
    Host A Response :=
  orAttention (some handle) "compact_workflow_action_failed"
    (if c.dictBytes fields > 32 * 1024 then raise "workflow_payload_too_large"
    else do
      let (t, record) ← resolveHandle c handle
      coordinateRecorded N c t action fields record)

/-- The coordinate action and the final status of a reviewer's decision. -/
def FinishAction.review : FinishAction → Option (CoordinateAction × Phase)
  | .accept => some (.acceptOutcome, .reviewAccepted)
  | .reject => some (.rejectOutcome, .reviewRejected)
  | .integrate => some (.integrate, .integrated)
  | _ => none

/-- `finish_task` with the actions `accept`, `reject` and `integrate`. -/
def finishReview (handle : Handle) (action : CoordinateAction) (status : Phase)
    (note reason : Option String) : Host A Response :=
  orAttention (some handle) "compact_workflow_finish_failed" (do
    checkTexts c note reason
    let (_, record) ← resolveHandle c handle
    if record.mode ≠ some .review then raise "review_handle_required"
    else do
      let fields : Dict := match reason.filter (· ≠ "") with
        | some text => [("reason", .str text)]
        | none => []
      match ← coordinateTask N c handle action fields with
      | .coordinated _ _ _ => respond c (.terminal status handle)
      | response => .done response)

/-- `finish_task`. -/
def finishTask (handle : Handle) (action : FinishAction)
    (disposition note reason : Option String) : Host A Response :=
  match action.review with
  | some (coordinateAction, status) => finishReview N c handle coordinateAction status note reason
  | none => finishAuthoring N c handle action disposition note reason

/-- What a thread of the service runs: one tool call or one pass of a renewal worker. -/
inductive ToolCall where
  | nextTask (mutator : Bool) (project repository : String) (requested : Request)
  | finishTask (handle : Handle) (action : FinishAction) (disposition note reason : Option String)
  | coordinateTask (handle : Handle) (action : CoordinateAction) (fields : Dict)
  | renew (t : Target)

def ToolCall.program : ToolCall → Host A Unit
  | .nextTask mutator project repository requested => do
    let _ ← Compact.nextTask N c mutator project repository requested
    .done ()
  | .finishTask handle action disposition note reason => do
    let _ ← Compact.finishTask N c handle action disposition note reason
    .done ()
  | .coordinateTask handle action fields => do
    let _ ← Compact.coordinateTask N c handle action fields
    .done ()
  | .renew t => renewalPass N c t

/-- The threads of any number of processes over one journal. A process that
crashes loses its threads and nothing else. -/
def compactSystem {ω : Type} (env : A → ω → Option A) :
    System ℕ (World A) Input Label Err Unit ToolCall ω where
  program := fun _ call => call.program N c
  crash := fun _ s => s
  env := fun s e => (env s.native e).map (fun a => { s with native := a })

end Calls

/-- A native host that may answer anything. -/
def anyHost : NativeHost Unit where
  serve := fun a _ v => (a, v.reply)

/-- A service with an empty journal. -/
def newPool : Pool ℕ (World Unit) Input Label Err Unit where
  shared := { journal := [], native := () }
  threads := fun _ => none

/-- An answer with the fields that the steps of `next_task` read. -/
def served (token : Handle) : Input where
  reply := .ok [("selection", .obj [("work_item_id", .str "T1"), ("plan_revision_id", .str "P1"),
      ("authority_revision", .num 5)]),
    ("semantic_revision", .num 5), ("attempt_id", .str "A1"), ("lease_id", .str "L1")]
  token := token
  capsule := .ok ([], [])

end ProjectControl.Compact
