import Mathlib.Logic.Function.Basic
import ProjectControl.Json

/-! The values of the compact workflow journal: phases, native requests and their
keys, and the record that the journal keeps for a workflow handle. -/

set_option autoImplicit false

namespace ProjectControl.Compact

abbrev Handle := String

inductive Phase where
  | selecting
  | workspacePending
  | dispatchPending
  | contextPending
  | active
  | finishing
  | handbackPending
  | reportPending
  | releasePending
  | reviewPending
  | released
  | noWork
  | reviewAccepted
  | reviewRejected
  | integrated
  deriving DecidableEq, Repr

/-- `active_phases`: the phases in which a record holds its scope. -/
def Phase.isActive : Phase → Bool
  | .selecting | .workspacePending | .dispatchPending | .contextPending | .active
  | .finishing | .handbackPending | .reportPending | .releasePending => true
  | _ => false

/-- The native tools that the compact host calls or that the native host lists. -/
inductive Tool where
  | readAuthority
  | selectNextWork
  | createWorkspace
  | dispatchAttempt
  | buildContext
  | inspectAttempt
  | heartbeatAttempt
  | resumeAttempt
  | verifyAttempt
  | handbackAttempt
  | reportOutcome
  | releaseAttempt
  | applyRecovery
  | integrateAttempt
  | acceptOutcome
  | rejectOutcome
  | syncInbox
  | sendMessage
  | answerQuestion
  | arriveRendezvous
  | publishInterface
  | resolveDecision
  | acceptCheckpoint
  | releaseBarrier
  | openBlocker
  | clearBlocker
  | publishFinding
  | invalidateFinding
  | startChild
  | reviewChildCandidate
  | submitChildCandidate
  | cancelChild
  | reconcileChild
  | reserveResource
  | reconcileResource
  | retryResource
  | releaseResource
  | commitPlan
  | openRun
  | closeRun
  | retireRun
  deriving DecidableEq, Repr

inductive CoordinateAction where
  | sync
  | fork
  | message
  | answer
  | arrive
  | arriveRendezvous
  | publishInterface
  | publishContext
  | runGates
  | bindRequiredGates
  | requestIntegration
  | integrate
  | acceptChild
  | rejectChild
  | resolveDecision
  | acceptCheckpoint
  | releaseBarrier
  | openBlocker
  | clearBlocker
  | publishFinding
  | invalidateFinding
  | startChild
  | submitChildCandidate
  | reviewChildCandidate
  | cancelChild
  | reconcileChild
  | recover
  | verify
  | heartbeat
  | resume
  | releaseAttempt
  | reportOutcome
  | acceptOutcome
  | rejectOutcome
  | reserveResource
  | reconcileResource
  | retryResource
  | releaseResource
  deriving DecidableEq, Repr

inductive FinishAction where
  | complete
  | handoff
  | block
  | release
  | accept
  | reject
  | integrate
  deriving DecidableEq, Repr

inductive Disposition where
  | completed
  | noChange
  | failed
  deriving DecidableEq, Repr

def Disposition.text : Disposition → String
  | .completed => "completed"
  | .noChange => "no_change"
  | .failed => "failed"

/-- The digest of an action and its payload; digests stand for what they cover. -/
structure ActionId where
  action : CoordinateAction
  fields : Dict
  deriving DecidableEq

/-- The names under which `phase_intents` keeps its entries. -/
inductive PhaseName where
  | createWorkspace
  | dispatchAttempt
  | verify (requirementId : String)
  | heartbeat (generation : ℕ)
  | resume (generation : ℕ)
  | coordinate (actionId : ActionId)
  | finishHandback
  | finishReport
  | finishRelease
  deriving DecidableEq

/-- The operation texts that `_operation_key` is called with; `native` and
`retry` are the texts `native:{name}` and `native:{name}:retry:{generation}`. -/
inductive KeyOperation where
  | createWorkspace
  | dispatchAttempt
  | finishReport
  | finishHandback
  | finishRelease
  | native (name : PhaseName)
  | retry (name : PhaseName) (generation : ℕ)
  deriving DecidableEq

/-- A native mutation request without its key and revision; an intent's
`payload_digest` stands for it. -/
structure Payload where
  tool : Tool
  arguments : Dict
  deriving DecidableEq

/-- What the digest of an operation key covers besides its handle and operation. -/
inductive KeyBody where
  | empty
  | selection (candidate : Dict)
  | finish (action : FinishAction) (disposition : Option Disposition)
      (note reason : Option String)
  | request (payload : Payload)
  deriving DecidableEq

/-- An idempotency key. SHA-256 is taken as free of collisions, so a key is the
material it digests. -/
structure Key where
  handle : Handle
  operation : KeyOperation
  body : KeyBody
  deriving DecidableEq

/-- `CompactWorkflowHost._operation_key`. -/
def operationKey (handle : Handle) (operation : KeyOperation) (body : KeyBody) : Key :=
  ⟨handle, operation, body⟩

/-- One entry of `phase_intents`: the exact request that was, or is to be, sent. -/
structure Intent where
  payload : Payload
  idempotencyKey : Key
  expectedRevision : ℕ
  generation : ℕ := 0
  deriving DecidableEq

inductive Mode where
  | review
  deriving DecidableEq, Repr

structure Request where
  taskId : Option String := none
  runId : Option String := none
  deriving DecidableEq, Repr

/-- The entries of `operations`; an entry without a result is still pending. -/
structure OperationEntry where
  action : CoordinateAction
  key : Key
  result : Option Dict
  deriving DecidableEq

/-- A workflow record, or a set of changes to one: a field is `none` when the
mapping has no such key, and `some none` when the key holds `None`. -/
structure Record where
  phase : Option Phase := none
  mode : Option Mode := none
  request : Option Request := none
  project : Option String := none
  repository : Option String := none
  selection : Option Dict := none
  taskId : Option String := none
  runId : Option (Option String) := none
  assignmentId : Option (Option String) := none
  planRevisionId : Option String := none
  authorityRevision : Option ℕ := none
  workspaceId : Option String := none
  createWorkspaceKey : Option Key := none
  dispatchKey : Option Key := none
  workspace : Option Dict := none
  attemptId : Option String := none
  leaseId : Option String := none
  dispatchReceipt : Option Dict := none
  context : Option Dict := none
  requirementIds : Option (List String) := none
  phaseIntents : Option (PhaseName → Option Intent) := none
  operations : Option (ActionId → Option OperationEntry) := none
  resumeGeneration : Option ℕ := none
  heartbeatGeneration : Option ℕ := none
  lastResumeReceipt : Option Dict := none
  lastHeartbeatReceipt : Option Dict := none
  lastAttemptInspection : Option Dict := none
  renewalAttention : Option (Option String) := none
  finishAction : Option FinishAction := none
  outcomeDisposition : Option (Option Disposition) := none
  finishNote : Option (Option String) := none
  finishReason : Option (Option String) := none
  candidateHandle : Option (Option String) := none
  reportKey : Option Key := none
  handbackKey : Option Key := none
  releaseKey : Option Key := none
  handbackProof : Option Dict := none
  candidateId : Option String := none
  candidateDisposition : Option Json := none
  reportReceipt : Option Dict := none
  releaseReceipt : Option Dict := none
  findingId : Option String := none
  integrationReceipt : Option Dict := none
  integrationOperationId : Option String := none

namespace Record

/-- `record.update(changes)`: every key of the changes replaces the record's. -/
def merge (r changes : Record) : Record where
  phase := changes.phase.or r.phase
  mode := changes.mode.or r.mode
  request := changes.request.or r.request
  project := changes.project.or r.project
  repository := changes.repository.or r.repository
  selection := changes.selection.or r.selection
  taskId := changes.taskId.or r.taskId
  runId := changes.runId.or r.runId
  assignmentId := changes.assignmentId.or r.assignmentId
  planRevisionId := changes.planRevisionId.or r.planRevisionId
  authorityRevision := changes.authorityRevision.or r.authorityRevision
  workspaceId := changes.workspaceId.or r.workspaceId
  createWorkspaceKey := changes.createWorkspaceKey.or r.createWorkspaceKey
  dispatchKey := changes.dispatchKey.or r.dispatchKey
  workspace := changes.workspace.or r.workspace
  attemptId := changes.attemptId.or r.attemptId
  leaseId := changes.leaseId.or r.leaseId
  dispatchReceipt := changes.dispatchReceipt.or r.dispatchReceipt
  context := changes.context.or r.context
  requirementIds := changes.requirementIds.or r.requirementIds
  phaseIntents := changes.phaseIntents.or r.phaseIntents
  operations := changes.operations.or r.operations
  resumeGeneration := changes.resumeGeneration.or r.resumeGeneration
  heartbeatGeneration := changes.heartbeatGeneration.or r.heartbeatGeneration
  lastResumeReceipt := changes.lastResumeReceipt.or r.lastResumeReceipt
  lastHeartbeatReceipt := changes.lastHeartbeatReceipt.or r.lastHeartbeatReceipt
  lastAttemptInspection := changes.lastAttemptInspection.or r.lastAttemptInspection
  renewalAttention := changes.renewalAttention.or r.renewalAttention
  finishAction := changes.finishAction.or r.finishAction
  outcomeDisposition := changes.outcomeDisposition.or r.outcomeDisposition
  finishNote := changes.finishNote.or r.finishNote
  finishReason := changes.finishReason.or r.finishReason
  candidateHandle := changes.candidateHandle.or r.candidateHandle
  reportKey := changes.reportKey.or r.reportKey
  handbackKey := changes.handbackKey.or r.handbackKey
  releaseKey := changes.releaseKey.or r.releaseKey
  handbackProof := changes.handbackProof.or r.handbackProof
  candidateId := changes.candidateId.or r.candidateId
  candidateDisposition := changes.candidateDisposition.or r.candidateDisposition
  reportReceipt := changes.reportReceipt.or r.reportReceipt
  releaseReceipt := changes.releaseReceipt.or r.releaseReceipt
  findingId := changes.findingId.or r.findingId
  integrationReceipt := changes.integrationReceipt.or r.integrationReceipt
  integrationOperationId := changes.integrationOperationId.or r.integrationOperationId

/-- `record.get("phase_intents", {}).get(name)`. -/
def intent (r : Record) (name : PhaseName) : Option Intent :=
  r.phaseIntents.bind (fun intents => intents name)

/-- `current_intents[name] = intent` after `setdefault("phase_intents", {})`. -/
def setIntent (r : Record) (name : PhaseName) (intent : Intent) : Record :=
  let intents := r.phaseIntents.getD (fun _ => none)
  { r with phaseIntents := some (Function.update intents name (some intent)) }

/-- `record.get("operations", {}).get(action_id)`. -/
def operation (r : Record) (actionId : ActionId) : Option OperationEntry :=
  r.operations.bind (fun operations => operations actionId)

@[simp] theorem setIntent_intent_self (r : Record) (name : PhaseName) (i : Intent) :
    (r.setIntent name i).intent name = some i := by
  simp [intent, setIntent]

theorem setIntent_intent_of_ne (r : Record) {name other : PhaseName} (i : Intent)
    (h : other ≠ name) : (r.setIntent name i).intent other = r.intent other := by
  cases hp : r.phaseIntents <;> simp [intent, setIntent, hp, Function.update_of_ne h]

@[simp] theorem setIntent_phase (r : Record) (name : PhaseName) (i : Intent) :
    (r.setIntent name i).phase = r.phase := rfl

@[simp] theorem merge_phase (r c : Record) : (r.merge c).phase = c.phase.or r.phase := rfl

theorem merge_intent_of_none (r c : Record) (h : c.phaseIntents = none) (name : PhaseName) :
    (r.merge c).intent name = r.intent name := by
  simp [intent, merge, h]

end Record

/-- The pending candidate that `_next_pending_review` finds first. -/
structure ReviewCandidate where
  candidateId : String
  attemptId : String
  taskId : String
  runId : Option String
  assignmentId : Option String
  disposition : Option Json

def ReviewCandidate.record (candidate : ReviewCandidate) (project repository : String) :
    Record where
  mode := some .review
  project := some project
  repository := some repository
  candidateId := some candidate.candidateId
  attemptId := some candidate.attemptId
  taskId := some candidate.taskId
  runId := some candidate.runId
  assignmentId := some candidate.assignmentId
  candidateDisposition := candidate.disposition

/-- What `_git_integration_result` reads off a Git effect document. -/
structure IntegrationResult where
  applied : Bool
  operationId : Option String
  state : String
  disposition : Option String
  reason : String
  deriving DecidableEq, Repr

/-- The replies of the four tools, without the parts of a task packet that are
rendered from the record. -/
inductive Response where
  | attention (reason : String) (handle : Option Handle := none)
      (allowedActions : List String := []) (recommendedNextCall : Option String := none)
  | noWork
  | task (handle : Handle) (resumed : Bool)
  | reviewRequired (handle : Handle) (taskId : Option String) (disposition : Option Json)
  | reviewPending (handle : Handle) (taskId : Option String)
  | terminal (status : Phase) (handle : Handle)
  | coordinated (action : CoordinateAction) (handle : Handle) (result : Option Dict)
  | verified (results : List (String × Dict)) (handle : Handle)
  | gatesBound (requirementIds : List String) (handle : Handle)
  | needsPlanChange (requirementIds : List String) (handle : Handle)
  | integration (handle : Handle) (result : IntegrationResult)

def Response.isAttention : Response → Bool
  | .attention .. | .integration .. => true
  | _ => false

/-- `CompactWorkflowError` with its code, or any other exception. -/
inductive Err where
  | workflow (code : String)
  | other
  deriving DecidableEq, Repr

end ProjectControl.Compact
