import ProjectControl.CompactSteps

/-! The requests that the tools send and the changes they write, listed once, and
the safety of every tool from what a proof shows of the listed steps. -/

set_option autoImplicit false

namespace ProjectControl.Compact

open Resumption Resumption.Spec

/-- The parts of the tools that a proof may be about. -/
inductive Part where
  | prepare
  | renew
  | resume
  | verify
  | finish
  | coordinate
  deriving DecidableEq, Repr

/-- The requests that a tool makes from its copy `r` of a record: the phase name,
the request and the key that was computed beforehand, if there is one. -/
inductive Asks (t : Target) (r : Record) : Part → PhaseName → Payload → Option Key → Prop where
  | createWorkspace (taskId planRevisionId workspaceId : String)
      (hp : r.phase = some .workspacePending) :
      Asks t r .prepare .createWorkspace
        (workspacePayload r taskId planRevisionId workspaceId) r.createWorkspaceKey
  | dispatchAttempt (taskId planRevisionId workspaceId : String)
      (hp : r.phase = some .dispatchPending) :
      Asks t r .prepare .dispatchAttempt
        (dispatchPayload r taskId planRevisionId workspaceId) r.dispatchKey
  | heartbeat (attemptId leaseId planRevisionId : String)
      (hp : r.phase = some .active ∨ r.phase = some .contextPending)
      (ha : r.attemptId = some attemptId) (hl : r.leaseId = some leaseId)
      (hr : r.planRevisionId = some planRevisionId) :
      Asks t r .renew (.heartbeat (r.heartbeatGeneration.getD 0))
        (heartbeatPayload attemptId leaseId planRevisionId) none
  | resume (attemptId leaseId planRevisionId taskId runId assignmentId : String)
      (ha : r.attemptId = some attemptId) (hl : r.leaseId = some leaseId)
      (hr : r.planRevisionId = some planRevisionId) (ht : r.taskId = some taskId)
      (hn : r.runId.getD none = some runId) (hs : r.assignmentId.getD none = some assignmentId) :
      Asks t r .resume (.resume (r.resumeGeneration.getD 0))
        (resumePayload attemptId leaseId planRevisionId taskId runId assignmentId) none
  | verify (requirementId : String) :
      Asks t r .verify (.verify requirementId) (verifyPayload r requirementId) none
  | handback (hp : r.phase = some .handbackPending) :
      Asks t r .finish .finishHandback (handbackPayload r) r.handbackKey
  | report (hp : r.phase = some .reportPending) (note : Option String) :
      Asks t r .finish .finishReport (reportPayload r note) r.reportKey
  | release (hp : r.phase = some .releasePending) :
      Asks t r .finish .finishRelease (releasePayload r) r.releaseKey
  | coordinate (action : CoordinateAction) (fields : Dict) (payload : Payload)
      (hc : checkCoordinate action r = .ok ())
      (hp : coordinateArguments t.handle action fields r = .ok payload) :
      Asks t r .coordinate (.coordinate ⟨action, fields⟩) payload none

/-- The changes that are merged into a record: `r₀` is the copy from which the
step was entered, `r` the copy it holds now, `answer` the replies it got and
`merged` what it knows if `r` comes from `r₀` and the stored record. -/
inductive Writes (c : Codec) (t : Target) (r₀ r : Record) (answer : Payload → Dict → Prop)
    (merged : Prop) : Part → Option Phase → Record → Prop where
  | resumed (attemptId leaseId planRevisionId taskId runId assignmentId nextLease : String)
      (inspected resumed : Dict)
      (ha : r₀.attemptId = some attemptId) (hl : r₀.leaseId = some leaseId)
      (hr : answer (resumePayload attemptId leaseId planRevisionId taskId runId assignmentId)
        resumed)
      (hn : nestedText resumed ["result", "lease_id"] = some nextLease) :
      Writes c t r₀ r answer merged .resume none
        { leaseId := some nextLease, resumeGeneration := some (r₀.resumeGeneration.getD 0 + 1),
          lastResumeReceipt := some resumed, lastAttemptInspection := some inspected,
          renewalAttention := some none }
  | renewed (attemptId leaseId planRevisionId nextLease : String) (renewed : Dict)
      (hp : r₀.phase = some .active ∨ r₀.phase = some .contextPending)
      (ha : r₀.attemptId = some attemptId) (hl : r₀.leaseId = some leaseId)
      (hr : answer (heartbeatPayload attemptId leaseId planRevisionId) renewed)
      (hn : nestedText renewed ["result", "lease_id"] = some nextLease) :
      Writes c t r₀ r answer merged .renew none
        { leaseId := some nextLease,
          heartbeatGeneration := some (r₀.heartbeatGeneration.getD 0 + 1),
          lastHeartbeatReceipt := some renewed, renewalAttention := some none }
  | context (capsule : Dict) (requirementIds : List String)
      (hp : r₀.phase = some .contextPending) :
      Writes c t r₀ r answer merged .prepare (some .contextPending)
        { phase := some .active, context := some capsule, requirementIds := some requirementIds }
  | finish (action : FinishAction) (note reason : Option String) (token : Handle)
      (hp : r₀.phase = some .active) (hm : r₀.mode ≠ some .review) :
      Writes c t r₀ r answer merged .finish (some .active)
        (finishRecord t.handle action note reason token)
  | handedBack (handback proof : Dict) (hp : r₀.phase = some .handbackPending)
      (hh : answer (handbackPayload r₀) handback) (ha : isAttention handback = false)
      (hm : merged) (hv : validateHandoffProof c handback r = .ok proof) :
      Writes c t r₀ r answer merged .finish (some .handbackPending)
        { handbackProof := some proof,
          phase := some (if (r.outcomeDisposition.getD none).isSome then .reportPending
            else .releasePending) }
  | reported (report : Dict) (candidateId : String) (hp : r₀.phase = some .reportPending)
      (hr : r = r₀) :
      Writes c t r₀ r answer merged .finish (some .reportPending)
        { candidateId := some candidateId, reportReceipt := some report,
          phase := some .reviewPending }
  | released (released : Dict) (hp : r₀.phase = some .releasePending) (hr : r = r₀) :
      Writes c t r₀ r answer merged .finish (some .releasePending)
        { phase := some .released, releaseReceipt := some released }
  | recovered (result : Dict) (hc : checkCoordinate .recover r₀ = .ok ()) :
      Writes c t r₀ r answer merged .coordinate r₀.phase
        { phase := some .released, releaseReceipt := some result }
  | integrated (result : Dict) (hc : checkCoordinate .integrate r₀ = .ok ()) :
      Writes c t r₀ r answer merged .coordinate r₀.phase
        { phase := some .integrated, integrationReceipt := some result,
          integrationOperationId := (gitIntegrationResult result).operationId }
  | pending (operations : ActionId → Option OperationEntry) :
      Writes c t r₀ r answer merged .coordinate r₀.phase { operations := some operations }
  | coordinated (action : CoordinateAction) (result : Dict)
      (operations : ActionId → Option OperationEntry)
      (hc : checkCoordinate action r₀ = .ok ()) :
      Writes c t r₀ r answer merged .coordinate r₀.phase
        (coordinateChanges action r₀ result operations)

/-- The two places where a whole local record is written back. -/
inductive Overwrites (r₀ r : Record) : Option Phase → Record → Prop where
  | workspace (workspace : Dict) (hp : r₀.phase = some .workspacePending) :
      Overwrites r₀ r (some .workspacePending)
        { r with phase := some .dispatchPending, workspace := some workspace }
  | dispatched (attemptId leaseId : String) (receipt : Dict)
      (hp : r₀.phase = some .dispatchPending) :
      Overwrites r₀ r (some .dispatchPending)
        { r with
          phase := some .contextPending, attemptId := some attemptId, leaseId := some leaseId,
          dispatchReceipt := some receipt }

/-- What a thread knows: of a copy of a record, of a copy that comes from another
one and from the stored record once its intent was there, of a request that it is
about to send and of an answer that it got. -/
structure Knowledge (A : Type) where
  copy : Target → Record → World A → Prop
  merged : Target → Record → Record → World A → Prop
  request : Target → PhaseName → Payload → Key × ℕ → World A → Prop
  answer : Payload → Dict → World A → Prop

def Target.scoped (t : Target) (r : Record) : Record :=
  { r with project := some t.project, repository := some t.repository }

/-- The default key of a phase. -/
def defaultKey (t : Target) (name : PhaseName) (payload : Payload) : Key :=
  operationKey t.handle (.native name) (.request payload)

/-- What a proof about thread `i` shows of its steps in the given parts, for the
records that it may read. -/
structure HostRules {ι A : Type} (P : Spec ι (World A) Label) (i : ι) (N : NativeHost A)
    (c : Codec) (K : Knowledge A) (parts : Part → Prop) (targets : Target → Prop) : Prop where
  refl : ∀ s, P.guar i s s
  copy_stable : ∀ t r, P.Stable i (K.copy t r)
  merged_stable : ∀ t r₀ r, P.Stable i (K.merged t r₀ r)
  request_stable : ∀ t name payload req, P.Stable i (K.request t name payload req)
  answer_stable : ∀ payload d, P.Stable i (K.answer payload d)
  learn : ∀ {t : Target} {s : World A} {data : Record}, targets t → P.inv s →
    s.Holds t data → K.copy t data s
  relearn : ∀ {t : Target} {r : Record} {s : World A} {data : Record}, P.inv s → K.copy t r s →
    s.Holds t data → K.copy t data s
  scope : ∀ {t : Target} {r : Record} {s : World A}, K.copy t r s → K.copy t (t.scoped r) s
  merge : ∀ {t : Target} {r : Record} {s : World A} {data : Record}, P.inv s → K.copy t r s →
    s.Holds t data → K.copy t (r.merge data) s
  fresh : ∀ {t : Target} {r₀ r data : Record} {s : World A} {name : PhaseName} {intent : Intent},
    P.inv s → K.copy t r₀ s → K.copy t r s → s.Holds t data →
    data.intent name = some intent → K.merged t r₀ (r.merge data) s
  known : ∀ {t : Target} {r data : Record} {s : World A} {name : PhaseName} {intent : Intent},
    P.inv s → K.copy t r s → s.Holds t data → data.intent name = some intent →
    K.request t name intent.payload (intent.idempotencyKey, intent.expectedRevision) s
  merged_copy : ∀ {t : Target} {r₀ r : Record} {s : World A}, K.merged t r₀ r s → K.copy t r s
  read : ∀ {s : World A} (call : Call) (v : Input), P.inv s → call.idempotencyKey = none →
    let s' := { s with native := (N.serve s.native call v).1 }
    P.inv s' ∧ P.guar i s s' ∧ ∀ t r, K.copy t r s → K.copy t r s'
  persist : ∀ {s : World A} {part : Part} {t : Target} {r old : Record} {name : PhaseName}
    {payload : Payload} {key : Option Key} {key' : Key} {revision : ℕ}, parts part →
    Asks t r part name payload key → P.inv s → K.copy t r s →
    key' = defaultKey t name payload ∨ key = some key' →
    P.cond s (.persist t.handle name ⟨payload, key', revision, 0⟩) →
    s.Holds t old → old.intent name = none →
    let s' := s.issue t.handle name old ⟨payload, key', revision, 0⟩
    P.inv s' ∧ P.guar i s s' ∧ ∀ r', K.copy t r' s → K.copy t r' s'
  refresh : ∀ {s : World A} {part : Part} {t : Target} {r old : Record} {name : PhaseName}
    {payload : Payload} {key : Option Key} {rejected : Key × ℕ} {revision : ℕ} {intent : Intent},
    parts part →
    Asks t r part name payload key → P.inv s → K.copy t r s →
    P.cond s (.refresh t.handle name rejected revision) → s.Holds t old →
    old.intent name = some intent → intent.payload = payload →
    intent.expectedRevision ≠ revision →
    let s' := s.issue t.handle name old (intent.refreshed t.handle name payload revision)
    P.inv s' ∧ P.guar i s s' ∧ ∀ r', K.copy t r' s → K.copy t r' s'
  send : ∀ {s : World A} {part : Part} {t : Target} {r : Record} {name : PhaseName}
    {payload : Payload} {key : Option Key} {request : Key × ℕ} {project repository : String}
    {v : Input}, parts part →
    Asks t r part name payload key → P.inv s → K.copy t r s → K.request t name payload request s →
    P.cond s (.native payload.tool) →
    let out := N.serve s.native
      ⟨payload.tool, project, repository, payload.arguments, some request.1, some request.2⟩ v
    let s' := { s with
      native := out.1, sent := ⟨payload, request.1, request.2, out.2⟩ :: s.sent }
    P.inv s' ∧ P.guar i s s' ∧ (∀ r', K.copy t r' s → K.copy t r' s') ∧
      (∀ r₀ r', K.merged t r₀ r' s → K.merged t r₀ r' s') ∧
      ∀ d, out.2.result = .ok d → K.answer payload d s'
  update : ∀ {s : World A} {part : Part} {t : Target} {r₀ r changes old : Record}
    {entered : Option Phase}, parts part →
    Writes c t r₀ r (fun p d => K.answer p d s) (K.merged t r₀ r s) part entered changes →
    P.inv s → K.copy t r₀ s → K.copy t r s → P.cond s (.update t.handle entered changes) →
    s.Holds t old →
    let s' := s.put t.handle (old.merge changes)
    P.inv s' ∧ P.guar i s s' ∧ K.copy t (r.merge changes) s'
  overwrite : ∀ {s : World A} {t : Target} {r₀ r changes old : Record} {entered : Option Phase},
    parts .prepare →
    Overwrites r₀ r entered changes → P.inv s → K.copy t r₀ s → K.merged t r₀ r s →
    P.cond s (.update t.handle entered changes) → s.Holds t old →
    let s' := s.put t.handle (old.merge changes)
    P.inv s' ∧ P.guar i s s' ∧ K.copy t changes s'
  note : ∀ {s : World A} {t : Target} {reason : String} {old : Record}, parts .renew →
    P.inv s →
    P.cond s (.update t.handle none { renewalAttention := some (some reason) }) →
    s.Holds t old →
    let s' := s.put t.handle (old.merge { renewalAttention := some (some reason) })
    P.inv s' ∧ P.guar i s s'
  select : ∀ {s : World A} {t : Target} {r old new : Record}, parts .prepare → P.inv s →
    K.copy t r s → P.cond s (.select t.handle) → s.Holds t old → old.phase = some .selecting →
    (new = { old with phase := some .noWork } ∨ ∃ requested candidate sel,
      new = old.merge (preparedRecord t requested candidate sel)) →
    let s' := s.put t.handle new
    P.inv s' ∧ P.guar i s s' ∧ K.copy t new s'
  reserve : ∀ {s : World A} {project repository : String} {request : Request} {token : Handle},
    parts .prepare → P.inv s → P.cond s .reserve → s.journal.rows token = [] →
    Store.currentRecord s.journal project repository request = .ok none →
    let s' := { s with
      journal := Store.appendReservation s.journal project repository request token }
    P.inv s' ∧ P.guar i s s'
  review : ∀ {s : World A} {project repository : String} {token : Handle}
    (candidate : ReviewCandidate), parts .prepare →
    P.inv s → P.cond s .reserve → s.journal.rows token = [] →
    let data := { candidate.record project repository with phase := some .reviewPending }
    let s' := { s with
      journal := s.journal ++ [.workflow token project repository data] }
    P.inv s' ∧ P.guar i s s'

end ProjectControl.Compact
