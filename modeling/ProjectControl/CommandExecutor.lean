import ProjectControl.CommandSupervisor

/-! `JournaledCommandExecutor`, `NativeAuthoringHandoffProvider.handoff_authoring`,
`record_external_producer_completion` and the fence around the Git effects, as
programs of threads that share one host. -/

set_option autoImplicit false

namespace ProjectControl.Native

open Resumption

def maxCommandTimeoutMs : ℕ := 24 * 60 * 60 * 1000

/-- `CommandExecutionRequest`; `digest` is its `provider_request_digest`. -/
structure ExecuteRequest where
  projectId : String
  operationId : OperationId
  attempt : AttemptId
  argv : List String
  timeoutMs : ℕ := 1000
  digest : String
deriving DecidableEq

/-- `EffectInspectionRequest`. -/
structure InspectRequest where
  projectId : String
  operationId : OperationId
  originalDigest : String
deriving DecidableEq

/-- How an executor was composed. -/
structure Executor where
  projectId : String
  attestationRoot : Bool
  handoffProvider : Bool

/-- `ProviderResult`. -/
inductive Reply where
  | unavailable (reason : String)
  | unknown (reason : String)
  | success (observation : Observation) (receipt : Receipt)
  | inspection (inspection : Inspection)
  | attested (attestation : Attestation)
  | handedOff (source : Snapshot)
  | performed
deriving DecidableEq

section Processes

/-- `subprocess.Popen` of the supervisor; `none` when it raises. -/
def popen (i : ℕ) (request : ExecuteRequest) : Effect (Option ℕ) :=
  .atomic () (fun s v =>
    if v.ok then
      ({ s with processes := s.processes ++
        [{ operation := request.operationId, attempt := request.attempt, argv := request.argv,
           owner := i }] }, .ok (some s.processes.length))
    else (s, .ok none))

/-- `_process_start`, and whether the process state is one of a live process. -/
def processStart : Effect (Option String × Bool) := look (fun _ v => .ok (v.processStart, v.ok))

/-- `_stop_supervisor`; whether the process was seen to end. -/
def stopSupervisor (h : ℕ) : Effect Bool :=
  .atomic () (fun s v => match s.processes[h]? with
    | some sv =>
      if v.ok then
        match sv.outer with
        | .exited .. => (s, .ok true)
        | _ => (s.setProcess h { sv with outer := .exited none (-9) }, .ok true)
      else (s, .ok false)
    | none => (s, .ok true))

/-- `process.stdin.close()` before anything was written. -/
def closeStdin (h : ℕ) : Effect Unit :=
  .atomic () (fun s _ => match s.processes[h]? with
    | some sv =>
      if sv.stdin = .pending then (s.setProcess h { sv with stdin := .closed }, .ok ())
      else (s, .ok ())
    | none => (s, .ok ()))

/-- Writes the request and closes the pipe. A write that raises may have delivered the
whole request or only a part of it. -/
def writeRequest (h : ℕ) : Effect Bool :=
  .atomic () (fun s v => match s.processes[h]? with
    | some sv => (s.setProcess h { sv with
        stdin := if v.ok ∨ v.durable then .delivered else .closed }, .ok v.ok)
    | none => (s, .ok false))

/-- `process.wait`, then the report and the return code; `none` when the wait times out. -/
def waitSupervisor (h : ℕ) : Effect (Option (Option Report × ℤ)) :=
  look (fun s v => match s.processes[h]? with
    | some sv =>
      match sv.outer with
      | .exited report code => .ok (if v.ok then some (report, code) else none)
      | _ => .ok none
    | none => .ok none)

end Processes

section Execute

def isHexDigest (s : String) : Bool :=
  s.toList.length = 64 && s.toList.all (fun ch => ch ∈ "0123456789abcdef".toList)

/-- The reply to a request whose operation has a record. -/
def replay (request : ExecuteRequest) (prior : CommandRecord) : Reply :=
  if prior.requestDigest ≠ request.digest then .unknown "command_operation_identity_mismatch"
  else if prior.state ≠ .completed then .unknown "command_result_requires_inspection"
  else if prior.treeQuiescent = false then
    .unknown "command_descendant_quiescence_unconfirmed"
  else
    match prior.observation with
    | some (observation, receipt) => .success observation receipt
    | none => .unknown "command_provider_unavailable"

/-- `has_handoff_marker`: anything that cannot be read counts as a marker. -/
def hasHandoffMarker (i : ℕ) (a : AttemptId) : Effect Bool :=
  Prog.tryCatch
    (do
      require
      locked i (.record a) (look (fun s v =>
        if v.ok then .ok (s.handoffs a).isSome else .error .unavailable)))
    (fun _ => .done true)

/-- `_read_attestation`. -/
def readAttestation (a : AttemptId) : Effect (Option Attestation) :=
  look (fun s v => if v.ok then .ok (s.attestations a) else .error .unavailable)

/-- Why a command of the attempt must not be started, if there is a reason. -/
def refusal (X : Executor) (i : ℕ) (a : AttemptId) : Effect (Option String) := do
  let attestation ← (if X.attestationRoot then readAttestation a else .done none)
  if attestation.isSome then .done (some "external_producer_completion_attested")
  else do
    let handedOff ← (if X.handoffProvider then hasHandoffMarker i a else .done false)
    .done (if handedOff then some "attempt_authoring_handed_off" else none)

/-- A command whose request was written. -/
structure Launched where
  process : ℕ
  startedAt : ℕ
  record : CommandRecord

/-- The path on which the supervisor's identity could not be read. -/
def abandon (request : ExecuteRequest) (process : ℕ) (record : CommandRecord) :
    Effect (Reply ⊕ Launched) := do
  let _ ← tryWriteCommand request.operationId record
  if ← stopSupervisor process then do
    writeCommand request.operationId { record with
      state := .notStarted, reason := some "command_supervisor_identity_unavailable" }
    .done (.inl (.unavailable "command_supervisor_identity_unavailable"))
  else .done (.inl (.unknown "command_supervisor_identity_unconfirmed"))

/-- Records the running supervisor and hands it the request. -/
def deliver (request : ExecuteRequest) (process startedAt : ℕ) (record : CommandRecord) :
    Effect (Reply ⊕ Launched) := do
  if ← tryWriteCommand request.operationId record then do
    if ← writeRequest process then .done (.inr ⟨process, startedAt, record⟩)
    else do
      let _ ← stopSupervisor process
      .done (.inl (.unknown "command_supervisor_request_unconfirmed"))
  else do
    closeStdin process
    let _ ← stopSupervisor process
    .done (.inl (.unknown "command_journal_update_failed"))

/-- The intent of a request, which is durable before its process exists. -/
def startingRecord (request : ExecuteRequest) : CommandRecord where
  attemptId := request.attempt
  requestDigest := request.digest
  state := .starting

/-- The part of `execute` that holds the lock of the attempt. -/
def launch (X : Executor) (i : ℕ) (request : ExecuteRequest) : Effect (Reply ⊕ Launched) := do
  match ← refusal X i request.attempt with
  | some reason => .done (.inl (.unavailable reason))
  | none => do
    if ← check then do
      let record := startingRecord request
      writeCommand request.operationId record
      require
      let startedAt ← now
      match ← popen i request with
      | none => do
        writeCommand request.operationId { record with
          state := .notStarted, reason := some "command_launch_failed" }
        .done (.inl (.unavailable "command_launch_failed"))
      | some process => do
        let (start, alive) ← processStart
        let record := { record with
          state := .running, pid := some process, processStart := start }
        if start = none ∨ alive = false then abandon request process record
        else deliver request process startedAt record
    else .done (.inl (.unavailable "command_workspace_unqualified"))

/-- What `execute` makes of a supervisor's report and return code. -/
inductive Verdict where
  | unknown (reason : String)
  | notStarted (reason : Option String)
  | completed (exitCode : Option ℤ) (timedOut : Bool) (stdoutDigest stderrDigest : String)

def readReport (report : Option Report) (code : ℤ) : Verdict :=
  match report with
  | none => .unknown "command_supervisor_report_parse_failed"
  | some report =>
    if report.state = .unavailable ∨ report.state = .notStarted then
      if report.treeQuiescent ∨ report.exitCode ≠ none then
        .unknown "command_supervisor_report_invalid"
      else .notStarted report.reason
    else if report.state ≠ .completed ∨ code ≠ 0 ∨ report.treeQuiescent = false then
      .unknown "command_descendant_quiescence_unconfirmed"
    else
      match report.stdoutDigest, report.stderrDigest with
      | some stdout, some stderr =>
        if isHexDigest stdout = false ∨ isHexDigest stderr = false then
          .unknown "command_supervisor_output_digest_invalid"
        else if (report.timedOut = true ∧ report.exitCode ≠ none) ∨
            (report.timedOut = false ∧ report.exitCode = none) then
          .unknown "command_supervisor_report_invalid"
        else .completed report.exitCode report.timedOut stdout stderr
      | _, _ => .unknown "command_supervisor_output_digest_invalid"

/-- The reasons of a supervisor that a caller is told. -/
def launchReason (reason : Option String) : String :=
  match reason with
  | some reason =>
    if reason ∈ ["child_subreaper_unavailable", "command_launch_failed",
        "bubblewrap_unavailable", "linux_sandbox_unavailable",
        "command_executable_unavailable", "command_sandbox_configuration_invalid"] then reason
    else "command_supervisor_unavailable"
  | none => "command_supervisor_unavailable"

/-- The record of a completed command. -/
def completedRecord (record : CommandRecord) (observation : Observation) (receipt : Receipt) :
    CommandRecord :=
  { record with
    state := .completed, treeQuiescent := true, observation := some (observation, receipt) }

/-- The part of `execute` after the lock of the attempt was released. -/
def conclude (request : ExecuteRequest) (launched : Launched) : Effect Reply := do
  match ← waitSupervisor launched.process with
  | none => do
    let _ ← stopSupervisor launched.process
    .done (.unknown "command_supervisor_stop_unconfirmed")
  | some (report, code) => do
    if ← check then
      match readReport report code with
      | .unknown reason => .done (.unknown reason)
      | .notStarted reason => do
        writeCommand request.operationId { launched.record with
          state := .notStarted, reason := reason }
        .done (.unavailable (launchReason reason))
      | .completed exitCode timedOut stdout stderr => do
        let completedAt ← now
        let unchanged ← (if timedOut then .done true else check)
        if unchanged then do
          let observation : Observation :=
            ⟨exitCode, timedOut, launched.startedAt, completedAt, stdout, stderr⟩
          let receipt : Receipt := ⟨request.operationId, request.digest, completedAt⟩
          writeCommand request.operationId (completedRecord launched.record observation receipt)
          .done (.success observation receipt)
        else .done (.unknown "command_source_changed_during_execution")
    else .done (.unknown "command_output_stream_unclosed")

/-- What `execute` does for an operation without a record, holding its lock. -/
def executeNew (X : Executor) (i : ℕ) (request : ExecuteRequest) : Effect Reply := do
  match ← locked i (.attempt request.attempt) (launch X i request) with
  | .inl reply => .done reply
  | .inr launched => conclude request launched

/-- `JournaledCommandExecutor.execute`, called by the thread `i`. -/
def execute (X : Executor) (i : ℕ) (request : ExecuteRequest) : Effect Reply :=
  if request.projectId ≠ X.projectId then .done (.unavailable "command_project_unavailable")
  else if request.timeoutMs > maxCommandTimeoutMs then
    .done (.unavailable "command_timeout_exceeds_host_limit")
  else
    Prog.tryCatch
      (do
        require
        if ← check then
          locked i (.operation request.operationId) (do
            match ← readCommand request.operationId with
            | some prior => .done (replay request prior)
            | none => executeNew X i request)
        else .done (.unavailable "command_journal_permissions_invalid"))
      (fun _ => .done (.unknown "command_provider_unavailable"))

/-- What a record says to an inspection; `none` when the process must be looked at. -/
def inspectRecord (request : InspectRequest) (value : Option CommandRecord) :
    Option Inspection :=
  match value with
  | none => some .notStarted
  | some r =>
    if r.requestDigest ≠ request.originalDigest then
      some (.unknown "command_operation_identity_mismatch")
    else
      match r.state with
      | .notStarted => some .notStarted
      | .completed =>
        if r.treeQuiescent = false then
          some (.unknown "command_descendant_quiescence_unconfirmed")
        else
          match r.observation with
          | some (observation, receipt) => some (.completed observation receipt)
          | none => some (.unknown "command_inspection_unavailable")
      | .running =>
        if r.pid.isSome ∧ r.processStart.isSome then none
        else some (.unknown "command_start_unobserved")
      | .starting => some (.unknown "command_effect_unknown")

/-- The read of `inspect`, which settles what it reports except for a running process. -/
def readInspection (request : InspectRequest) : Effect (Option Inspection) :=
  .atomic () (fun s v =>
    if v.ok then
      let out := inspectRecord request (s.record request.operationId)
      ({ s with history := (out.map (Event.inspected request.operationId)).toList ++ s.history },
        .ok out)
    else (s, .error .unavailable))

/-- `JournaledCommandExecutor.inspect`, called by the thread `i`. -/
def inspect (X : Executor) (i : ℕ) (request : InspectRequest) : Effect Reply :=
  if request.projectId ≠ X.projectId then .done (.unavailable "command_project_unavailable")
  else
    Prog.tryCatch
      (do
        match ← locked i (.operation request.operationId) (readInspection request) with
        | some inspection => .done (.inspection inspection)
        | none => do
          if ← check then .done (.inspection .running)
          else .done (.inspection (.unknown "command_completion_unobserved")))
      (fun _ => .done (.inspection (.unknown "command_inspection_unavailable")))

end Execute

section Handoff

/-- The entries of `_command_journal_clear`, one file after the other. -/
def clearEntries (a : AttemptId) : List OperationId → Effect Bool
  | [] => .done true
  | op :: rest => do
    match ← look (fun s v => if v.ok then .ok (some (s.record op)) else .ok none) with
    | none => .done false
    | some none => clearEntries a rest
    | some (some r) =>
      if r.attemptId = a ∧ r.state.settled = false then .done false else clearEntries a rest

/-- `_command_journal_clear`. -/
def commandJournalClear (a : AttemptId) : Effect Bool := do
  match ← look (fun s v => if v.ok then .ok (some s.commands.keys) else .ok none) with
  | none => .done false
  | some entries => clearEntries a entries

/-- `_require_quiescent_host`. -/
def requireQuiescentHost (a : AttemptId) : Effect Unit := do
  if ← commandJournalClear a then require else unavailable

/-- `_workspace_snapshot`. -/
def workspaceSnapshot (w : WorkspaceId) : Effect Snapshot :=
  look (fun s v => match s.workspaces w with
    | some snapshot => if v.ok then .ok snapshot else .error .unavailable
    | none => .error .unavailable)

/-- `git update-ref` with an all-zero old value. -/
def updateRef (a : AttemptId) (commit : String) : Effect Unit :=
  durably (fun s => if s.refs a = none then
    { s with refs := Function.update s.refs a (some commit) } else s)

/-- `_pin`. -/
def pin (a : AttemptId) (commit : String) : Effect Unit := do
  updateRef a commit
  let observed ← look (fun s v => if v.ok then .ok (s.refs a) else .error .unavailable)
  if observed = some commit then .done () else unavailable

/-- `_validate_record`. -/
def validateRecord (record : HandoffRecord) : Effect Bool :=
  Prog.tryCatch
    (do
      let pinned ← look (fun s v =>
        if v.ok then .ok (s.refs record.request.attempt) else .error .unavailable)
      let current ← workspaceSnapshot record.request.workspaceId
      .done (pinned = some record.source.commit && current = record.source))
    (fun _ => .done false)

def writeHandoff (record : HandoffRecord) : Effect Unit :=
  durably (fun s => { s with
    handoffs := Function.update s.handoffs record.request.attempt (some record) })

/-- What `handoff_authoring` does while it holds both locks. -/
def handoffLocked (request : HandoffRequest) : Effect Reply := do
  match ← look (fun s v => if v.ok then .ok (s.handoffs request.attempt)
      else .error .unavailable) with
  | some prior =>
    if prior.request ≠ request then unavailable
    else do
      if ← validateRecord prior then .done (.handedOff prior.source) else unavailable
  | none => do
    requireQuiescentHost request.attempt
    let source ← workspaceSnapshot request.workspaceId
    pin request.attempt source.commit
    -- the marker is only published for the source that is still in the workspace
    let current ← workspaceSnapshot request.workspaceId
    if current ≠ source then unavailable
    else do
      writeHandoff ⟨request, source⟩
      .done (.handedOff source)

/-- `handoff_authoring`, called by the thread `i`. -/
def handoffAuthoring (i : ℕ) (request : HandoffRequest) : Effect Reply := do
  require
  locked i (.attempt request.attempt) (locked i (.record request.attempt) (handoffLocked request))

def writeAttestation (a : AttemptId) (attestation : Attestation) : Effect Unit :=
  durably (fun s => { s with attestations := Function.update s.attestations a (some attestation) })

/-- `record_external_producer_completion`, called by the thread `i`; `subject` is what
the authenticated inspection of the attempt says of it. -/
def recordExternalProducerCompletion (i : ℕ) (a : AttemptId) (subject : List (String × String)) :
    Effect Reply := do
  require
  locked i (.attempt a) (do
    -- the inspection, the projection and the registered owners
    require
    if ← commandJournalClear a then do
      let observedAt ← now
      let attestation : Attestation := ⟨subject, observedAt + 24 * 60 * 60⟩
      match ← readAttestation a with
      | some prior =>
        if prior.subject ≠ subject then unavailable
        else if prior.expiresAt > observedAt then do
          if ← check then .done (.attested prior) else unavailable
        else do
          writeAttestation a attestation
          .done (.attested attestation)
      | none => do
        writeAttestation a attestation
        .done (.attested attestation)
    else unavailable)

/-- A request to the Git provider, with the number of writes that it makes. -/
structure GitRequest where
  attempt : Option AttemptId
  kind : GitOperationKind
  writes : ℕ

/-- The operation of the Git provider: each write is one for the attempt. -/
def gitWrites (a : AttemptId) (kind : GitOperationKind) : ℕ → Effect Reply
  | 0 => .done .performed
  | n + 1 => do
    Prog.atomic () (fun s v =>
      ({ s with history := .authored a kind :: s.history },
        if v.ok then .ok () else .error .unavailable))
    gitWrites a kind n

/-- `fence_authoring_effect`. Operations without an attempt or of another kind are not
fenced, and are not authoring effects of an attempt. -/
def fenceAuthoringEffect (i : ℕ) (request : GitRequest) : Effect Reply :=
  match request.attempt with
  | some a =>
    if request.kind = .other then .done .performed
    else
      locked i (.attempt a) (do
        if ← hasHandoffMarker i a then .done (.unavailable "attempt_authoring_handed_off")
        else gitWrites a request.kind request.writes)
  | none => .done .performed

end Handoff

section System

/-- A call that a thread may make. -/
inductive NativeCall where
  | execute (request : ExecuteRequest)
  | inspect (request : InspectRequest)
  | handoff (request : HandoffRequest)
  | attest (attempt : AttemptId) (subject : List (String × String))
  | git (request : GitRequest)

def NativeCall.program (X : Executor) (i : ℕ) : NativeCall → Effect Reply
  | .execute request => Native.execute X i request
  | .inspect request => Native.inspect X i request
  | .handoff request => handoffAuthoring i request
  | .attest a subject => recordExternalProducerCompletion i a subject
  | .git request => fenceAuthoringEffect i request

/-- What others do: the supervisors go on, and workspaces change. -/
inductive Surroundings where
  | supervisor (process : ℕ) (step : SupervisorStep)
  | workspace (id : WorkspaceId) (snapshot : Option Snapshot)

/-- A thread that crashes loses its locks, and the pipes it holds are closed. -/
def Host.crash (i : ℕ) (s : Host) : Host :=
  { s with
    locks := fun n => if s.locks n = some i then none else s.locks n
    processes := s.processes.map (fun sv =>
      if sv.owner = i ∧ sv.stdin = .pending then { sv with stdin := .closed } else sv) }

/-- The providers that `providers_for_project` composes, used by any number of threads. -/
def nativeSystem (projectId : String) :
    System ℕ Host Choice Unit Fault Reply NativeCall Surroundings where
  program := NativeCall.program ⟨projectId, true, true⟩
  crash := Host.crash
  env := fun s e => match e with
    | .supervisor h step => s.supervise h step
    | .workspace w snapshot =>
      some { s with workspaces := Function.update s.workspaces w snapshot }

end System

end ProjectControl.Native
