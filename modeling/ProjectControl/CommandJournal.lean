import Mathlib.Data.List.AList
import ProjectControl.Resumption

/-! The durable state that the native providers of one project share: the command
journal, the locks, the supervisors of authored commands, and the records of
external producers and of authoring handoffs. -/

set_option autoImplicit false

namespace ProjectControl.Native

open Resumption

abbrev OperationId := String
abbrev AttemptId := String
abbrev WorkspaceId := String

inductive CommandState where
  | starting | running | completed | notStarted
deriving DecidableEq

/-- Nothing is left to be resolved about such a command. -/
def CommandState.settled : CommandState → Bool
  | .completed | .notStarted => true
  | .starting | .running => false

/-- `CommandObservation`. -/
structure Observation where
  exitCode : Option ℤ
  timedOut : Bool
  startedAt : ℕ
  completedAt : ℕ
  stdoutDigest : String
  stderrDigest : String
deriving DecidableEq

/-- The receipt of an observation, without the identity of the provider. -/
structure Receipt where
  correlation : OperationId
  requestDigest : String
  observedAt : ℕ
deriving DecidableEq

/-- A record of the command journal; its file is named by the operation. -/
structure CommandRecord where
  attemptId : AttemptId
  requestDigest : String
  state : CommandState
  pid : Option ℕ := none
  processStart : Option String := none
  reason : Option String := none
  treeQuiescent : Bool := false
  observation : Option (Observation × Receipt) := none
deriving DecidableEq

inductive ReportState where
  | completed | unresolved | unavailable | notStarted
deriving DecidableEq

/-- What a supervisor writes to its private pipe. -/
structure Report where
  state : ReportState
  exitCode : Option ℤ := none
  timedOut : Bool := false
  treeQuiescent : Bool := false
  reason : Option String := none
  stdoutDigest : Option String := none
  stderrDigest : Option String := none
deriving DecidableEq

/-- The pipe on which a supervisor waits for its request. -/
inductive Stdin where
  | pending | delivered | closed
deriving DecidableEq

/-- Where the process of `native_command_supervisor.main` is. -/
inductive Outer where
  | waiting
  | accepted
  | sandboxed
  | exited (report : Option Report) (code : ℤ)
deriving DecidableEq

/-- Where its helper inside the sandbox is. -/
inductive Inner where
  | absent
  | reading
  | launched
  | ended (report : Option Report) (code : ℤ)
deriving DecidableEq

/-- A supervisor; `owner` is the thread that holds its pipe, `started` says whether
the authored command was executed and `tree` counts the command's live processes. -/
structure Supervisor where
  operation : OperationId
  attempt : AttemptId
  argv : List String
  owner : ℕ
  stdin : Stdin := .pending
  outer : Outer := .waiting
  inner : Inner := .absent
  started : Bool := false
  tree : ℕ := 0
deriving DecidableEq

/-- A commit of a workspace with its tree and source digest. -/
structure Snapshot where
  commit : String
  tree : String
  digest : String
deriving DecidableEq

/-- The fields of a handoff request that its record is compared with. -/
structure HandoffRequest where
  attempt : AttemptId
  leaseId : String
  workspaceId : WorkspaceId
  idempotencyKey : String
  digest : String
deriving DecidableEq

structure HandoffRecord where
  request : HandoffRequest
  source : Snapshot
deriving DecidableEq

/-- `subject` holds the fields of an attestation that a later one is compared with. -/
structure Attestation where
  subject : List (String × String)
  expiresAt : ℕ
deriving DecidableEq

/-- `GitOperationKind`, as far as the fence tells kinds apart. -/
inductive GitOperationKind where
  | applyChange | commit | publish | createWorkspace | other
deriving DecidableEq

/-- `CommandInspectionState`. -/
inductive Inspection where
  | notStarted
  | running
  | completed (observation : Observation) (receipt : Receipt)
  | unknown (reason : String)
deriving DecidableEq

/-- What happened on the host, in the order in which it happened. -/
inductive Event where
  | launched (operation : OperationId) (attempt : AttemptId)
  | quiescent (operation : OperationId) (report : Report)
  | recorded (operation : OperationId) (record : CommandRecord)
  | inspected (operation : OperationId) (inspection : Inspection)
  | authored (attempt : AttemptId) (kind : GitOperationKind)
deriving DecidableEq

inductive LockName where
  | operation (id : OperationId)
  | attempt (id : AttemptId)
  | record (id : AttemptId)
deriving DecidableEq

/-- The shared state; `history` has the latest event first. -/
structure Host where
  locks : LockName → Option ℕ := fun _ => none
  commands : AList (fun _ : OperationId => CommandRecord) := ∅
  processes : List Supervisor := []
  attestations : AttemptId → Option Attestation := fun _ => none
  handoffs : AttemptId → Option HandoffRecord := fun _ => none
  refs : AttemptId → Option String := fun _ => none
  workspaces : WorkspaceId → Option Snapshot := fun _ => none
  history : List Event := []

namespace Host

def record (s : Host) (op : OperationId) : Option CommandRecord := s.commands.lookup op

/-- The events that launched a command of an operation. -/
def launches (s : Host) (op : OperationId) : List Event :=
  s.history.filter (fun e => match e with
    | .launched op' _ => op' = op
    | _ => false)

/-- The events that launched a command of an attempt. -/
def launchesOf (s : Host) (a : AttemptId) : List Event :=
  s.history.filter (fun e => match e with
    | .launched _ a' => a' = a
    | _ => false)

/-- The fenced operations that were performed for an attempt. -/
def authoredFor (s : Host) (a : AttemptId) : List Event :=
  s.history.filter (fun e => match e with
    | .authored a' _ => a' = a
    | _ => false)

def putRecord (s : Host) (op : OperationId) (r : CommandRecord) : Host :=
  { s with
    commands := s.commands.insert op r
    history := .recorded op r :: s.history }

def setProcess (s : Host) (h : ℕ) (sv : Supervisor) : Host :=
  { s with processes := s.processes.set h sv }

@[simp] theorem record_putRecord_self (s : Host) (op : OperationId) (r : CommandRecord) :
    (s.putRecord op r).record op = some r := AList.lookup_insert _

@[simp] theorem record_putRecord_of_ne {s : Host} {op op' : OperationId} {r : CommandRecord}
    (h : op' ≠ op) : (s.putRecord op r).record op' = s.record op' := AList.lookup_insert_ne h

@[simp] theorem record_setProcess (s : Host) (h : ℕ) (sv : Supervisor) (op : OperationId) :
    (s.setProcess h sv).record op = s.record op := rfl

end Host

/-- The choices that the surroundings make for a step: whether its system call
succeeds, whether a write that raises had already replaced its file, and what the
clock and the kernel say. -/
structure Choice where
  ok : Bool := true
  durable : Bool := false
  now : ℕ := 0
  processStart : Option String := some "1"

inductive Fault where
  | unavailable
deriving DecidableEq

abbrev Effect := Prog Host Choice Unit Fault

section Primitives

variable {α : Type}

/-- `NativeProviderUnavailable`, or any other exception. -/
def unavailable : Effect α := .fail .unavailable

/-- A step that only looks. -/
def look (f : Host → Choice → Except Fault α) : Effect α :=
  .atomic () (fun s v => (s, f s v))

/-- A check that is made outside the modelled state. -/
def check : Effect Bool := look (fun _ v => .ok v.ok)

/-- The same for a check that raises. -/
def require : Effect Unit := look (fun _ v => if v.ok then .ok () else .error .unavailable)

def now : Effect ℕ := look (fun _ v => .ok v.now)

/-- A durable change of a file. When it raises the file may have been replaced. -/
def durably (f : Host → Host) : Effect Unit :=
  .atomic () (fun s v => (if v.ok ∨ v.durable then f s else s,
    if v.ok then .ok () else .error .unavailable))

/-- `flock` with `LOCK_EX`, by the thread `i`. Opening the file may fail. -/
def acquire (i : ℕ) (n : LockName) : Effect Unit :=
  .await () (fun s v => !v.ok || s.locks n = none) (fun s v =>
    if v.ok then ({ s with locks := Function.update s.locks n (some i) }, .ok ())
    else (s, .error .unavailable))

def release (i : ℕ) (n : LockName) : Effect Unit :=
  .atomic () (fun s _ =>
    ({ s with locks := fun m => if m = n ∧ s.locks n = some i then none else s.locks m }, .ok ()))

/-- `_locked` and `_locked_path`. -/
def locked (i : ℕ) (n : LockName) (body : Effect α) : Effect α := do
  acquire i n
  body.andThen (release i n)

/-- `JournaledCommandExecutor._read`. -/
def readCommand (op : OperationId) : Effect (Option CommandRecord) :=
  look (fun s v => if v.ok then .ok (s.record op) else .error .unavailable)

/-- `JournaledCommandExecutor._write`. -/
def writeCommand (op : OperationId) (r : CommandRecord) : Effect Unit :=
  durably (fun s => s.putRecord op r)

/-- The same where the code catches what `_write` raises. -/
def tryWriteCommand (op : OperationId) (r : CommandRecord) : Effect Bool :=
  .atomic () (fun s v => (if v.ok ∨ v.durable then s.putRecord op r else s, .ok v.ok))

end Primitives

end ProjectControl.Native
