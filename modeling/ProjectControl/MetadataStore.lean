import Mathlib.Data.List.Dedup
import Mathlib.Data.List.Sort
import Mathlib.Algebra.Order.Ring.Rat
import ProjectControl.SqlTable

/-! The metadata log of the projects, and the one operation that changes it. Payloads are
decoded JSON values `J`, taken up to the equality by which the store compares them. -/

set_option autoImplicit false

namespace ProjectControl.Metadata

open Sql

section Requests

/-- The actions, with the kind of declaration that each makes. -/
inductive AmendAction where
  | registerIdentity
  | registerRelation
  | registerGeneration
  | configureProvider
  | removeRegistration
  | recordSkillUse
  | updateOrientation
  deriving DecidableEq, Repr

/-- `ACTIONS`. -/
def AmendAction.kind : AmendAction → Option String
  | .registerIdentity => some "identity"
  | .registerRelation => some "relation"
  | .registerGeneration => some "generation"
  | .configureProvider => some "provider"
  | .removeRegistration => none
  | .recordSkillUse => some "skill_use"
  | .updateOrientation => some "orientation"

inductive Mode where
  | preview
  | apply
  deriving DecidableEq, Repr

/-- A request without its mode and expected revision. -/
structure Body (J : Type) where
  project : String
  operationId : String
  action : AmendAction
  payload : J
  /-- The fields that `amend` does not read. -/
  rest : J
  deriving DecidableEq

structure AmendRequest (J : Type) extends Body J where
  expectedRevision : ℤ
  mode : Mode := .apply
  deriving DecidableEq

/-- How `amend` looks into a decoded value. -/
structure Reader (J : Type) where
  /-- The value of a key, if there is a mapping with the key. -/
  field : J → String → Option J
  isNone : J → Bool
  text? : J → Option String
  /-- The integer that a value is equal to. -/
  int? : J → Option ℤ
  /-- What an iteration yields, if the value can be iterated over. -/
  elements : J → Option (List J)
  /-- The values of a mapping. -/
  values : J → Option (List J)

/-- `value.get(key)`. -/
def Reader.get {J : Type} (reader : Reader J) (v : J) (key : String) : Option J :=
  (reader.field v key).filter (fun x => !reader.isNone x)

def Reader.getText {J : Type} (reader : Reader J) (v : J) (key : String) : Option String :=
  (reader.get v key).bind reader.text?

end Requests

section Tables

structure ProjectRow where
  project : String
  scopeDigest : String
  revision : ℕ
  deriving DecidableEq, Repr

/-- The kind and the id of a declaration. -/
abbrev Key := String × String

structure Declaration (J : Type) where
  project : String
  kind : String
  id : String
  version : ℕ
  payload : J
  retired : Bool
  origin : String
  createdAt : ℚ
  revision : ℕ
  deriving DecidableEq

def Declaration.key {J : Type} (d : Declaration J) : Key := (d.kind, d.id)

/-- An entry of `affected`. -/
structure Affected where
  kind : String
  id : String
  version : ℕ
  deriving DecidableEq, Repr

/-- An entry of `invalidations`. -/
structure Invalidation where
  kind : String
  entityId : String
  deriving DecidableEq, Repr

/-- An entry of `changes`. -/
structure AmendChange where
  action : AmendAction
  kind : String
  id : String
  deriving DecidableEq, Repr

structure Review (J : Type) where
  reviewDigest : String
  affected : List Affected
  sources : List J
  invalidations : List Invalidation
  trustDigest : String
  deriving DecidableEq

inductive Status where
  | applied
  | noop
  deriving DecidableEq, Repr

structure Receipt where
  status : Status
  operationId : String
  revision : ℕ
  affected : List Affected
  /-- Absent from the receipt of a noop. -/
  change : Option AmendChange
  invalidations : List Invalidation
  deriving DecidableEq, Repr

structure OperationRow (J : Type) where
  project : String
  operationId : String
  requestHash : String
  request : AmendRequest J
  receipt : Receipt
  createdAt : ℚ
  deriving DecidableEq

structure PreviewRow (J : Type) where
  project : String
  operationId : String
  requestHash : String
  expectedRevision : ℕ
  review : Review J
  createdAt : ℚ
  deriving DecidableEq

structure InvalidationRow where
  project : String
  revision : ℕ
  kind : String
  entityId : String
  action : AmendAction
  createdAt : ℚ
  deriving DecidableEq, Repr

variable {J : Type}

def ProjectRow.Distinct (a b : ProjectRow) : Prop := a.project ≠ b.project

def Declaration.Distinct (a b : Declaration J) : Prop :=
  (a.project, a.key, a.version) ≠ (b.project, b.key, b.version)

def OperationRow.Distinct (a b : OperationRow J) : Prop :=
  (a.project, a.operationId) ≠ (b.project, b.operationId)

def PreviewRow.Distinct (a b : PreviewRow J) : Prop :=
  (a.project, a.operationId) ≠ (b.project, b.operationId)

def InvalidationRow.Distinct (a b : InvalidationRow) : Prop :=
  (a.project, a.revision, a.kind, a.entityId) ≠ (b.project, b.revision, b.kind, b.entityId)

instance : DecidableRel ProjectRow.Distinct := fun a b =>
  inferInstanceAs (Decidable (a.project ≠ b.project))

instance : DecidableRel (Declaration.Distinct (J := J)) := fun a b =>
  inferInstanceAs (Decidable ((a.project, a.key, a.version) ≠ (b.project, b.key, b.version)))

instance : DecidableRel (OperationRow.Distinct (J := J)) := fun a b =>
  inferInstanceAs (Decidable ((a.project, a.operationId) ≠ (b.project, b.operationId)))

instance : DecidableRel (PreviewRow.Distinct (J := J)) := fun a b =>
  inferInstanceAs (Decidable ((a.project, a.operationId) ≠ (b.project, b.operationId)))

instance : DecidableRel InvalidationRow.Distinct := fun a b =>
  inferInstanceAs (Decidable
    ((a.project, a.revision, a.kind, a.entityId) ≠ (b.project, b.revision, b.kind, b.entityId)))

/-- The tables of `project-metadata.sqlite3`. -/
structure Store (J : Type) where
  projects : Table ProjectRow ProjectRow.Distinct := .empty
  declarations : Table (Declaration J) Declaration.Distinct := .empty
  operations : Table (OperationRow J) OperationRow.Distinct := .empty
  previews : Table (PreviewRow J) PreviewRow.Distinct := .empty
  invalidations : Table InvalidationRow InvalidationRow.Distinct := .empty

end Tables

section Lookups

variable {J : Type} (s : Store J) (project : String)

def Store.projectRow? : Option ProjectRow := s.projects.rows.find? (·.project = project)

/-- The revision of a project, 0 for one without a row. -/
def Store.revision : ℕ := ((s.projectRow? project).map (·.revision)).getD 0

def Store.operation? (operationId : String) : Option (OperationRow J) :=
  s.operations.rows.find? (fun op => op.project = project && op.operationId = operationId)

def Store.preview? (operationId : String) : Option (PreviewRow J) :=
  s.previews.rows.find? (fun p => p.project = project && p.operationId = operationId)

/-- Whether no version of the same declaration is later. -/
def Store.isLatest (d : Declaration J) : Bool :=
  s.declarations.rows.all (fun x =>
    !(x.project = d.project && x.key = d.key) || x.version ≤ d.version)

def Declaration.before (a b : Declaration J) : Prop :=
  a.kind < b.kind ∨ a.kind = b.kind ∧ a.id ≤ b.id

instance : DecidableRel (Declaration.before (J := J)) := fun a b =>
  inferInstanceAs (Decidable (a.kind < b.kind ∨ a.kind = b.kind ∧ a.id ≤ b.id))

/-- `_latest`. -/
def Store.latest : List (Declaration J) :=
  (s.declarations.rows.filter (fun d => d.project = project && s.isLatest d)).insertionSort
    Declaration.before

/-- `current_by_key.get((kind, id))`. -/
def currentByKey (latest : List (Declaration J)) (key : Key) : Option (Declaration J) :=
  (latest.filter (fun d => d.key = key)).getLast?

end Lookups

section Amend

inductive MetadataError where
  | value (message : String)
  | key (name : String)
  | type
  /-- A failed `INSERT`. -/
  | integrity
  deriving DecidableEq, Repr

/-- `_digest` of the values that `amend` hashes. -/
structure Hashes (J : Type) where
  request : Body J → String
  /-- Of the provider allowlist, or of an empty mapping. -/
  trust : Option J → String
  review : List Affected → List J → String → J → List Invalidation → String

/-- A call of `amend`. -/
structure Call (J : Type) where
  request : AmendRequest J
  scopeDigest : String
  validateSources : J → Except MetadataError (List J)
  providerAllowlist : J
  projectIdentities : List String
  /-- `time.time()`. -/
  clock : ℚ

inductive ReplyStatus where
  | preview
  | applied
  | noop
  | replayed
  deriving DecidableEq, Repr

inductive Reply (J : Type) where
  | receipt (status : ReplyStatus) (receipt : Receipt)
  | preview (operationId : String) (expectedRevision : ℕ) (review : Review J)
      (changes : List AmendChange)
  deriving DecidableEq

def Status.reply : Status → ReplyStatus
  | .applied => .applied
  | .noop => .noop

variable {J : Type} [DecidableEq J] (reader : Reader J) (hashes : Hashes J)

/-- The answer to an operation that has been recorded. -/
def replay (prior : OperationRow J) (r : AmendRequest J) : Except MetadataError (Reply J) :=
  if prior.requestHash ≠ hashes.request r.toBody then throw (.value "operation_id_conflict")
  else if prior.request.expectedRevision ≠ r.expectedRevision then
    throw (.value "project_metadata_revision_stale")
  else
    let status := if prior.receipt.status = .applied then .replayed else prior.receipt.status.reply
    return .receipt status prior.receipt

/-- The checks against an earlier preview of the operation. -/
def checkPreview (prior : Option (PreviewRow J)) (r : AmendRequest J) :
    Except MetadataError Unit :=
  match prior with
  | none => pure ()
  | some p =>
    if p.requestHash ≠ hashes.request r.toBody then throw (.value "operation_id_conflict")
    else if (p.expectedRevision : ℤ) ≠ r.expectedRevision then
      throw (.value "project_metadata_revision_stale")
    else pure ()

/-- Whether a side of a relation names the declaration that is removed. -/
def refersTo (identities : List String) (current : Declaration J) (row : Declaration J)
    (side : String) : Bool :=
  match reader.field row.payload side with
  | none => false
  | some ref =>
    reader.getText ref "kind" = some current.kind && reader.getText ref "id" = some current.id &&
      (reader.getText ref "project_uuid").any (· ∈ identities) &&
      (reader.get current.payload "repository" = none ||
        reader.get ref "repository" = reader.get current.payload "repository")

def related (identities : List String) (current row : Declaration J) : Bool :=
  !row.retired && row.kind = "relation" &&
    ["source", "target"].any (refersTo reader identities current row)

/-- `affected_rows`. -/
def affectedRows (c : Call J) (latest : List (Declaration J)) (kind id : String) :
    Except MetadataError (List (Declaration J)) :=
  let current := currentByKey latest (kind, id)
  if c.request.action = .removeRegistration then
    match current with
    | none => throw (.value "registration_stale")
    | some row =>
      if row.retired then throw (.value "registration_stale")
      else match reader.field c.request.payload "version" with
      | none => throw (.key "version")
      | some version =>
        if reader.int? version ≠ some (row.version : ℤ) then throw (.value "registration_stale")
        else return row :: latest.filter (related reader c.projectIdentities row)
  else return current.toList

/-- Whether a declaration stands already as the request makes it. -/
def isNoop (r : AmendRequest J) (current : Option (Declaration J)) : Bool :=
  r.action ≠ .removeRegistration && (match current with
    | none => false
    | some row => !row.retired && row.origin = "project_declared" && row.payload = r.payload)

/-- What an iteration over `value.get(key, [])` yields. -/
def elementsOf (v : J) (key : String) : Except MetadataError (List J) :=
  match reader.field v key with
  | none => return []
  | some items => match reader.elements items with
    | none => throw .type
    | some elements => return elements

/-- The source locators of a payload. -/
def locators (item : J) : Except MetadataError (List J) := do
  let anchors ← elementsOf reader item "anchors"
  let inputs ← elementsOf reader item "inputs"
  let groups ← match reader.field item "field_anchors" with
    | none => pure []
    | some value => match reader.values value with
      | none => throw .type
      | some groups => pure groups
  let fieldAnchors ← groups.mapM (fun group => match reader.elements group with
    | none => throw MetadataError.type
    | some elements => pure elements)
  return anchors ++ inputs ++ fieldAnchors.flatten

/-- `sorted(entities)`. -/
def entities (id : String) (items : List J) : Except MetadataError (List String) := do
  let found ← items.mapM (locators reader)
  let paths := found.flatten.filterMap (fun l => (reader.field l "path").bind reader.text?)
  return (id :: paths).dedup.insertionSort (· ≤ ·)

/-- What an amendment is found to change. -/
structure Draft (J : Type) where
  kind : String
  id : String
  latest : List (Declaration J)
  affectedRows : List (Declaration J)
  noop : Bool
  review : Review J

def Declaration.affected (d : Declaration J) : Affected := ⟨d.kind, d.id, d.version⟩

/-- The part of `amend` that a preview and an application share. -/
def draft (s : Store J) (c : Call J) : Except MetadataError (Draft J) := do
  let r := c.request
  let sources ← c.validateSources r.payload
  let latest := s.latest r.project
  let some id := (reader.field r.payload "id").bind reader.text? | throw (.key "id")
  let some kind := r.action.kind.orElse (fun _ => reader.getText r.payload "kind")
    | throw (.value "registration_stale")
  let rows ← affectedRows reader c latest kind id
  let noop := isNoop r (currentByKey latest (kind, id))
  let affected := rows.map Declaration.affected
  let ids ← entities reader id (r.payload :: rows.map (·.payload))
  let invalidations := if noop then [] else
    ids.flatMap (fun identity => ["graph", "search", "orientation"].map (⟨·, identity⟩))
  let trustDigest :=
    hashes.trust (if r.action = .configureProvider then some c.providerAllowlist else none)
  let reviewDigest := hashes.review affected sources trustDigest r.payload invalidations
  return ⟨kind, id, latest, rows, noop,
    ⟨reviewDigest, affected, sources, invalidations, trustDigest⟩⟩

def Draft.change (d : Draft J) (r : AmendRequest J) : AmendChange := ⟨r.action, d.kind, d.id⟩

/-- The preview of an amendment. -/
def previewAmendment (s : Store J) (c : Call J) (prior : Option (PreviewRow J)) (d : Draft J) :
    Except MetadataError (Store J × Reply J) := do
  let r := c.request
  let revision := s.revision r.project
  let reply := Reply.preview r.operationId revision d.review (if d.noop then [] else [d.change r])
  match prior with
  | some p =>
    if p.review ≠ d.review then throw (.value "project_metadata_review_stale")
    return (s, reply)
  | none =>
    match s.previews.insert?
      ⟨r.project, r.operationId, hashes.request r.toBody, revision, d.review, c.clock⟩ with
    | none => throw .integrity
    | some previews => return ({ s with previews }, reply)

/-- `INSERT INTO metadata_operations`, for a receipt. -/
def recordOperation (s : Store J) (c : Call J) (receipt : Receipt) :
    Except MetadataError (Store J) :=
  let r := c.request
  match s.operations.insert?
    ⟨r.project, r.operationId, hashes.request r.toBody, r, receipt, c.clock⟩ with
  | none => throw .integrity
  | some operations => return { s with operations }

/-- The statement that records the scope and the revision of a project, if it has a row. -/
def setProject (scopeDigest : String) (revision : ℕ) : Change ProjectRow.Distinct :=
  ⟨fun row => { row with scopeDigest, revision }, fun _ _ h => h, fun _ _ h => h⟩

/-- `UPDATE metadata_projects SET scope_digest=?`. -/
def rescope (s : Store J) (c : Call J) : Store J :=
  { s with
    projects := s.projects.update (fun row => row.project = c.request.project)
      ⟨fun row => { row with scopeDigest := c.scopeDigest }, fun _ _ h => h, fun _ _ h => h⟩ }

/-- `INSERT INTO metadata_projects … ON CONFLICT(project) DO UPDATE`. -/
def upsertProject (s : Store J) (c : Call J) (revision : ℕ) : Store J :=
  let new : ProjectRow := ⟨c.request.project, c.scopeDigest, revision⟩
  { s with
    projects := (s.projects.insert? new).getD
      (s.projects.update (fun row => row.project = c.request.project)
        (setProject c.scopeDigest revision)) }

/-- The row that is inserted for a target. -/
def declared (c : Call J) (d : Draft J) (revision : ℕ) (target : Key) : Declaration J :=
  let previous := currentByKey d.latest target
  let retired := decide (c.request.action = .removeRegistration)
  { project := c.request.project
    kind := target.1
    id := target.2
    version := (previous.map (·.version + 1)).getD 1
    payload := if retired then (previous.map (·.payload)).getD c.request.payload
      else c.request.payload
    retired := retired
    origin := "project_declared"
    createdAt := c.clock
    revision := revision }

/-- `INSERT INTO metadata_declarations`. -/
def declare (c : Call J) (d : Draft J) (revision : ℕ) (s : Store J) (target : Key) :
    Except MetadataError (Store J) :=
  match s.declarations.insert? (declared c d revision target) with
  | none => throw .integrity
  | some declarations => return { s with declarations }

/-- `INSERT OR IGNORE INTO metadata_invalidations`. -/
def invalidate (c : Call J) (revision : ℕ) (s : Store J) (item : Invalidation) : Store J :=
  let r := c.request
  { s with
    invalidations := (s.invalidations.insert?
      ⟨r.project, revision, item.kind, item.entityId, r.action, c.clock⟩).getD s.invalidations }

/-- The targets of an amendment. -/
def targets (c : Call J) (d : Draft J) : List Key :=
  if c.request.action = .removeRegistration then d.affectedRows.map (·.key) else [(d.kind, d.id)]

/-- The application of an amendment. -/
def applyAmendment (s : Store J) (c : Call J) (prior : Option (PreviewRow J)) (d : Draft J) :
    Except MetadataError (Store J × Reply J) := do
  let r := c.request
  let revision := s.revision r.project
  if prior.any (fun p => p.review ≠ d.review) then throw (.value "project_metadata_review_stale")
  if d.noop then
    let receipt : Receipt := ⟨.noop, r.operationId, revision, d.review.affected, none, []⟩
    let s ← recordOperation hashes (rescope s c) c receipt
    return (s, .receipt .noop receipt)
  else
    let next := revision + 1
    let s ← (targets c d).foldlM (declare c d next) (upsertProject s c next)
    let s := d.review.invalidations.foldl (invalidate c next) s
    let receipt : Receipt := ⟨.applied, r.operationId, next, d.review.affected,
      some (d.change r), d.review.invalidations⟩
    let s ← recordOperation hashes s c receipt
    return (s, .receipt .applied receipt)

/-- `ProjectMetadataStore.amend`, one transaction. -/
def amend (s : Store J) (c : Call J) : Except MetadataError (Store J × Reply J) := do
  let r := c.request
  match s.operation? r.project r.operationId with
  | some prior => return (s, ← replay hashes prior r)
  | none =>
    let prior := s.preview? r.project r.operationId
    checkPreview hashes prior r
    if (s.revision r.project : ℤ) ≠ r.expectedRevision then
      throw (.value "project_metadata_revision_stale")
    let d ← draft reader hashes s c
    match r.mode with
    | .preview => previewAmendment hashes s c prior d
    | .apply => applyAmendment hashes s c prior d

end Amend

end ProjectControl.Metadata
