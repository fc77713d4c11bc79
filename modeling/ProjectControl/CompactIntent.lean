import ProjectControl.Resumption
import ProjectControl.CompactStore

/-! The durable mutation requests of the compact host: an intent is persisted
under a phase name before its request is sent, and refreshed on a stale reply. -/

set_option autoImplicit false

namespace ProjectControl.Compact

open Resumption

/-- A call of the native host. Reads carry neither a key nor a revision. -/
structure Call where
  tool : Tool
  project : String
  repository : String
  arguments : Dict
  idempotencyKey : Option Key := none
  expectedRevision : Option ℕ := none

/-- The native host returns data, asks for attention, or its reply is lost. -/
inductive Reply where
  | raised
  | attention (reason : String)
  | ok (data : Dict)
  deriving DecidableEq

/-- What the environment chooses for a step: the reply of an unconstrained native
host, a random token, by how much a commit raises the authority's revision beyond
one, and the outcome of read-only native page walks. -/
structure Input where
  reply : Reply := .raised
  token : Handle := ""
  jump : ℕ := 0
  capsule : Except String (Dict × List String) := .error "task_context_fragments_unavailable"
  review : Except String (Option ReviewCandidate) := .ok none

structure NativeHost (A : Type) where
  serve : A → Call → Input → A × Reply

/-- A mutation request that was sent, with the reply it got. -/
structure Sent where
  payload : Payload
  key : Key
  revision : ℕ
  reply : Reply
  deriving DecidableEq

/-- `sent` records the mutation requests and `issued` the intents that were ever
stored, both the newest first. No step reads them. -/
structure World (A : Type) where
  journal : Journal
  native : A
  sent : List Sent := []
  issued : List (Handle × PhaseName × Intent) := []

/-- What a step does. The `rejected` request before a refresh and the phase that
was `entered` before an update are not read by the step itself. -/
inductive Label where
  | read
  | native (tool : Tool)
  | persist (handle : Handle) (name : PhaseName) (intent : Intent)
  | refresh (handle : Handle) (name : PhaseName) (rejected : Key × ℕ) (revision : ℕ)
  | update (handle : Handle) (entered : Option Phase) (changes : Record)
  | select (handle : Handle)
  | reserve

abbrev Host (A : Type) := Prog (World A) Input Label Err

structure Target where
  handle : Handle
  project : String
  repository : String
  deriving DecidableEq

namespace World

variable {A : Type}

/-- The intent that the journal holds for a phase of a handle. -/
def intent (s : World A) (handle : Handle) (name : PhaseName) : Option Intent :=
  (s.journal.record handle).bind (fun row => row.2.2.intent name)

/-- The journal holds this record for a handle in its scope. -/
abbrev Holds (s : World A) (t : Target) (data : Record) : Prop :=
  s.journal.record t.handle = some (t.project, t.repository, data)

/-- The issued intents once `data` is stored, with its intent if that is new. -/
def noted (s : World A) (handle : Handle) (name : PhaseName) (data : Record) :
    List (Handle × PhaseName × Intent) :=
  match data.intent name with
  | some i => if s.intent handle name = some i then s.issued else (handle, name, i) :: s.issued
  | none => s.issued

/-- The state in which the record of a handle is replaced. -/
def put (s : World A) (handle : Handle) (data : Record) : World A :=
  { s with journal := s.journal.setData handle data }

/-- The state in which an intent is added to a record or replaced in it. -/
def issue (s : World A) (handle : Handle) (name : PhaseName) (old : Record) (intent : Intent) :
    World A :=
  { s.put handle (old.setIntent name intent) with issued := (handle, name, intent) :: s.issued }

variable {s : World A} {h : Handle} {p r : String}

theorem intent_eq {data : Record} (hs : s.journal.record h = some (p, r, data))
    (name : PhaseName) : s.intent h name = data.intent name := by
  simp [intent, hs]

theorem record_put {old : Record} (hs : s.journal.record h = some (p, r, old))
    (data : Record) : (s.put h data).journal.record h = some (p, r, data) :=
  Journal.record_setData_self hs

theorem record_put_of_ne {h' : Handle} (data : Record) (hne : h' ≠ h) :
    (s.put h data).journal.record h' = s.journal.record h' :=
  Journal.record_setData_of_ne data hne

theorem noted_of_record {data : Record} (hs : s.journal.record h = some (p, r, data))
    (name : PhaseName) : s.noted h name data = s.issued := by
  unfold noted
  split
  · rename_i i hi
    exact if_pos ((intent_eq hs name).trans hi)
  · rfl

theorem noted_setIntent {old : Record} {name : PhaseName} {i : Intent}
    (hs : s.journal.record h = some (p, r, old)) (hne : old.intent name ≠ some i) :
    s.noted h name (old.setIntent name i) = (h, name, i) :: s.issued := by
  have hne' : s.intent h name ≠ some i := by rwa [intent_eq hs name]
  simp [noted, hne']

theorem intent_issue {old : Record} (hs : s.journal.record h = some (p, r, old))
    (name : PhaseName) (i : Intent) : (s.issue h name old i).intent h name = some i :=
  (intent_eq (record_put hs _) name).trans (Record.setIntent_intent_self old name i)

end World

def raise {A α : Type} (code : String) : Host A α := .fail (.workflow code)

section Steps

variable {A α : Type} (N : NativeHost A) (c : Codec)

def onJournal (f : Journal → Except Err (α × Journal)) (s : World A) : World A × Except Err α :=
  match f s.journal with
  | .ok (a, j) => ({ s with journal := j }, .ok a)
  | .error e => (s, .error e)

def storeGet (t : Target) : Host A Record :=
  .atomic .read (fun s _ => (s, Store.get c s.journal t.handle t.project t.repository))

def storeUpdate (t : Target) (entered : Option Phase) (changes : Record) : Host A Record :=
  .atomic (.update t.handle entered changes)
    (fun s _ => onJournal (fun j => Store.update c j t.handle t.project t.repository changes) s)

def storeAtomic (label : Label) (t : Target) (fn : Record → Except Err (Option Record)) :
    Host A Record :=
  .atomic label
    (fun s _ => onJournal (fun j => Store.atomicUpdate c j t.handle t.project t.repository fn) s)

/-- The update of one intent of a record, which is also noted as issued. -/
def storeIntent (label : Label) (t : Target) (name : PhaseName)
    (fn : Record → Except Err (Option Record)) : Host A Record :=
  .atomic label (fun s _ =>
    match Store.atomicUpdate c s.journal t.handle t.project t.repository fn with
    | .ok (data, j) =>
      ({ s with journal := j, issued := s.noted t.handle name data }, .ok data)
    | .error e => (s, .error e))

/-- The mapping that `_invoke` returns for a reply. -/
def Reply.result : Reply → Except Err Dict
  | .raised => .error .other
  | .attention reason =>
    .ok [("reason", .str reason), ("status", .str "attention_required")]
  | .ok data => .ok data

def reasonOf (d : Dict) : Option String := (d.get "reason").bind Json.text?

def isAttention (d : Dict) : Bool := d.get "status" = some (.str "attention_required")

def isStale (d : Dict) : Bool :=
  isAttention d && d.get "reason" = some (.str "stale_authority_revision")

def serveRead (project repository : String) (tool : Tool) (arguments : Dict) : Host A Dict :=
  .atomic (.native tool) (fun s v =>
    let out := N.serve s.native ⟨tool, project, repository, arguments, none, none⟩ v
    ({ s with native := out.1 }, out.2.result))

def serveMutation (project repository : String) (payload : Payload) (key : Key)
    (revision : ℕ) : Host A Dict :=
  .atomic (.native payload.tool) (fun s v =>
    let out := N.serve s.native
      ⟨payload.tool, project, repository, payload.arguments, some key, some revision⟩ v
    ({ s with native := out.1, sent := ⟨payload, key, revision, out.2⟩ :: s.sent },
      out.2.result))

/-- The check of `_invoke` that a record names its scope. -/
def withScope (record : Record) (k : String → String → Host A α) : Host A α :=
  match record.project, record.repository with
  | some project, some repository => k project repository
  | _, _ => raise "workflow_scope_invalid"

/-- `_invoke` without an idempotency key. -/
def invoke (tool : Tool) (record : Record) (arguments : Dict) : Host A Dict :=
  withScope record (fun project repository => serveRead N project repository tool arguments)

/-- `_invoke` of a mutation. -/
def invokeMutation (record : Record) (payload : Payload) (key : Key) (revision : ℕ) :
    Host A Dict :=
  withScope record (fun project repository =>
    serveMutation N project repository payload key revision)

/-- The authority's `semantic_revision`. -/
def observeRevision (t : Target) : Host A ℕ := do
  let observed ← serveRead N t.project t.repository .readAuthority
    [("expected_revision", .null), ("limit", .num 1), ("page_token", .null)]
  if isAttention observed then
    raise ((reasonOf observed).getD "authority_revision_unavailable")
  else
    match (observed.get "semantic_revision").bind Json.nat? with
    | some revision => .done revision
    | none => raise "authority_revision_unavailable"

/-- The callback `persist` of `_phase_intent`. -/
def persistIntent (name : PhaseName) (intent : Intent) (current : Record) :
    Except Err (Option Record) :=
  match current.intent name with
  | some existing =>
    if existing.payload ≠ intent.payload then .error (.workflow "workflow_phase_intent_conflict")
    else .ok none
  | none => .ok (some (current.setIntent name intent))

/-- The request that an intent stands for, if it was persisted for `payload`. -/
def storedRequest (record latest : Record) (payload : Payload) (intent : Intent) :
    Host A ((Key × ℕ) × Record) :=
  if intent.payload ≠ payload then raise "workflow_phase_intent_conflict"
  else .done ((intent.idempotencyKey, intent.expectedRevision), record.merge latest)

def expectedOrObserved (t : Target) : Option ℕ → Host A ℕ
  | some revision => .done revision
  | none => observeRevision N t

/-- `_phase_intent`: persists one exact mutation request before it is sent. The
caller's record is returned with what the journal holds now. -/
def phaseIntent (t : Target) (record : Record) (name : PhaseName) (payload : Payload)
    (expectedRevision : Option ℕ) (idempotencyKey : Option Key) :
    Host A ((Key × ℕ) × Record) :=
  if c.payloadBytes payload > 32 * 1024 then raise "native_phase_intent_too_large"
  else do
    let latest ← storeGet c t
    match latest.intent name with
    | some prior => storedRequest record latest payload prior
    | none => do
      let revision ← expectedOrObserved N t expectedRevision
      let key := idempotencyKey.getD (operationKey t.handle (.native name) (.request payload))
      let intent : Intent := ⟨payload, key, revision, 0⟩
      let current ← storeIntent c (.persist t.handle name intent) t name
        (persistIntent name intent)
      match current.intent name with
      | some stored => storedRequest record current payload stored
      | none => .fail .other

/-- The intent after a refresh: a new generation with a new key. -/
def Intent.refreshed (intent : Intent) (handle : Handle) (name : PhaseName) (payload : Payload)
    (revision : ℕ) : Intent :=
  { intent with
    expectedRevision := revision
    idempotencyKey := operationKey handle (.retry name (intent.generation + 1)) (.request payload)
    generation := intent.generation + 1 }

/-- The callback `refresh` of `_refresh_phase_intent`. -/
def refreshIntent (handle : Handle) (name : PhaseName) (payload : Payload) (revision : ℕ)
    (current : Record) : Except Err (Option Record) :=
  match current.intent name with
  | none => .error (.workflow "workflow_phase_intent_unavailable")
  | some intent =>
    if intent.payload ≠ payload then .error (.workflow "workflow_phase_intent_conflict")
    else if intent.expectedRevision = revision then .ok none
    else .ok (some (current.setIntent name (intent.refreshed handle name payload revision)))

/-- `_refresh_phase_intent`. -/
def refreshPhaseIntent (t : Target) (record : Record) (name : PhaseName) (payload : Payload)
    (rejected : Key × ℕ) : Host A Record := do
  let revision ← observeRevision N t
  let current ← storeIntent c (.refresh t.handle name rejected revision) t name
    (refreshIntent t.handle name payload revision)
  .done (record.merge current)

/-- `_invoke_phase`: the loop of two rounds, of which only the first may refresh. -/
def invokePhase (t : Target) (record : Record) (name : PhaseName) (payload : Payload)
    (expectedRevision : Option ℕ := none) (idempotencyKey : Option Key := none) :
    Host A (Dict × Record) := do
  let (request, record) ←
    phaseIntent N c t record name payload expectedRevision idempotencyKey
  let result ← invokeMutation N record payload request.1 request.2
  if isStale result then do
    let record ← refreshPhaseIntent N c t record name payload request
    let (request, record) ← phaseIntent N c t record name payload none none
    let result ← invokeMutation N record payload request.1 request.2
    .done (result, record)
  else .done (result, record)

end Steps

theorem persistIntent_ok {name : PhaseName} {intent : Intent} {old : Record} {new : Option Record}
    (h : persistIntent name intent old = .ok new) :
    (∃ i, old.intent name = some i ∧ i.payload = intent.payload ∧ new = none) ∨
    (old.intent name = none ∧ new = some (old.setIntent name intent)) := by
  unfold persistIntent at h
  split at h
  · rename_i i hi
    split at h
    · cases h
    · rename_i hp
      cases h
      exact Or.inl ⟨i, hi, not_ne_iff.mp hp, rfl⟩
  · cases h
    exact Or.inr ⟨by assumption, rfl⟩

theorem refreshIntent_ok {handle : Handle} {name : PhaseName} {payload : Payload}
    {revision : ℕ} {old : Record} {new : Option Record}
    (h : refreshIntent handle name payload revision old = .ok new) :
    ∃ i, old.intent name = some i ∧ i.payload = payload ∧
      ((i.expectedRevision = revision ∧ new = none) ∨
        (i.expectedRevision ≠ revision ∧
          new = some (old.setIntent name (i.refreshed handle name payload revision)))) := by
  unfold refreshIntent at h
  split at h
  · cases h
  · rename_i i hi
    split at h
    · cases h
    · rename_i hp
      refine ⟨i, hi, not_ne_iff.mp hp, ?_⟩
      split at h
      · rename_i hr
        cases h
        exact Or.inl ⟨hr, rfl⟩
      · rename_i hr
        cases h
        exact Or.inr ⟨hr, rfl⟩

end ProjectControl.Compact
