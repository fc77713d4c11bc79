import ProjectControl.PacketStore

/-! The notebook of the packet store: a note pins the packets that it cites as evidence. -/

set_option autoImplicit false

namespace ProjectControl.Packets

open Sql

section Notes

variable {V J : Type} [DecidableEq J] (rules : Rules V J)

/-- `_note_scope_allows`. -/
def noteScopeAllows (saved supplied : Scope J) : Bool :=
  !supplied.isEmpty && saved.lookup "principal" = supplied.lookup "principal" &&
    authorized saved supplied

/-- The whitespace of `str.strip`. -/
def isSpace (c : Char) : Bool :=
  (9 ≤ c.toNat && c.toNat ≤ 13) || (28 ≤ c.toNat && c.toNat ≤ 32) ||
    (8192 ≤ c.toNat && c.toNat ≤ 8202) ||
    [133, 160, 5760, 8232, 8233, 8239, 8287, 12288].contains c.toNat

def blank (text : String) : Bool := text.toList.all isSpace

/-- `_validate_note`. -/
def validateNote (userGoal : Bool) (record : Note J) : Except Failure (Note J) := do
  if !userGoal && (record.provenance = "user" || record.kind = "goal") then
    throw (.value "user goals require the trusted put_user_goal path")
  let value := if userGoal then { record with kind := "goal", provenance := "user" } else record
  if blank value.noteId || 128 < value.noteId.length then
    throw (.value "note_id must be a stable nonempty identifier of at most 128 characters")
  if value.noteId.toList.any (fun c => c.toNat < 32) then
    throw (.value "note_id contains a control character")
  [("project", value.project), ("kind", value.kind), ("claim", value.claim),
    ("reason_matters", value.reasonMatters)].forM (fun field =>
      if blank field.2 then throw (.value (field.1 ++ " must be a nonempty string")) else pure ())
  if value.provenance ∉ ["user", "source", "test", "model"] then
    throw (.value "unsupported note provenance")
  if !value.sources.all SourceLocator.valid then throw (.value "invalid source locator")
  if !value.evidencePackets.all (fun ref => "pkt_".toList.isPrefixOf ref.toList) then
    throw (.value "evidence_packets must contain original packet IDs")
  if ¬ value.evidencePackets.Nodup then throw (.value "evidence_packets must be unique")
  let details ← (rules.noteDetails value.details).mapError Failure.value
  if (value.provenance = "source" ∨ value.provenance = "test") ∧
      (value.sources = [] ∨ value.evidencePackets = []) then
    throw (.value "source/test notes require original source locators and evidence packets")
  let value := { value with details := details }
  if rules.unmaskedNote value then
    throw (.value "note contains private or authority material")
  if 8 * 1024 < rules.noteSize value then throw (.value "note exceeds 8 KiB record cap")
  pure value

/-- The body of the loop over the cited packets. -/
def checkEvidence (store : Store V J) (live : List String) (scope : Scope J)
    (sources : List SourceLocator) (id : String) : Except Failure (List SourceLocator) :=
  match store.row? id with
  | none => throw (.value "note evidence packet is missing or expired")
  | some r =>
    if r.expired || r.id ∉ live then
      throw (.value "note evidence packet is missing or expired")
    else if !noteScopeAllows r.metadata.accessScope scope then
      throw (.permission "note evidence packet is outside current trusted scope")
    else
      match store.body? r.hash with
      | none => throw .corruption
      | some payload =>
        if rules.preparedContext r.metadata r.invocation payload then
          throw (.value "prepared knowledge context cannot corroborate a note")
        else pure (sources ++ r.metadata.sources)

/-- `_validate_note_evidence`: the packets that the note may pin. -/
def validateNoteEvidence (store : Store V J) (clock : String → ℚ) (record : Note J)
    (scope : Scope J) : Except Failure (List String) := do
  if scope = [] ∨ scope.lookup "project" ≠ some (rules.text record.project) then
    throw (.permission "note project must match the trusted access scope")
  if !noteScopeAllows scope scope then
    throw (.permission "note outside current trusted access scope")
  let sources ← record.evidencePackets.foldlM
    (checkEvidence rules store (liveIds rules store clock) scope) []
  if (record.provenance = "source" ∨ record.provenance = "test") ∧
      ¬ ∀ source ∈ record.sources, source ∈ sources then
    throw (.value "source/test note locators must appear in cited original packets")
  pure record.evidencePackets

/-- The owner of the pins of a note. -/
def noteOwner (noteId : String) : String := "note:" ++ noteId

def Store.note? (store : Store V J) (noteId : String) : Option (KnowledgeNote J) :=
  store.notes.rows.find? (fun n => n.record.noteId = noteId)

/-- The scope and creation time that a note is stored with. -/
def noteOrigin (prior : Option (KnowledgeNote J)) (value : Note J) (scope : Scope J) (now : ℚ) :
    Except Failure (Scope J × ℚ) :=
  match prior with
  | none => pure (scope, now)
  | some prior =>
    if prior.record.project ≠ value.project ∨ noteScopeAllows prior.accessScope scope = false then
      throw (.permission "cannot update a note outside its original trusted scope")
    else if scope.lookup "project" ≠ some (rules.text value.project) then
      throw (.permission "note project must match the trusted access scope")
    else pure (prior.accessScope, prior.created)

/-- `INSERT INTO pins`. -/
def insertPin (pins : Table Pin (· ≠ ·)) (pin : Pin) : Except Failure (Table Pin (· ≠ ·)) :=
  match pins.insert? pin with
  | none => throw .integrity
  | some pins => pure pins

/-- `_put_note`. -/
def putNote (store : Store V J) (clock : String → ℚ) (now : ℚ) (record : Note J)
    (scope : Scope J) (userGoal : Bool) : Except Failure (Note J × Store V J) := do
  let value ← validateNote rules userGoal record
  let prior := store.note? value.noteId
  let (origin, created) ← noteOrigin rules prior value scope now
  let refs ← validateNoteEvidence rules store clock value scope
  let count := store.notes.rows.countP
    (fun n => n.record.project = value.project ∧ n.record.noteId ≠ value.noteId)
  if prior.isNone ∧ 128 ≤ count then
    throw (.value "project knowledge capacity reached (128 records)")
  let owner := noteOwner value.noteId
  let pins ← (refs.map (fun ref => (⟨owner, ref⟩ : Pin))).foldlM insertPin (store.unpin owner).pins
  match (store.notes.delete (fun n => n.record.noteId = value.noteId)).insert?
      ⟨value, origin, created, now⟩ with
  | none => throw .integrity
  | some notes => pure (value, { store with pins := pins, notes := notes })

/-- `delete_note`. -/
def deleteNote (store : Store V J) (noteId : String) (scope : Scope J) : Bool × Store V J :=
  match store.note? noteId with
  | none => (false, store)
  | some note =>
    if scope.lookup "project" ≠ some (rules.text note.record.project) ∨
        noteScopeAllows note.accessScope scope = false then (false, store)
    else (true, { store.unpin (noteOwner noteId) with
      notes := store.notes.delete (fun n => n.record.noteId = noteId) })

end Notes

section Operations

variable {V J : Type} [DecidableEq J] (rules : Rules V J)

/-- The calls that change a packet store, with what they read and draw. -/
inductive Operation (V J : Type) where
  | create (request : CreateRequest V J) (now : ℚ) (attempts : ℕ → Attempt)
  | put (packet : Packet V J) (clock : Clock)
  | pin (owner : String) (references : List String) (clock : Clock)
  | unpin (owner : String)
  | retainJob (owner : String) (references : List String) (terminal : Bool) (now : ℚ)
    (clock : Clock)
  | reconcileRetention (retained : List (String × Scope J × List String))
    (unpinOwners : List String) (clock : String → ℚ)
  | putNote (record : Note J) (scope : Scope J) (userGoal : Bool) (now : ℚ)
    (clock : String → ℚ)
  | deleteNote (noteId : String) (scope : Scope J)
  | gc (clock : String → ℚ)

/-- What a call returns. -/
inductive Reply (V J : Type) where
  | packet (p : Packet V J)
  | note (record : Note J)
  | deleted (found : Bool)
  | expired (ids : List String)
  | done

/-- One call. -/
def execute (store : Store V J) : Operation V J → Except Failure (Reply V J × Store V J)
  | .create request now attempts => do
    let (p, store) ← create rules store request now attempts
    pure (.packet p, store)
  | .put p clock => do
    let (p, store) ← put rules store clock p
    pure (.packet p, store)
  | .pin owner references clock => do pure (.done, ← pin rules store clock owner references)
  | .unpin owner => pure (.done, store.unpin owner)
  | .retainJob owner references terminal now clock => do
    pure (.done, ← retainJob rules store clock now owner references terminal)
  | .reconcileRetention retained unpinOwners clock => do
    pure (.done, ← reconcileRetention rules store clock retained unpinOwners)
  | .putNote record scope userGoal now clock => do
    let (record, store) ← putNote rules store clock now record scope userGoal
    pure (.note record, store)
  | .deleteNote noteId scope =>
    let (found, store) := deleteNote rules store noteId scope
    pure (.deleted found, store)
  | .gc clock =>
    let (store, ids) := gc rules store clock
    pure (.expired ids, store)

/-- The store after a call: an error has rolled the transaction back. -/
def step (store : Store V J) (op : Operation V J) : Store V J :=
  match execute rules store op with
  | .ok (_, store) => store
  | .error _ => store

/-- The store after a sequence of calls on an empty one. -/
def run (ops : List (Operation V J)) : Store V J := ops.foldl (step rules) Store.empty

end Operations

end ProjectControl.Packets
