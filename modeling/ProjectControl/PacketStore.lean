import Mathlib.Data.List.Sort
import ProjectControl.SqlTable
import ProjectControl.Worklist
import ProjectControl.PacketContract

/-! The tables of `SQLitePacketStore` without a richer authority callback, and its
operations. An operation is one transaction: what it returns is committed and an error
rolls it back. -/

set_option autoImplicit false

namespace ProjectControl.Packets

open Sql

/-- A row of `packets`, which repeats four fields of the metadata in columns of its own. -/
structure Row (J : Type) where
  id : String
  packetAlias : String
  metadata : Metadata J
  invocation : Option J
  hash : String
  expired : Bool
  id_eq : metadata.packetId = id
  alias_eq : metadata.packetAlias = packetAlias
  hash_eq : metadata.payloadSha256 = hash

structure Body (V : Type) where
  hash : String
  payload : V

/-- A pin of a packet by an owner. -/
structure Pin where
  owner : String
  packet : String
  deriving DecidableEq

structure Retention where
  owner : String
  terminal : Bool
  updated : ℚ

structure KnowledgeNote (J : Type) where
  record : Note J
  accessScope : Scope J
  created : ℚ
  updated : ℚ

def Row.Distinct {J : Type} (a b : Row J) : Prop :=
  a.id ≠ b.id ∧ a.packetAlias ≠ b.packetAlias

instance {J : Type} : DecidableRel (Row.Distinct (J := J)) :=
  fun a b => inferInstanceAs (Decidable (a.id ≠ b.id ∧ a.packetAlias ≠ b.packetAlias))

/-- The database. -/
structure Store (V J : Type) where
  bodies : Table (Body V) (fun a b => a.hash ≠ b.hash)
  packets : Table (Row J) Row.Distinct
  pins : Table Pin (· ≠ ·)
  retention : Table Retention (fun a b => a.owner ≠ b.owner)
  notes : Table (KnowledgeNote J) (fun a b => a.record.noteId ≠ b.record.noteId)

def Store.empty {V J : Type} : Store V J :=
  ⟨Table.empty, Table.empty, Table.empty, Table.empty, Table.empty⟩

inductive Failure where
  | value (message : String)
  | validation (field : String)
  | permission (message : String)
  /-- `sqlite3.IntegrityError`. -/
  | integrity
  | runtime (message : String)
  deriving DecidableEq, Repr

/-- `RuntimeError('packet body missing: storage corruption')`. -/
def Failure.corruption : Failure := .runtime "packet body missing: storage corruption"

/-- `PacketLookup`. -/
inductive PacketLookup (V J : Type) where
  | notFound
  | forbidden
  | expired
  | ok (packet : Packet V J)
  deriving DecidableEq

/-- What an operation reads from the clock: for each of its liveness computations, the
reading at each row that the computation compares with an expiry. -/
abbrev Clock := ℕ → String → ℚ

section Liveness

variable {V J : Type} (rules : Rules V J) (store : Store V J)

def Row.packet {V J : Type} (r : Row J) (payload : V) : Packet V J := ⟨r.metadata, payload⟩

/-- `SELECT .. FROM packets WHERE id=?`. -/
def Store.row? (id : String) : Option (Row J) := store.packets.rows.find? (fun r => r.id = id)

/-- `SELECT .. FROM packets WHERE id=? OR alias=?`. -/
def Store.named? (reference : String) : Option (Row J) :=
  store.packets.rows.find? (fun r => r.id = reference ∨ r.packetAlias = reference)

/-- `SELECT payload FROM bodies WHERE hash=?`. -/
def Store.body? (hash : String) : Option V :=
  (store.bodies.rows.find? (fun b => b.hash = hash)).map Body.payload

def Store.parentsOf (id : String) : List String :=
  match store.row? id with
  | none => []
  | some r => r.metadata.parents

/-- Whether a row keeps itself alive at a reading of the clock. -/
def Row.fresh (r : Row J) (now : ℚ) : Bool :=
  !r.expired && (match r.metadata.expiresAt with
    | none => true
    | some expiry => now < rules.epoch expiry)

/-- `_live_ids`: what is pinned or not past its expiry, and the ancestors of that. -/
def liveIds (clock : String → ℚ) : List String :=
  Worklist.closure store.parentsOf (store.packets.rows.flatMap (fun r => r.metadata.parents))
    (store.pins.rows.map Pin.packet ++
      (store.packets.rows.filter (fun r => r.fresh rules (clock r.id))).map Row.id)

/-- `_authorized`. -/
def authorized [DecidableEq J] (required supplied : Scope J) : Bool :=
  !required.isEmpty && !supplied.isEmpty && required.all (fun field =>
    field.1 = "principal" || field.1 = "profile" || supplied.lookup field.1 = some field.2)

end Liveness

section Put

variable {V J : Type} [DecidableEq J] (rules : Rules V J) (store : Store V J)

/-- The body of the loop over the parents of a new packet. -/
def checkParent (clock : Clock) (scope : Scope J) (parent : String × ℕ) : Except Failure Unit :=
  match store.row? parent.1 with
  | none => throw (.value "parent missing, expired or outside packet scope")
  | some r =>
    if r.expired || parent.1 ∉ liveIds rules store (clock parent.2) ||
        !authorized r.metadata.accessScope scope then
      throw (.value "parent missing, expired or outside packet scope")
    else pure ()

/-- `INSERT OR IGNORE INTO pins`. -/
def pinAll (pins : Table Pin (· ≠ ·)) (new : List Pin) : Table Pin (· ≠ ·) :=
  new.foldl (fun pins pin => (pins.insert? pin).getD pins) pins

/-- The row that is inserted for a packet. -/
def Packet.row (p : Packet V J) (extra : Option J) : Row J where
  id := p.packetId
  packetAlias := p.packetAlias
  metadata := p.toMetadata
  invocation := extra
  hash := p.payloadSha256
  expired := false
  id_eq := rfl
  alias_eq := rfl
  hash_eq := rfl

/-- The checks of `_put` before its transaction. -/
def checkPacket (p : Packet V J) : Except Failure Unit :=
  match p.error? rules with
  | some field => throw (.validation field)
  | none =>
    if rules.unmasked p then throw (.value "packet contains unmasked private fields")
    else if p.accessScope = [] then throw (.value "explicit trusted access scope required")
    else if rules.maxPayloadBytes < rules.size p.payload then
      throw (.value "packet exceeds configured payload cap")
    else pure ()

/-- The transaction of `_put` for an id that has no row. -/
def insertPacket (clock : Clock) (p : Packet V J) (extra : Option J) :
    Except Failure (Store V J) := do
  if p.packetId = p.packetAlias ∨ store.packets.rows.any
      (fun r => r.id = p.packetAlias || r.packetAlias = p.packetId) then
    throw (.value "packet ID and alias namespaces cannot shadow one another")
  p.parents.zipIdx.forM (checkParent rules store clock p.accessScope)
  match store.packets.insert? (p.row extra) with
  | none => throw .integrity
  | some packets =>
    let body : Body V := ⟨p.payloadSha256, p.payload⟩
    pure { store with
      bodies := (store.bodies.insert? body).getD store.bodies
      packets := packets
      pins := pinAll store.pins ((p.pinnedBy.getD []).map (fun owner => ⟨owner, p.packetId⟩)) }

/-- `_put`. -/
def putPacket (clock : Clock) (p : Packet V J) (extra : Option J) :
    Except Failure (Packet V J × Store V J) := do
  checkPacket rules p
  match store.row? p.packetId with
  | some prior =>
    if prior.expired ∨ prior.metadata ≠ p.toMetadata then
      throw (.value "immutable packet ID cannot be rebound")
    else pure (p, store)
  | none => pure (p, ← insertPacket rules store clock p extra)

/-- `put`. -/
def put (clock : Clock) (p : Packet V J) : Except Failure (Packet V J × Store V J) :=
  putPacket rules store clock p none

/-- The arguments of `create`. -/
structure CreateRequest (V J : Type) where
  tool : String
  payload : V
  accessScope : Scope J
  sources : List SourceLocator
  parents : List String
  extra : J
  freshness : Option J
  omissions : List J
  ttlSeconds : Option ℚ

/-- What one attempt of `create` draws and reads. -/
structure Attempt where
  uuid : String
  /-- What the alias factory returns. -/
  drawn : String
  clock : Clock

/-- The packet of one attempt of `create`. -/
def CreateRequest.packet (request : CreateRequest V J) (now : ℚ) (attempt : Attempt) :
    Packet V J where
  packetId := "pkt_" ++ attempt.uuid
  packetAlias := attempt.drawn
  createdAt := rules.stamp now
  tool := request.tool
  payloadSha256 := rules.digest (rules.maskPayload request.payload).1
  sources := request.sources
  parents := request.parents
  accessScope := request.accessScope
  expiresAt := request.ttlSeconds.map (fun ttl => rules.stamp (now + ttl))
  freshness := request.freshness
  omissions := some (request.omissions ++ (rules.maskPayload request.payload).2)
  pinnedBy := none
  payload := (rules.maskPayload request.payload).1

/-- The loop of `create`: a collision of aliases is tried again. -/
def createFrom (request : CreateRequest V J) (now : ℚ) :
    List Attempt → Except Failure (Packet V J × Store V J)
  | [] => throw (.runtime "alias namespace exhausted; no alias was recycled")
  | attempt :: rest =>
    match putPacket rules store attempt.clock (request.packet rules now attempt)
        (some request.extra) with
    | .error .integrity => createFrom request now rest
    | result => result

/-- `create`, with what its attempts draw. -/
def create (request : CreateRequest V J) (now : ℚ) (attempts : ℕ → Attempt) :
    Except Failure (Packet V J × Store V J) := do
  if rules.unmaskedExtra request.extra then
    throw (.value "request/audit metadata contains private fields")
  createFrom rules store request now ((List.range 4096).map attempts)

end Put

section Lookup

variable {V J : Type} [DecidableEq J] (rules : Rules V J) (store : Store V J)

/-- The packet of a row, whose body must be there and which is validated again. -/
def readPacket (r : Row J) : Except Failure (Packet V J) :=
  match store.body? r.hash with
  | none => throw .corruption
  | some payload =>
    match (r.packet payload).error? rules with
    | some field => throw (.validation field)
    | none => pure (r.packet payload)

/-- `lookup`, which `resolve` takes the packet of. -/
def lookup (clock : String → ℚ) (reference : String) (scope : Scope J) :
    Except Failure (PacketLookup V J) :=
  match store.named? reference with
  | none => pure .notFound
  | some r =>
    if !authorized r.metadata.accessScope scope then pure .forbidden
    else if r.expired || r.id ∉ liveIds rules store clock then pure .expired
    else .ok <$> readPacket rules store r

end Lookup

section Retain

variable {V J : Type} [DecidableEq J] (rules : Rules V J)

/-- `DELETE FROM pins WHERE owner=?`. -/
def Store.unpin (store : Store V J) (owner : String) : Store V J :=
  { store with pins := store.pins.delete (fun pin => pin.owner = owner) }

/-- The body of the loop of `_pin`. -/
def pinReference (clock : Clock) (owner : String) (store : Store V J)
    (reference : String × ℕ) : Except Failure (Store V J) :=
  match store.named? reference.1 with
  | none => throw (.value "cannot pin missing/expired evidence")
  | some r =>
    if r.expired || r.id ∉ liveIds rules store (clock reference.2) then
      throw (.value "cannot pin missing/expired evidence")
    else pure { store with pins := pinAll store.pins [⟨owner, r.id⟩] }

/-- `_pin`. -/
def pin (store : Store V J) (clock : Clock) (owner : String) (references : List String) :
    Except Failure (Store V J) :=
  references.zipIdx.foldlM (pinReference rules clock owner) store

/-- `ORDER BY updated DESC, owner DESC`. -/
def Retention.newer (a b : Retention) : Prop :=
  b.updated < a.updated ∨ a.updated = b.updated ∧ b.owner ≤ a.owner

instance : DecidableRel Retention.newer :=
  fun a b => inferInstanceAs
    (Decidable (b.updated < a.updated ∨ a.updated = b.updated ∧ b.owner ≤ a.owner))

/-- The terminal owners beyond the limit. -/
def staleOwners (store : Store V J) : List String :=
  (((store.retention.rows.filter Retention.terminal).insertionSort Retention.newer).drop
    rules.recentTerminalLimit).map Retention.owner

/-- What is done with one stale owner. -/
def forgetOwner (store : Store V J) (owner : String) : Store V J :=
  { store.unpin owner with
    retention := store.retention.delete (fun row => row.owner = owner) }

/-- `retain_job`. -/
def retainJob (store : Store V J) (clock : Clock) (now : ℚ) (owner : String)
    (references : List String) (terminal : Bool) : Except Failure (Store V J) := do
  let store ← pin rules store clock owner references
  let kept := store.retention.delete (fun row => row.owner = owner)
  match kept.insert? ⟨owner, terminal, now⟩ with
  | none => throw .integrity
  | some retention =>
    let store := { store with retention := retention }
    pure ((staleOwners rules store).foldl forgetOwner store)

/-- `by_reference`, where a later row takes the place of an earlier one. -/
def Store.byReference (store : Store V J) (reference : String) : Option (Row J) :=
  store.packets.rows.reverse.find? (fun r => r.id = reference ∨ r.packetAlias = reference)

/-- The pins that `reconcile_retention` has found so far and the packets it has validated. -/
structure Eligible where
  pins : List Pin := []
  validated : List String := []

/-- What one reference of a retained owner adds. -/
def retainReference (store : Store V J) (live : List String) (owner : String) (scope : Scope J)
    (found : Eligible) (reference : String) : Except Failure Eligible :=
  match store.byReference reference with
  | none => pure found
  | some r =>
    if !authorized r.metadata.accessScope scope || r.expired || r.id ∉ live then pure found
    else if r.id ∈ found.validated then pure ⟨found.pins ++ [⟨owner, r.id⟩], found.validated⟩
    else do
      let _ ← readPacket rules store r
      pure ⟨found.pins ++ [⟨owner, r.id⟩], r.id :: found.validated⟩

/-- `reconcile_retention`, with the references of `retained` that are strings. -/
def reconcileRetention (store : Store V J) (clock : String → ℚ)
    (retained : List (String × Scope J × List String)) (unpinOwners : List String) :
    Except Failure (Store V J) := do
  let live := liveIds rules store clock
  let found ← retained.foldlM (fun found item =>
    item.2.2.foldlM (retainReference rules store live item.1 item.2.1) found) {}
  pure (unpinOwners.foldl Store.unpin { store with pins := pinAll store.pins found.pins })

/-- `gc`: the store after it and the ids that expired. -/
def gc (store : Store V J) (clock : String → ℚ) : Store V J × List String :=
  let live := liveIds rules store clock
  let dead := fun r : Row J => !r.expired && r.id ∉ live
  let packets := store.packets.update dead
    ⟨fun r => { r with expired := true }, fun _ _ h => h, fun _ _ h => h⟩
  ({ store with
      packets := packets
      bodies := store.bodies.delete (fun b =>
        (packets.rows.filter (fun r => !r.expired)).all (fun r => r.hash ≠ b.hash)) },
    (store.packets.rows.filter dead).map Row.id)

end Retain
end ProjectControl.Packets
