import Mathlib.Data.List.Basic
import Mathlib.Algebra.Order.Ring.Rat

/-! The wire of an information packet and its validation. Payloads are JSON documents `V`;
other decoded values `J` are taken up to the equality by which the store compares them. -/

set_option autoImplicit false

namespace ProjectControl.Packets

/-- The fields of a trusted scope, in canonical key order. -/
abbrev Scope (J : Type) := List (String × J)

structure SourceLocator where
  project : String
  repository : String
  path : String
  contentSha256 : String
  revision : Option String := none
  lineStart : Option ℤ := none
  lineEnd : Option ℤ := none
  worktree : Option String := none
  deriving DecidableEq, Repr

/-- A packet without its payload. -/
structure Metadata (J : Type) where
  packetId : String
  packetAlias : String
  createdAt : String
  tool : String
  payloadSha256 : String
  sources : List SourceLocator
  parents : List String
  accessScope : Scope J
  expiresAt : Option String
  freshness : Option J
  omissions : Option (List J)
  pinnedBy : Option (List String)
  deriving DecidableEq

/-- `InformationPacket`. -/
structure Packet (V J : Type) extends Metadata J where
  payload : V
  deriving DecidableEq

theorem Packet.eq_of_metadata {V J : Type} {p q : Packet V J}
    (hmeta : p.toMetadata = q.toMetadata) (hpayload : p.payload = q.payload) : p = q := by
  cases p
  cases q
  cases hmeta
  cases hpayload
  rfl

/-- A record of the notebook. -/
structure Note (J : Type) where
  noteId : String
  project : String
  kind : String
  claim : String
  reasonMatters : String
  provenance : String
  sources : List SourceLocator
  evidencePackets : List String
  /-- The fields that the store keeps without reading them. -/
  details : J
  deriving DecidableEq

/-- The functions of other modules that the store calls, and its configuration. -/
structure Rules (V J : Type) where
  /-- `canonical_digest`. -/
  digest : V → String
  /-- `mask_payload`: the masked payload and the omissions it reports. -/
  maskPayload : V → V × List J
  /-- Whether `mask_payload` finds something to mask in a packet's wire. -/
  unmasked : Packet V J → Bool
  /-- The same for the normalized request and the audit id. -/
  unmaskedExtra : J → Bool
  /-- The bytes of the payload's canonical JSON. -/
  size : V → ℕ
  maxPayloadBytes : ℕ
  /-- Whether a text is a timestamp that `InformationPacket` accepts. -/
  timestamp : String → Bool
  /-- `_stamp`. -/
  stamp : ℚ → String
  /-- `_epoch`. -/
  epoch : String → ℚ
  recentTerminalLimit : ℕ
  /-- A text as a decoded value. -/
  text : String → J
  /-- `_prepared_context_packet`, on the stored metadata, invocation and payload. -/
  preparedContext : Metadata J → Option J → V → Bool
  /-- The checks and defaults of the details of a note. -/
  noteDetails : J → Except String J
  /-- Whether `mask_payload` finds something to mask in a note. -/
  unmaskedNote : Note J → Bool
  /-- The bytes of a note's canonical JSON. -/
  noteSize : Note J → ℕ

section Text

/-- Whether a character matches `[0-9a-f]`. -/
def isHex (c : Char) : Bool := c.isDigit || ('a' ≤ c && c ≤ 'f')

/-- `^[0-9a-f]{64}$`. -/
def isSha256 (value : String) : Bool := value.length = 64 && value.toList.all isHex

/-- `relative_path`. -/
def relativePath (value : String) : Bool :=
  match value.toList with
  | [] => false
  | first :: rest =>
    first ≠ '/' && !(first.isAlpha && rest.head? = some ':') &&
      (first :: rest).all (fun c => c.toNat ≠ 92 && c.toNat ≠ 0) &&
      ['.', '.'] ∉ (first :: rest).splitOn '/'

/-- `^[a-z]+(?:-[a-z]+){1,3}$`. -/
def aliasPattern (value : String) : Bool :=
  let words := value.toList.splitOn '-'
  2 ≤ words.length && words.length ≤ 4 &&
    words.all (fun word => word ≠ [] && word.all (fun c => c.isLower))

end Text

/-- The validation of a source locator. -/
def SourceLocator.valid (source : SourceLocator) : Bool :=
  source.project ≠ "" && source.repository ≠ "" && source.path ≠ "" &&
    isSha256 source.contentSha256 && relativePath source.path &&
    source.lineStart.all (1 ≤ ·) && source.lineEnd.all (1 ≤ ·) &&
    (match source.lineStart, source.lineEnd with
      | some first, some last => first ≤ last
      | _, _ => true)

section Validation

variable {V J : Type} (rules : Rules V J)

/-- The fields that do not meet their own constraints. -/
def Metadata.fieldErrors (m : Metadata J) : List String :=
  [("packet_id", decide (8 ≤ m.packetId.length)), ("alias", aliasPattern m.packetAlias),
    ("created_at", rules.timestamp m.createdAt), ("payload_sha256", isSha256 m.payloadSha256),
    ("sources", m.sources.all SourceLocator.valid),
    ("expires_at", m.expiresAt.all rules.timestamp)].filterMap
    (fun field => if field.2 then none else some field.1)

/-- `InformationPacket.model_validate`: the error it raises. -/
def Packet.error? (p : Packet V J) : Option String :=
  match p.toMetadata.fieldErrors rules with
  | field :: _ => some field
  | [] =>
    if rules.digest p.payload ≠ p.payloadSha256 then some "packet payload hash mismatch"
    else if p.parents.Nodup then none else some "packet parents must be unique"

variable {rules} {p q : Packet V J}

theorem Packet.digest_of_valid (h : p.error? rules = none) :
    rules.digest p.payload = p.payloadSha256 := by
  unfold error? at h
  split at h
  · cases h
  · split at h
    · cases h
    · rename_i hdigest
      exact not_not.mp hdigest

/-- Validation depends on the payload through its digest only. -/
theorem Packet.valid_congr (hmeta : p.toMetadata = q.toMetadata)
    (hdigest : rules.digest p.payload = rules.digest q.payload) :
    p.error? rules = q.error? rules := by
  simp only [error?, hmeta, hdigest]

end Validation

end ProjectControl.Packets
