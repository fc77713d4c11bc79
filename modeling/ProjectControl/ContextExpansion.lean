import Mathlib
import ProjectControl.Base64
import ProjectControl.BoundedInspection
import ProjectControl.Transaction
import ProjectControl.Values

/-! The expansion of the work item: `_ensure_work_item_fragment` and the chunks in which a large
fragment arrives. -/

set_option autoImplicit false

namespace ProjectControl.Expansion

open Values
open Inspection (Error)

section Expansions

def maxContextCapsuleBytes : ℕ := 64 * 1024

/-- The arguments of one call of `todo_expand_context`. -/
structure ExpandContext where
  workItemId : Value
  runId : Value
  assignmentId : Value
  attemptId : Value
  fragmentId : String
  expectedDigest : String
  maxBytes : ℕ
  offset : Option ℤ

/-- The native host, whose calls are numbered, and what the standard library does with bytes:
the size of the canonical text of a value, and `json.loads` of octets and of a text. -/
structure Host where
  invoke : ℕ → ExpandContext → Except Error Fields
  size : Fields → Except LoadFault ℕ
  sha256 : List ℕ → String
  loads : List ℕ → Except LoadFault Value
  loadsText : String → Except LoadFault Value

variable (h : Host)

/-- `_bounded_mapping`. -/
def boundedMapping (value : Fields) (field : String) (limit : ℕ) : Except Error Fields :=
  match h.size value with
  | .error .value => throw (.workflow (field ++ "_invalid"))
  | .error .recursion => throw .other
  | .ok n => if limit < n then throw (.workflow (field ++ "_too_large")) else pure value

/-- `_context_document_payload`. -/
def contextDocumentPayload (value : Fields) (kind : String) : Except Error Fields :=
  match value.get "payload" with
  | .obj payload =>
    if (value.get "kind").isStr kind then
      boundedMapping h payload "task_context_payload" maxContextCapsuleBytes
    else pure value
  | _ => pure value

/-- `_fragment_payload`. -/
def fragmentPayload (fragment : Fields) : Except Error (Option Fields) :=
  match fragment.get "payload", fragment.get "payload_json" with
  | .obj payload, _ => pure (some payload)
  | _, .str text =>
    match h.loadsText text with
    | .ok (.obj payload) => pure (some payload)
    | .error .recursion => throw .other
    | _ => throw (.workflow "task_context_fragment_invalid")
  | _, _ => pure none

/-- `_expand_context_fragment`. -/
def expandContextFragment (call : ℕ) (record reference : Fields) (offset : Option ℤ) :
    Except Error Fields :=
  match reference.get "fragment_id", reference.get "digest" with
  | .str fragmentId, .str digest => do
    let expanded ← h.invoke call
      { workItemId := record.get "task_id"
        runId := record.get "run_id"
        assignmentId := record.get "assignment_id"
        attemptId := record.get "attempt_id"
        fragmentId := fragmentId
        expectedDigest := digest
        maxBytes := maxContextCapsuleBytes
        offset := offset }
    if (expanded.get "status").isStr "attention_required" then pure expanded
    else contextDocumentPayload h expanded "context_expansion"
  | _, _ => throw (.workflow "task_context_fragment_invalid")

/-- The fields of a chunk as they arrive. -/
structure ChunkDocument where
  encoded : Value
  offset : Value
  total : Value
  next : Value
  digest : Value
  reference : Value

/-- A chunk of its own, or one whose fields are those of the expansion. -/
def chunkDocument (expansion : Fields) : ChunkDocument :=
  match expansion.get "chunk" with
  | .obj chunk =>
    { encoded := Fields.get chunk "data"
      offset := Fields.get chunk "offset"
      total := Fields.get chunk "total_bytes"
      next := Fields.get chunk "next_offset"
      digest := Fields.get chunk "content_digest"
      reference := Fields.get chunk "reference" }
  | _ =>
    { encoded := expansion.get "chunk_base64"
      offset := expansion.get "offset"
      total := expansion.get "total_bytes"
      next := expansion.get "next_offset"
      digest := expansion.get "content_digest"
      reference := expansion.get "reference" }

structure Chunk where
  data : List ℕ
  offset : ℤ
  total : ℤ
  next : Option ℤ
  digest : String

def decodeChunk (encoded : String) (offset total : ℤ) (next : Option ℤ) (digest : String) :
    Except Error (Option Chunk) :=
  if offset < 0 ∨ total < 1 then pure none
  else
    match Base64.decodeStandard encoded.toList with
    | some data => pure (some ⟨data, offset, total, next, digest⟩)
    | none => throw (.workflow "task_work_item_fragment_invalid")

/-- `_expansion_chunk`. -/
def expansionChunk (expansion : Fields) : Except Error (Option Chunk) :=
  match chunkDocument expansion with
  | ⟨.str encoded, .int offset, .int total, .null, .str digest, _⟩ =>
    decodeChunk encoded offset total none digest
  | ⟨.str encoded, .int offset, .int total, .int next, .str digest, _⟩ =>
    decodeChunk encoded offset total (some next) digest
  | _ => pure none

/-- Whether a chunk is one of the fragment that was asked for. -/
def carries (expansion workRef : Fields) : Bool :=
  match (chunkDocument expansion).reference with
  | .obj reference => Value.same (.obj reference) (.obj workRef)
  | _ => false

def attentionReason (expansion : Fields) : Error :=
  match expansion.get "reason" with
  | .str reason => .workflow reason
  | _ => .workflow "task_work_item_fragment_unavailable"

/-- The checks of one chunk after the bytes that are there already. -/
def acceptChunk (workRef : Fields) (bytes : List ℕ) (expected : Option String) (expansion : Fields)
    (chunk : Chunk) : Except Error (List ℕ) :=
  if (maxContextCapsuleBytes : ℤ) < chunk.total ∨ chunk.offset ≠ (bytes.length : ℤ) then
    throw (.workflow "task_work_item_fragment_invalid")
  else if expected.any (· ≠ chunk.digest) then
    throw (.workflow "task_work_item_fragment_changed")
  else if carries expansion workRef = false then
    throw (.workflow "task_work_item_fragment_mismatch")
  else
    let extended := bytes ++ chunk.data
    if chunk.total < (extended.length : ℤ) ∨ maxContextCapsuleBytes < extended.length then
      throw (.workflow "task_work_item_fragment_invalid")
    else pure extended

/-- The object that the bytes are. Only a `ValueError` of `json.loads` is caught. -/
def objectOf (bytes : List ℕ) : Except Error Fields :=
  match h.loads bytes with
  | .ok (.obj payload) => pure payload
  | .error .recursion => throw .other
  | _ => throw (.workflow "task_work_item_fragment_invalid")

/-- What the last chunk completes. -/
def completed (bytes : List ℕ) (chunk : Chunk) : Except Error Fields :=
  if (bytes.length : ℤ) ≠ chunk.total then throw (.workflow "task_work_item_fragment_truncated")
  else if h.sha256 bytes ≠ chunk.digest then
    throw (.workflow "task_work_item_fragment_digest_mismatch")
  else objectOf h bytes

/-- The rounds of the loop that are left, and the number of the call that is next. -/
def assemble (record workRef : Fields) :
    ℕ → ℕ → List ℕ → Option String → Fields → Except Error Fields
  | 0, _, _, _, _ => throw (.workflow "task_work_item_fragment_too_large")
  | rounds + 1, call, bytes, expected, expansion => do
    match ← expansionChunk expansion with
    | none => throw (.workflow "task_work_item_fragment_unavailable")
    | some chunk =>
      let extended ← acceptChunk workRef bytes expected expansion chunk
      match chunk.next with
      | none => completed h extended chunk
      | some next =>
        if next ≠ (extended.length : ℤ) then throw (.workflow "task_work_item_fragment_invalid")
        else do
          let following ← expandContextFragment h call record workRef (some next)
          if (following.get "status").isStr "attention_required" then
            throw (attentionReason following)
          else assemble record workRef rounds (call + 1) extended (some chunk.digest) following

def isMapping : Value → Bool
  | .obj _ => true
  | _ => false

def mappings (rows : List Value) : List Fields :=
  rows.filterMap fun row =>
    match row with
    | .obj fields => some fields
    | _ => none

def isWorkItem (reference : Fields) : Bool := (reference.get "kind").isStr "work_item"

/-- The reference of the manifest that is the work item. -/
def workReference (context : Fields) : Option Fields :=
  match (context.mapping "manifest").get "fragments" with
  | .arr references => (mappings references).find? isWorkItem
  | _ => none

/-- The first fragment that is the work item, if the context has it. -/
def existingFragment (fragments : List Value) : Option Fields :=
  (mappings fragments).find? fun fragment =>
    match fragment.get "reference" with
    | .obj reference => isWorkItem reference
    | _ => false

def setField (fields : Fields) (key : String) (value : Value) : Fields :=
  fields.filter (·.1 ≠ key) ++ [(key, value)]

def withFragment (context : Fields) (fragments : List Value) (fragment : Fields) : Fields :=
  setField context "fragments" (.arr (fragments ++ [.obj fragment]))

def checkedExisting (context workRef existing : Fields) : Except Error Fields := do
  if ¬ Value.same (.obj (existing.mapping "reference")) (.obj workRef) then
    throw (.workflow "task_work_item_fragment_mismatch")
  match ← fragmentPayload h existing with
  | none => throw (.workflow "task_work_item_fragment_invalid")
  | some _ => pure context

/-- A fragment that arrives whole. -/
def wholeFragment (context : Fields) (fragments : List Value) (fragmentId : String)
    (fragment : Fields) : Except Error Fields := do
  if ¬ ((fragment.mapping "reference").get "fragment_id").isStr fragmentId then
    throw (.workflow "task_work_item_fragment_mismatch")
  match ← fragmentPayload h fragment with
  | none => throw (.workflow "task_work_item_fragment_invalid")
  | some payload =>
    let normalized := setField (fragment.filter (·.1 ≠ "payload_json")) "payload" (.obj payload)
    pure (withFragment context fragments normalized)

/-- The work item after its first expansion. -/
def expandedWorkItem (context record : Fields) (fragments : List Value) (workRef : Fields)
    (fragmentId : String) (expanded : Fields) : Except Error Fields := do
  if (expanded.get "status").isStr "attention_required" then throw (attentionReason expanded)
  match expanded.get "fragment" with
  | .obj fragment => wholeFragment h context fragments fragmentId fragment
  | _ => do
    let payload ← assemble h record workRef 33 1 [] none expanded
    pure (withFragment context fragments [("reference", .obj workRef), ("payload", .obj payload)])

/-- `_ensure_work_item_fragment`. -/
def ensureWorkItemFragment (context record : Fields) : Except Error Fields :=
  match context.get "fragments" with
  | .arr fragments =>
    match workReference context with
    | none => throw (.workflow "task_work_item_fragment_unavailable")
    | some workRef =>
      match workRef.get "fragment_id", workRef.get "digest" with
      | .str fragmentId, .str _ =>
        match existingFragment fragments with
        | some existing => checkedExisting h context workRef existing
        | none => do
          let expanded ← expandContextFragment h 0 record workRef none
          expandedWorkItem h context record fragments workRef fragmentId expanded
      | _, _ => throw (.workflow "task_work_item_fragment_invalid")
  | _ => throw (.workflow "task_context_fragments_unavailable")

end Expansions

section Transfers

variable {h : Host} {record workRef : Fields}

/-- A reply together with the chunk in it. -/
structure Received where
  reply : Fields
  chunk : Chunk

def dataOf (received : List Received) : List ℕ := received.flatMap (·.chunk.data)

/-- A transfer that is complete: the chunks follow one another after the bytes at the start, they
are all chunks of one fragment, and the last one says how long the whole is. -/
structure Transferred (workRef : Fields) (start : List ℕ) (received : List Received)
    (bytes : List ℕ) (digest : String) : Prop where
  chunks : ∀ r ∈ received, expansionChunk r.reply = .ok (some r.chunk)
  references : ∀ r ∈ received, carries r.reply workRef = true
  digests : ∀ r ∈ received, r.chunk.digest = digest
  contiguous : ∀ before r after, received = before ++ r :: after →
    r.chunk.offset = ((start ++ dataOf before).length : ℤ)
  whole : bytes = start ++ dataOf received
  total : ∃ last, received.getLast? = some last ∧ last.chunk.total = bytes.length
  bounded : bytes.length ≤ maxContextCapsuleBytes

/-- The replies after the first one are those to the calls from this number on, each for the
offset that has been reached. -/
def Asked (h : Host) (record workRef : Fields) (start : List ℕ) (call : ℕ)
    (received : List Received) : Prop :=
  ∀ before r after, received = before ++ r :: after → before ≠ [] →
    expandContextFragment h (call + before.length - 1) record workRef
      (some (start ++ dataOf before).length) = .ok r.reply

theorem dataOf_cons (r : Received) (received : List Received) :
    dataOf (r :: received) = r.chunk.data ++ dataOf received := rfl

theorem Transferred.single {start bytes : List ℕ} {r : Received}
    (hchunk : expansionChunk r.reply = .ok (some r.chunk))
    (hreference : carries r.reply workRef = true) (hoffset : r.chunk.offset = start.length)
    (hbytes : bytes = start ++ r.chunk.data) (htotal : r.chunk.total = bytes.length)
    (hbounded : bytes.length ≤ maxContextCapsuleBytes) :
    Transferred workRef start [r] bytes r.chunk.digest where
  chunks := List.forall_mem_singleton.mpr hchunk
  references := List.forall_mem_singleton.mpr hreference
  digests := List.forall_mem_singleton.mpr rfl
  contiguous := by
    intro before s after hsplit
    cases before with
    | nil =>
      obtain ⟨rfl, _⟩ := List.cons.inj hsplit
      rw [hoffset, dataOf, List.flatMap_nil, List.append_nil]
    | cons b before =>
      have hnil := (List.cons.inj hsplit).2
      exact absurd hnil.symm (List.append_ne_nil_of_right_ne_nil before (List.cons_ne_nil s after))
  whole := by rw [hbytes, dataOf_cons, dataOf, List.flatMap_nil, List.append_nil]
  total := ⟨r, rfl, htotal⟩
  bounded := hbounded

/-- A chunk before a transfer of the rest. -/
theorem Transferred.cons {start bytes : List ℕ} {r : Received} {received : List Received}
    {digest : String} (hchunk : expansionChunk r.reply = .ok (some r.chunk))
    (hreference : carries r.reply workRef = true) (hoffset : r.chunk.offset = start.length)
    (hdigest : r.chunk.digest = digest)
    (hrest : Transferred workRef (start ++ r.chunk.data) received bytes digest) :
    Transferred workRef start (r :: received) bytes digest where
  chunks := List.forall_mem_cons.mpr ⟨hchunk, hrest.chunks⟩
  references := List.forall_mem_cons.mpr ⟨hreference, hrest.references⟩
  digests := List.forall_mem_cons.mpr ⟨hdigest, hrest.digests⟩
  contiguous := by
    intro before s after hsplit
    cases before with
    | nil =>
      obtain ⟨rfl, _⟩ := List.cons.inj hsplit
      rw [hoffset, dataOf, List.flatMap_nil, List.append_nil]
    | cons b before =>
      obtain ⟨rfl, hrestsplit⟩ := List.cons.inj hsplit
      rw [hrest.contiguous before s after hrestsplit, dataOf_cons, List.append_assoc]
  whole := by rw [hrest.whole, dataOf_cons, List.append_assoc]
  total := by
    obtain ⟨last, hlast, htotal⟩ := hrest.total
    exact ⟨last, by rw [List.getLast?_cons, hlast]; rfl, htotal⟩
  bounded := hrest.bounded

theorem Asked.cons {start : List ℕ} {call : ℕ} {r s : Received} {received : List Received}
    (hasked : expandContextFragment h call record workRef
      (some (start ++ r.chunk.data).length) = .ok s.reply)
    (hrest : Asked h record workRef (start ++ r.chunk.data) (call + 1) (s :: received)) :
    Asked h record workRef start call (r :: s :: received) := by
  intro before t after hsplit hne
  cases before with
  | nil => exact absurd rfl hne
  | cons b before =>
    obtain ⟨rfl, hrestsplit⟩ := List.cons.inj hsplit
    rw [dataOf_cons, ← List.append_assoc, List.length_cons, ← Nat.add_assoc, Nat.add_sub_cancel]
    cases before with
    | nil =>
      obtain ⟨rfl, _⟩ := List.cons.inj hrestsplit
      rw [dataOf, List.flatMap_nil, List.append_nil]
      exact hasked
    | cons c before =>
      have hlater := hrest (c :: before) t after hrestsplit (List.cons_ne_nil c before)
      rw [List.length_cons] at hlater ⊢
      have hnumber : call + 1 + (before.length + 1) - 1 = call + (before.length + 1) := by omega
      rwa [hnumber] at hlater

theorem acceptChunk_ok_iff {bytes extended : List ℕ} {expected : Option String}
    {expansion : Fields} {chunk : Chunk} :
    acceptChunk workRef bytes expected expansion chunk = .ok extended ↔
      chunk.offset = (bytes.length : ℤ) ∧ (∀ digest, expected = some digest → digest = chunk.digest) ∧
        carries expansion workRef = true ∧ extended = bytes ++ chunk.data ∧
        (extended.length : ℤ) ≤ chunk.total ∧ chunk.total ≤ (maxContextCapsuleBytes : ℤ) := by
  have hexpected : (¬expected.any (· ≠ chunk.digest) = true) ↔
      ∀ digest, expected = some digest → digest = chunk.digest := by
    cases expected <;> simp
  unfold acceptChunk
  dsimp only
  split_ifs with hplace hchanged hreference hlength
  · exact iff_of_false nofun fun ⟨hoffset, _, _, _, _, htotal⟩ =>
      hplace.elim (Int.not_lt.mpr htotal) fun hne => hne hoffset
  · exact iff_of_false nofun fun ⟨_, hdigest, _⟩ => hexpected.mpr hdigest hchanged
  · exact iff_of_false nofun fun ⟨_, _, hcarries, _⟩ => Bool.noConfusion (hreference.symm.trans hcarries)
  · refine iff_of_false nofun fun ⟨_, _, _, hextended, hle, htotal⟩ => ?_
    subst hextended
    omega
  · rw [not_or, Int.not_lt, not_not] at hplace
    rw [not_or, Int.not_lt, Nat.not_lt] at hlength
    constructor
    · intro hok
      obtain rfl := Except.ok.inj hok
      exact ⟨hplace.2, hexpected.mp hchanged,
        Bool.not_eq_false _ ▸ hreference, rfl, hlength.1, hplace.1⟩
    · rintro ⟨_, _, _, rfl, _⟩
      rfl

theorem objectOf_ok_iff {bytes : List ℕ} {payload : Fields} :
    objectOf h bytes = .ok payload ↔ h.loads bytes = .ok (.obj payload) := by
  unfold objectOf
  split
  · rename_i object hloads
    rw [hloads]
    constructor
    · intro hok
      rw [Except.ok.inj hok]
    · intro hobject
      cases hobject
      rfl
  · rename_i hloads
    exact iff_of_false nofun fun hobject => by rw [hloads] at hobject; cases hobject
  · rename_i hother _
    exact iff_of_false nofun (hother payload)

theorem completed_ok_iff {bytes : List ℕ} {chunk : Chunk} {payload : Fields} :
    completed h bytes chunk = .ok payload ↔ (bytes.length : ℤ) = chunk.total ∧
      h.sha256 bytes = chunk.digest ∧ h.loads bytes = .ok (.obj payload) := by
  unfold completed
  split_ifs with hlength hdigest
  · exact iff_of_false nofun fun h => hlength h.1
  · exact iff_of_false nofun fun h => hdigest h.2.1
  · rw [not_not] at hlength hdigest
    rw [objectOf_ok_iff]
    exact ⟨fun hloads => ⟨hlength, hdigest, hloads⟩, fun hall => hall.2.2⟩

/-- What a complete transfer is worth: bytes whose digest is right and that hold an object. -/
structure Assembled (h : Host) (record workRef : Fields) (start : List ℕ) (call : ℕ)
    (received : List Received) (payload : Fields) : Prop where
  transfer : ∃ bytes, Transferred workRef start received bytes (h.sha256 bytes) ∧
    h.loads bytes = .ok (.obj payload)
  asked : Asked h record workRef start call received

/-- The first reply is the one that the loop starts with, and the digest the one it expects. -/
theorem assemble_sound (rounds : ℕ) {call : ℕ} {bytes : List ℕ} {expected : Option String}
    {expansion : Fields} : Ensures (assemble h record workRef rounds call bytes expected expansion)
      fun payload => ∃ chunk rest,
        Assembled h record workRef bytes call (⟨expansion, chunk⟩ :: rest) payload ∧
        rest.length < rounds ∧ ∀ digest, expected = some digest → digest = chunk.digest := by
  induction rounds generalizing call bytes expected expansion with
  | zero => exact Ensures.throw
  | succ rounds ih =>
    rw [assemble]
    refine Ensures.bind Ensures.of_eq fun found hfound => ?_
    cases found with
    | none => exact Ensures.throw
    | some chunk =>
      refine Ensures.bind Ensures.of_eq fun extended hextended => ?_
      obtain ⟨hoffset, hdigest, hcarries, rfl, hle, htotal⟩ := acceptChunk_ok_iff.mp hextended
      cases hnext : chunk.next with
      | none =>
        intro payload hpayload
        obtain ⟨hlength, hsha, hloads⟩ := completed_ok_iff.mp hpayload
        have hbounded : (bytes ++ chunk.data).length ≤ maxContextCapsuleBytes := by omega
        have hsingle := Transferred.single (r := ⟨expansion, chunk⟩) hfound hcarries hoffset rfl
          hlength.symm hbounded
        refine ⟨chunk, [], ⟨⟨_, hsha.symm ▸ hsingle, hloads⟩, ?_⟩, Nat.succ_pos rounds, hdigest⟩
        intro before r after hsplit hne
        cases before with
        | nil => exact absurd rfl hne
        | cons b before =>
          have hnil := (List.cons.inj hsplit).2
          exact absurd hnil.symm
            (List.append_ne_nil_of_right_ne_nil before (List.cons_ne_nil r after))
      | some next =>
        refine Ensures.ite (fun _ => Ensures.throw) fun hplace => ?_
        rw [not_not] at hplace
        refine Ensures.bind Ensures.of_eq fun following hfollowing => ?_
        refine Ensures.ite (fun _ => Ensures.throw) fun _ => (ih.mono ?_)
        rintro payload ⟨chunk', rest, ⟨⟨all, htransfer, hloads⟩, hasked⟩, hlength, hsame⟩
        have hfirst : chunk.digest = h.sha256 all :=
          (hsame _ rfl).trans (htransfer.digests _ List.mem_cons_self)
        subst hplace
        refine ⟨chunk, ⟨following, chunk'⟩ :: rest, ⟨⟨all, ?_, hloads⟩, ?_⟩, ?_, hdigest⟩
        · exact Transferred.cons hfound hcarries hoffset hfirst htransfer
        · exact Asked.cons (r := ⟨expansion, chunk⟩) hfollowing hasked
        · exact Nat.succ_lt_succ hlength

end Transfers

section Serving

variable {h : Host} {record workRef : Fields} {bytes : List ℕ}

def chunkBytes : ℕ := 2048

/-- The reply with the bytes from an offset on, as many as a chunk has. -/
structure ServesAt (h : Host) (workRef : Fields) (bytes : List ℕ) (offset : ℕ) (reply : Fields) :
    Prop where
  document : ∃ reference, Value.same (.obj reference) (.obj workRef) = true ∧
    chunkDocument reply =
      { encoded := .str (String.ofList
          (Base64.encodeStandard ((bytes.drop offset).take chunkBytes)))
        offset := .int offset
        total := .int bytes.length
        next := if offset + chunkBytes < bytes.length then .int (offset + chunkBytes : ℕ) else .null
        digest := .str (h.sha256 bytes)
        reference := .obj reference }
  ready : (reply.get "status").isStr "attention_required" = false

/-- A host that serves these bytes for the reference, chunk by chunk. -/
structure Serves (h : Host) (record workRef : Fields) (bytes : List ℕ) : Prop where
  first : ∃ reply, expandContextFragment h 0 record workRef none = .ok reply ∧
    ServesAt h workRef bytes 0 reply ∧ isMapping (reply.get "fragment") = false
  later : ∀ call offset, offset % chunkBytes = 0 → offset < bytes.length →
    ∃ reply, expandContextFragment h call record workRef (some (offset : ℤ)) = .ok reply ∧
      ServesAt h workRef bytes offset reply

theorem ServesAt.chunk {offset : ℕ} {reply : Fields} (hserves : ServesAt h workRef bytes offset reply)
    (hbytes : ∀ b ∈ bytes, b < 256) (hpos : 0 < bytes.length) : expansionChunk reply =
      .ok (some
        { data := (bytes.drop offset).take chunkBytes
          offset := offset
          total := bytes.length
          next := if offset + chunkBytes < bytes.length then some (offset + chunkBytes : ℕ) else none
          digest := h.sha256 bytes }) := by
  obtain ⟨reference, _, hdocument⟩ := hserves.document
  have hdecode := Base64.decodeStandard_encode ((bytes.drop offset).take chunkBytes)
    fun b hb => hbytes b (List.mem_of_mem_drop (List.mem_of_mem_take hb))
  have hvalid : ¬((offset : ℤ) < 0 ∨ (bytes.length : ℤ) < 1) := by omega
  have hchunk (next : Option ℤ) : decodeChunk
      (String.ofList (Base64.encodeStandard ((bytes.drop offset).take chunkBytes))) offset
        bytes.length next (h.sha256 bytes) =
          .ok (some ⟨(bytes.drop offset).take chunkBytes, offset, bytes.length, next,
            h.sha256 bytes⟩) := by
    rw [decodeChunk, if_neg hvalid, String.toList_ofList, hdecode]
    rfl
  rw [expansionChunk, hdocument]
  split_ifs with hmore
  · exact hchunk _
  · exact hchunk _

theorem ServesAt.carries {offset : ℕ} {reply : Fields}
    (hserves : ServesAt h workRef bytes offset reply) : carries reply workRef = true := by
  obtain ⟨reference, hsame, hdocument⟩ := hserves.document
  rw [Expansion.carries, hdocument]
  exact hsame

/-- With a round for every chunk that is still to come the loop reads the bytes to their end. -/
theorem assemble_served (hbytes : ∀ b ∈ bytes, b < 256)
    (hlength : bytes.length ≤ maxContextCapsuleBytes)
    (hserves : Serves h record workRef bytes) (rounds : ℕ) {call offset : ℕ}
    {expected : Option String} {reply : Fields} (haligned : offset % chunkBytes = 0)
    (hoffset : offset < bytes.length)
    (hrounds : bytes.length ≤ offset + rounds * chunkBytes)
    (hexpected : ∀ digest, expected = some digest → digest = h.sha256 bytes)
    (hreply : ServesAt h workRef bytes offset reply) :
    assemble h record workRef rounds call (bytes.take offset) expected reply =
      objectOf h bytes := by
  induction rounds generalizing call offset expected reply with
  | zero => omega
  | succ rounds ih =>
    have hjoin : bytes.take offset ++ (bytes.drop offset).take chunkBytes =
        bytes.take (offset + chunkBytes) := List.take_add.symm
    have hlen : (bytes.take offset).length = offset := by
      rw [List.length_take]
      omega
    have haccept (next : Option ℤ) : acceptChunk workRef (bytes.take offset) expected reply
        ⟨(bytes.drop offset).take chunkBytes, offset, bytes.length, next, h.sha256 bytes⟩ =
          .ok (bytes.take (offset + chunkBytes)) := by
      have hwithin : (bytes.take (offset + chunkBytes)).length ≤ bytes.length :=
        List.length_take_le' _ _
      exact acceptChunk_ok_iff.mpr ⟨by rw [hlen], hexpected, hreply.carries, hjoin.symm,
        Int.ofNat_le.mpr hwithin, Int.ofNat_le.mpr hlength⟩
    rw [assemble, hreply.chunk hbytes (by omega)]
    dsimp only [bind, Except.bind]
    rw [haccept]
    dsimp only
    split_ifs with hmore
    · have hextended : (bytes.take (offset + chunkBytes)).length = offset + chunkBytes := by
        rw [List.length_take]
        omega
      have haligned' : (offset + chunkBytes) % chunkBytes = 0 :=
        (Nat.add_mod_right offset chunkBytes).trans haligned
      obtain ⟨following, hfollowing, hnext⟩ :=
        hserves.later call (offset + chunkBytes) haligned' hmore
      dsimp only
      rw [hextended, if_neg (not_not.mpr rfl), hfollowing]
      dsimp only
      rw [if_neg (Bool.eq_false_iff.mp hnext.ready)]
      refine ih haligned' hmore ?_ (fun digest hdigest => (Option.some.inj hdigest).symm) hnext
      rw [Nat.succ_mul] at hrounds
      omega
    · have hall : bytes.take (offset + chunkBytes) = bytes := List.take_of_length_le (by omega)
      dsimp only
      rw [hall, completed, if_neg (not_not.mpr rfl), if_neg (not_not.mpr rfl)]

end Serving

section WorkItems

variable {h : Host} {context record workRef first : Fields} {fragments : List Value}
  {bytes : List ℕ}

/-- The work item is not in the context, and its expansion does not arrive whole. -/
structure TakesChunks (h : Host) (context record : Fields) (fragments : List Value)
    (workRef first : Fields) : Prop where
  listed : context.get "fragments" = .arr fragments
  reference : workReference context = some workRef
  absent : existingFragment fragments = none
  expanded : expandContextFragment h 0 record workRef none = .ok first
  chunked : isMapping (first.get "fragment") = false

theorem expandContextFragment_reference {call : ℕ} {offset : Option ℤ} {expanded : Fields}
    (hexpanded : expandContextFragment h call record workRef offset = .ok expanded) :
    ∃ fragmentId digest, workRef.get "fragment_id" = .str fragmentId ∧
      workRef.get "digest" = .str digest := by
  unfold expandContextFragment at hexpanded
  split at hexpanded
  · rename_i fragmentId digest hfragment hdigest
    exact ⟨fragmentId, digest, hfragment, hdigest⟩
  · cases hexpanded

theorem ensure_chunked (hchunks : TakesChunks h context record fragments workRef first) :
    ensureWorkItemFragment h context record =
      if (first.get "status").isStr "attention_required" then throw (attentionReason first)
      else assemble h record workRef 33 1 [] none first >>= fun payload =>
        pure (withFragment context fragments
          [("reference", .obj workRef), ("payload", .obj payload)]) := by
  obtain ⟨fragmentId, digest, hfragment, hdigest⟩ :=
    expandContextFragment_reference hchunks.expanded
  have hchunked := hchunks.chunked
  unfold ensureWorkItemFragment
  rw [hchunks.listed]
  dsimp only
  rw [hchunks.reference]
  dsimp only
  rw [hfragment, hdigest]
  dsimp only
  rw [hchunks.absent]
  dsimp only
  rw [hchunks.expanded]
  dsimp only [bind, Except.bind]
  unfold expandedWorkItem
  split_ifs
  · rfl
  · cases hwhole : first.get "fragment" with
    | obj fragment =>
      rw [hwhole] at hchunked
      cases hchunked
    | _ => rfl

/-- What the chunked path returns is what it was sent. -/
theorem ensure_sound {result : Fields}
    (hchunks : TakesChunks h context record fragments workRef first)
    (hresult : ensureWorkItemFragment h context record = .ok result) :
    ∃ chunk rest payload, Assembled h record workRef [] 1 (⟨first, chunk⟩ :: rest) payload ∧
      rest.length < 33 ∧ result = withFragment context fragments
        [("reference", .obj workRef), ("payload", .obj payload)] := by
  rw [ensure_chunked hchunks] at hresult
  split_ifs at hresult
  cases hassemble : assemble h record workRef 33 1 [] none first with
  | error e =>
    rw [hassemble] at hresult
    cases hresult
  | ok payload =>
    rw [hassemble] at hresult
    obtain ⟨chunk, rest, hassembled, hlength, _⟩ := assemble_sound 33 payload hassemble
    exact ⟨chunk, rest, payload, hassembled, hlength, (Except.ok.inj hresult).symm⟩

/-- `json.loads` decides about bytes that are served. -/
theorem ensure_served (hfragments : context.get "fragments" = .arr fragments)
    (hreference : workReference context = some workRef)
    (habsent : existingFragment fragments = none) (hbytes : ∀ b ∈ bytes, b < 256)
    (hpos : 1 ≤ bytes.length) (hlength : bytes.length ≤ maxContextCapsuleBytes)
    (hserves : Serves h record workRef bytes) :
    ensureWorkItemFragment h context record = objectOf h bytes >>= fun payload =>
      pure (withFragment context fragments
        [("reference", .obj workRef), ("payload", .obj payload)]) := by
  obtain ⟨reply, hreply, hfirst, hwhole⟩ := hserves.first
  have hrounds : bytes.length ≤ 0 + 33 * chunkBytes :=
    Nat.le_trans hlength (by decide)
  have hassemble : assemble h record workRef 33 1 [] none reply = objectOf h bytes :=
    assemble_served hbytes hlength hserves 33 rfl hpos hrounds nofun hfirst
  rw [ensure_chunked ⟨hfragments, hreference, habsent, hreply, hwhole⟩, hassemble,
    if_neg (Bool.eq_false_iff.mp hfirst.ready)]

theorem expandContextFragment_calls {f : ℕ → ExpandContext → Except Error Fields} {call : ℕ}
    (hf : f call = h.invoke call) (reference : Fields) (offset : Option ℤ) :
    expandContextFragment { h with invoke := f } call record reference offset =
      expandContextFragment h call record reference offset := by
  unfold expandContextFragment
  dsimp only
  rw [hf]
  rfl

/-- A loop with so many rounds left makes no more calls than that. -/
theorem assemble_calls {f : ℕ → ExpandContext → Except Error Fields} (rounds : ℕ) {call : ℕ}
    {expected : Option String} {expansion : Fields}
    (hf : ∀ i < call + rounds, f i = h.invoke i) :
    assemble { h with invoke := f } record workRef rounds call bytes expected expansion =
      assemble h record workRef rounds call bytes expected expansion := by
  induction rounds generalizing call bytes expected expansion with
  | zero => rfl
  | succ rounds ih =>
    rw [assemble, assemble]
    refine congrArg (expansionChunk expansion >>= ·) (funext fun found => ?_)
    cases found with
    | none => rfl
    | some chunk =>
      refine congrArg (acceptChunk workRef bytes expected expansion chunk >>= ·)
        (funext fun extended => ?_)
      cases chunk.next with
      | none => rfl
      | some next =>
        dsimp only
        rw [expandContextFragment_calls (hf call (by omega))]
        refine congrArg (ite (next ≠ (extended.length : ℤ)) (throw _)) ?_
        refine congrArg (expandContextFragment h call record workRef (some next) >>= ·)
          (funext fun following => ?_)
        rw [ih fun i hi => hf i (by omega)]

theorem expandedWorkItem_calls {f : ℕ → ExpandContext → Except Error Fields}
    (hf : ∀ i < 34, f i = h.invoke i) (fragmentId : String) (expanded : Fields) :
    expandedWorkItem { h with invoke := f } context record fragments workRef fragmentId expanded =
      expandedWorkItem h context record fragments workRef fragmentId expanded := by
  unfold expandedWorkItem
  rw [assemble_calls 33 fun i hi => hf i (by omega)]
  rfl

/-- The loop ends whatever the replies are: what it gives is settled by the first calls. -/
theorem ensure_calls {f : ℕ → ExpandContext → Except Error Fields}
    (hf : ∀ i < 34, f i = h.invoke i) :
    ensureWorkItemFragment { h with invoke := f } context record =
      ensureWorkItemFragment h context record := by
  unfold ensureWorkItemFragment
  simp only [expandContextFragment_calls (hf 0 (by omega)), expandedWorkItem_calls hf]
  rfl

/-- The work item that arrives in chunks is what was sent: the bytes that are read are those of the
chunks, in order and without gaps, of one digest and one reference; bytes of an allowed size that
are served so are returned if and only if `json.loads` reads them as an object, and refused where
it refuses them; and at most thirty-four calls decide. -/
theorem chunks_reassemble (h : Host) (context record : Fields) :
    (∀ fragments workRef first result,
      TakesChunks h context record fragments workRef first →
      ensureWorkItemFragment h context record = .ok result →
        ∃ chunk rest payload, Assembled h record workRef [] 1 (⟨first, chunk⟩ :: rest) payload ∧
          rest.length < 33 ∧ result = withFragment context fragments
            [("reference", .obj workRef), ("payload", .obj payload)]) ∧
    (∀ fragments workRef bytes,
      context.get "fragments" = .arr fragments → workReference context = some workRef →
      existingFragment fragments = none → (∀ b ∈ bytes, b < 256) → 1 ≤ bytes.length →
      bytes.length ≤ maxContextCapsuleBytes → Serves h record workRef bytes →
        (∀ result, ensureWorkItemFragment h context record = .ok result ↔
          ∃ payload, h.loads bytes = .ok (.obj payload) ∧ result = withFragment context fragments
            [("reference", .obj workRef), ("payload", .obj payload)]) ∧
        (h.loads bytes = .error .value → ensureWorkItemFragment h context record =
          .error (.workflow "task_work_item_fragment_invalid"))) ∧
    ∀ f : ℕ → ExpandContext → Except Error Fields, (∀ call < 34, f call = h.invoke call) →
      ensureWorkItemFragment { h with invoke := f } context record =
        ensureWorkItemFragment h context record := by
  refine ⟨fun _ _ _ _ => ensure_sound, ?_, fun _ => ensure_calls⟩
  intro fragments workRef bytes hfragments hreference habsent hbytes hpos hlength hserves
  rw [ensure_served hfragments hreference habsent hbytes hpos hlength hserves]
  refine ⟨fun result => ?_, fun hloads => ?_⟩
  · cases hobject : objectOf h bytes with
    | error e =>
      refine iff_of_false nofun fun ⟨payload, hloads, _⟩ => ?_
      rw [objectOf_ok_iff.mpr hloads] at hobject
      cases hobject
    | ok payload =>
      constructor
      · intro hok
        exact ⟨payload, objectOf_ok_iff.mp hobject, (Except.ok.inj hok).symm⟩
      · rintro ⟨other, hloads, rfl⟩
        rw [objectOf_ok_iff.mpr hloads] at hobject
        cases hobject
        rfl
  · rw [objectOf, hloads]
    rfl

end WorkItems

section Example

variable {bytes digits : List ℕ}

def workItemReference : Fields :=
  [("fragment_id", .str "work-item"), ("kind", .str "work_item"), ("digest", .str "d1")]

def capsule : Fields :=
  [("manifest", .obj [("fragments", .arr [.obj workItemReference])]), ("fragments", .arr [])]

/-- The text of an object with one number. -/
def numberObject (digits : List ℕ) : List ℕ :=
  "\x7b\"n\":".toList.map Char.toNat ++ (digits.map (· + 48) ++ [125])

/-- `json.loads` of these texts. -/
def readNumber (bytes : List ℕ) : Except LoadFault Value :=
  let digits := (bytes.drop 5).dropLast.map (· - 48)
  if bytes = numberObject digits ∧ digits.all (· < 10) ∧ digits ≠ [] ∧
      (digits.head? = some 0 → digits.length = 1) ∧ digits.length ≤ maxDigits then
    .ok (.obj [("n", .int (Nat.ofDigits 10 digits.reverse : ℕ))])
  else .error .value

def digestOf (bytes : List ℕ) : String := String.ofList (bytes.map Char.ofNat)

def chunkReply (bytes : List ℕ) (offset : ℕ) : Fields :=
  [("chunk", .obj
    [("data", .str (String.ofList (Base64.encodeStandard ((bytes.drop offset).take chunkBytes)))),
      ("offset", .int offset), ("total_bytes", .int bytes.length),
      ("next_offset",
        if offset + chunkBytes < bytes.length then .int (offset + chunkBytes : ℕ) else .null),
      ("content_digest", .str (digestOf bytes)), ("reference", .obj workItemReference)])]

def servingHost (bytes : List ℕ) : Host where
  invoke := fun _ call => .ok (chunkReply bytes (call.offset.getD 0).toNat)
  size := fun _ => .ok 2
  sha256 := digestOf
  loads := readNumber
  loadsText := fun _ => .error .value

theorem servingHost_serves (bytes : List ℕ) :
    Serves (servingHost bytes) [] workItemReference bytes := by
  have hserved (offset : ℕ) :
      ServesAt (servingHost bytes) workItemReference bytes offset (chunkReply bytes offset) :=
    ⟨⟨workItemReference, by decide +kernel, rfl⟩, rfl⟩
  exact ⟨⟨chunkReply bytes 0, rfl, hserved 0, rfl⟩,
    fun _ offset _ _ => ⟨chunkReply bytes offset, rfl, hserved offset⟩⟩

theorem servingHost_loads (bytes text : List ℕ) :
    (servingHost bytes).loads text = readNumber text := rfl

theorem numberObject_length (digits : List ℕ) :
    (numberObject digits).length = digits.length + 6 := by
  simp [numberObject]

theorem numberObject_lt (hdigits : ∀ d ∈ digits, d < 10) : ∀ b ∈ numberObject digits, b < 256 := by
  simp only [numberObject, List.mem_append, List.mem_map, List.mem_singleton]
  rintro b (⟨c, hc, rfl⟩ | ⟨d, hd, rfl⟩ | rfl)
  · have hchar : ∀ c ∈ "\x7b\"n\":".toList, c.toNat < 256 := by simp
    exact hchar c hc
  · have hsmall := hdigits d hd
    omega
  · decide

theorem readNumber_numberObject (hdigits : ∀ d ∈ digits, d < 10) (hhead : digits.head? = some 1) :
    readNumber (numberObject digits) =
      if digits.length ≤ maxDigits then
        .ok (.obj [("n", .int (Nat.ofDigits 10 digits.reverse : ℕ))])
      else .error .value := by
  have hread : ((numberObject digits).drop 5).dropLast.map (· - 48) = digits := by
    have hdrop : (numberObject digits).drop 5 = digits.map (· + 48) ++ [125] := rfl
    rw [hdrop, List.dropLast_concat, List.map_map]
    exact (List.map_congr_left fun d _ => Nat.add_sub_cancel d 48).trans digits.map_id
  have hne : digits ≠ [] := by
    rintro rfl
    cases hhead
  have hall : digits.all (· < 10) = true :=
    List.all_eq_true.mpr fun d hd => decide_eq_true (hdigits d hd)
  rw [readNumber, hread, hhead]
  simp [hne, hall]

/-- A power of ten. -/
def powerDigits (k : ℕ) : List ℕ := 1 :: List.replicate k 0

def powerPayload (k : ℕ) : Fields := [("n", .int (10 ^ k : ℕ))]

theorem powerDigits_lt (k : ℕ) : ∀ d ∈ powerDigits k, d < 10 := by
  intro d hd
  rcases List.mem_cons.mp hd with rfl | hzero
  · decide
  · rw [List.eq_of_mem_replicate hzero]
    decide

theorem readNumber_power (k : ℕ) : readNumber (numberObject (powerDigits k)) =
    if k < maxDigits then .ok (.obj (powerPayload k)) else .error .value := by
  have hvalue : Nat.ofDigits 10 (powerDigits k).reverse = 10 ^ k := by
    rw [powerDigits, List.reverse_cons, List.reverse_replicate, Nat.ofDigits_append,
      Nat.ofDigits_replicate_zero, List.length_replicate, Nat.ofDigits_singleton]
    omega
  rw [readNumber_numberObject (powerDigits_lt k) rfl, hvalue]
  simp [powerDigits, powerPayload]

/-- An object of three chunks. -/
def largeObject : List ℕ := numberObject (powerDigits 4200)

theorem largeObject_length : largeObject.length = 4207 := by
  rw [largeObject, numberObject_length, powerDigits, List.length_cons, List.length_replicate]

theorem largeObject_loads : (servingHost largeObject).loads largeObject =
    .ok (.obj (powerPayload 4200)) := by
  have hshort : 4200 < maxDigits := by decide
  rw [servingHost_loads, largeObject, readNumber_power, if_pos hshort]

theorem largeObject_reassembles :
    (∃ chunk rest payload,
      Assembled (servingHost largeObject) [] workItemReference [] 1
          (⟨chunkReply largeObject 0, chunk⟩ :: rest) payload ∧
        rest.length < 33 ∧
        withFragment capsule [] [("reference", .obj workItemReference),
            ("payload", .obj (powerPayload 4200))] =
          withFragment capsule [] [("reference", .obj workItemReference),
            ("payload", .obj payload)]) ∧
    ensureWorkItemFragment (servingHost largeObject) capsule [] =
      .ok (withFragment capsule [] [("reference", .obj workItemReference),
        ("payload", .obj (powerPayload 4200))]) := by
  obtain ⟨hsound, hserved, _⟩ := chunks_reassemble (servingHost largeObject) capsule []
  have hpos : 1 ≤ largeObject.length := by
    rw [largeObject_length]
    decide
  have hlength : largeObject.length ≤ maxContextCapsuleBytes := by
    rw [largeObject_length]
    decide
  have hbytes : ∀ b ∈ largeObject, b < 256 := numberObject_lt (powerDigits_lt 4200)
  have hanswer := (hserved [] workItemReference largeObject rfl rfl rfl hbytes hpos hlength
    (servingHost_serves largeObject)).1
  have hresult := (hanswer _).mpr ⟨powerPayload 4200, largeObject_loads, rfl⟩
  exact ⟨hsound [] workItemReference _ _ ⟨rfl, rfl, rfl, rfl, rfl⟩ hresult, hresult⟩

/-- The number in it is too long for `json.loads`. -/
def longObject : List ℕ := numberObject (powerDigits 4300)

theorem longObject_loads : (servingHost longObject).loads longObject = .error .value := by
  have hlong : ¬4300 < maxDigits := by decide
  rw [servingHost_loads, longObject, readNumber_power, if_neg hlong]

theorem long_number_is_refused :
    longObject.length = 4307 ∧
    Serves (servingHost longObject) [] workItemReference longObject ∧
    ensureWorkItemFragment (servingHost longObject) capsule [] =
      .error (.workflow "task_work_item_fragment_invalid") := by
  have hlength : longObject.length = 4307 := by
    rw [longObject, numberObject_length, powerDigits, List.length_cons, List.length_replicate]
  have hbound : longObject.length ≤ maxContextCapsuleBytes := by
    rw [hlength]
    decide
  have hbytes : ∀ b ∈ longObject, b < 256 := numberObject_lt (powerDigits_lt 4300)
  refine ⟨hlength, servingHost_serves longObject, ?_⟩
  rw [ensure_served rfl rfl rfl hbytes (by omega) hbound (servingHost_serves longObject),
    objectOf, longObject_loads]
  rfl

end Example

end ProjectControl.Expansion
