import Mathlib
import ProjectControl.BoundedInspection
import ProjectControl.FirstFit
import ProjectControl.Transaction

/-! `_task_packet`: the answer to a claim. A context that is too large is replaced by its manifest
and the fragments for which there is room. -/

set_option autoImplicit false

namespace ProjectControl.Inspection

open JsonText

section Packets

-- `json.loads`, which has no value for a text that is not JSON.
variable (decode : String → Option Json)

/-- The reference of a fragment, empty where it has none. -/
def referenceOf (fragment : Dict) : Dict := mapping (Dict.value fragment "reference")

def text? : Json → Option String
  | .str s => some s
  | _ => none

def fragmentId (fragment : Dict) : Option String :=
  text? (Dict.value (referenceOf fragment) "fragment_id")

/-- `_context_refs`. -/
def contextRefs (context : Dict) : List Dict :=
  match Dict.get (mapping (Dict.value context "manifest")) "fragments" with
  | some (.arr rows) =>
    (rows.map mapping).filter fun row => (text? (Dict.value row "fragment_id")).isSome
  | _ => []

def fragmentKinds : List String :=
  ["work_item", "assignment", "plan", "declarations", "source_references", "findings",
    "scoped_deltas"]

/-- `_context_fragment_priority`: what is no object has no `get`, and a list or an object is no
key of a dictionary. -/
def contextFragmentPriority : Json → Except Error ℕ
  | .obj fragment =>
    match Dict.value (referenceOf fragment) "kind" with
    | .arr _ => throw .other
    | .obj _ => throw .other
    | kind => pure ((fragmentKinds.map Json.str).idxOf kind)
  | _ => throw .other

def fragmentRows (context : Dict) : List Json :=
  match Dict.get context "fragments" with
  | some (.arr rows) => rows
  | _ => []

/-- The fragments in the order in which they are tried. -/
def orderedFragments (context : Dict) : Except Error (List Dict) := do
  let keyed ← (fragmentRows context).mapM fun row => do
    return (← contextFragmentPriority row, mapping row)
  return (keyed.insertionSort (fun a b => a.1 ≤ b.1)).map Prod.snd

/-- `_fragment_payload`. -/
def fragmentPayload (fragment : Dict) : Except Error (Option Dict) :=
  match Dict.value fragment "payload", Dict.value fragment "payload_json" with
  | .obj payload, _ => pure (some payload)
  | _, .str text =>
    match decode text with
    | some (.obj payload) => pure (some payload)
    | _ => throw (.workflow "task_context_fragment_invalid")
  | _, _ => pure none

def workItem (context : Dict) : Option Dict :=
  ((fragmentRows context).map mapping).find? fun fragment =>
    Dict.value (referenceOf fragment) "kind" = .str "work_item"

def workItemPayload (context : Dict) : Except Error (Option Dict) :=
  match workItem context with
  | some fragment => fragmentPayload decode fragment
  | none => pure none

/-- The first characters that are whole within so many bytes. -/
def cutBytes : ℕ → List Char → List Char
  | _, [] => []
  | limit, c :: rest =>
    if c.utf8Size ≤ limit then c :: cutBytes (limit - c.utf8Size) rest else []

def definitionSummary (definition : Dict) : Dict :=
  match text? (Dict.value definition "title"), text? (Dict.value definition "name"),
    text? (Dict.value definition "summary") with
  | some title, _, _ => [("title", .str (String.ofList (title.toList.take 256)))]
  | none, some name, _ => [("title", .str (String.ofList (name.toList.take 256)))]
  | none, none, some summary => [("summary", .str (String.ofList (summary.toList.take 256)))]
  | none, none, none => []

def authoredSummary (authored : Dict) : Dict :=
  [("objective", 1200), ("scope", 500), ("acceptance", 500)].flatMap fun (source, limit) =>
    match Dict.value authored source with
    | .str value =>
      (source, .str (String.ofList (cutBytes limit value.toList))) ::
        if limit < value.utf8ByteSize then [(source ++ "_truncated", .bool true)] else []
    | _ => []

/-- `_task_summary`, with the payload of the work item. -/
def taskSummary (record : Dict) (payload : Option Dict) : Dict :=
  (match Dict.value record "task_id" with
    | .str taskId => [("task_id", .str taskId)]
    | _ => []) ++
  match payload with
  | some payload => definitionSummary (mapping (Dict.value payload "definition")) ++
      authoredSummary (mapping (Dict.value payload "authored"))
  | none => []

def settle (updated : ℕ → ℕ) : ℕ → ℕ → ℕ
  | 0, size => size
  | n + 1, size => if updated size = size then size else settle updated n (updated size)

/-- `encoded_bytes` is put right until the object has as many bytes as it says. -/
def encodedBytes (result : Dict) : ℕ :=
  settle (fun size => canonicalBytes (.obj (result ++ [("encoded_bytes", .num size)]))) 4
    (canonicalBytes (.obj result))

/-- `_compact_public_context`. -/
def compactPublicContext (context : Dict) (included : List Dict) : Dict :=
  let omitted := (contextRefs context).filter fun row =>
    !(included.map fragmentId).contains (text? (Dict.value row "fragment_id"))
  let status :=
    if omitted ≠ [] ∨ Dict.value context "status" = .str "partial" then .str "partial"
    else (Dict.get context "status").getD (.str "ready")
  let result : Dict :=
    [("format", (Dict.get context "format").getD (.str "todo-orchestrator.context-capsule")),
      ("version", (Dict.get context "version").getD (.num 1)),
      ("manifest", .obj (mapping (Dict.value context "manifest"))),
      ("semantic_revision", Dict.value context "semantic_revision"),
      ("fragments", .arr (included.map .obj)), ("omitted", .arr (omitted.map .obj)),
      ("status", status), ("changes_truncated", .bool true)]
  result ++ [("encoded_bytes", .num (encodedBytes result))]

def workspaceOf (record : Dict) : Json :=
  match Dict.value record "workspace" with
  | .obj workspace =>
    match Dict.value workspace "workspace" with
    | .obj inner => .obj inner
    | _ => .obj workspace
  | workspace => workspace

def packetBase (handle : String) (record : Dict) (resumed : Bool) : Dict :=
  [("status", .str (if resumed then "resumed" else "claimed")),
    ("task_id", Dict.value record "task_id"), ("workspace", workspaceOf record),
    ("workflow_handle", .str handle),
    ("allowed_actions", .arr [.str "inspect_task", .str "coordinate_task", .str "finish_task"]),
    ("recommended_next_call", .str "finish_task")]

def summaryField (summary : Dict) : Dict :=
  if summary = [] then [] else [("task_summary", .obj summary)]

def wholePacket (base summary context : Dict) : Dict :=
  base ++ [("context", .obj context)] ++ summaryField summary

/-- The packet with these fragments; all other references are named as omitted. -/
def partialPacket (base summary context : Dict) (included : List Dict) : Dict :=
  let compact := compactPublicContext context included
  let omitted :=
    match Dict.get compact "omitted" with
    | some (.arr rows) => rows.filterMap fun row =>
      text? (Dict.value (mapping row) "fragment_id")
    | _ => []
  base ++
    [("context", .obj compact), ("context_status", .str "partial"),
      ("context_continuation", .obj
        [("kind", .str "context_fragment"),
          ("target_format", .str "<fragment_id>#offset=<next_offset>"),
          ("omitted_fragment_ids", .arr (omitted.map .str))])] ++ summaryField summary

def fits (base summary context : Dict) (included : List Dict) : Bool :=
  canonicalBytes (.obj (partialPacket base summary context included)) ≤ maxResponseBytes

/-- A fragment is tried when it has an identity that no fragment in the packet has. -/
def admits (base summary context : Dict) (included : List Dict) (fragment : Dict) : Bool :=
  (fragmentId fragment).isSome && !(included.map fragmentId).contains (fragmentId fragment) &&
    fits base summary context (included ++ [fragment])

def boundedResponse (value : Dict) : Except Error Dict :=
  boundedMapping (.obj value) "workflow_response" maxResponseBytes

/-- The whole packet, or a partial one where it is too large. -/
def packetWithin (base summary context : Dict) : Except Error Dict :=
  match boundedResponse (wholePacket base summary context) with
  | .ok packet => pure packet
  | .error error =>
    if error ≠ .workflow "workflow_response_too_large" then throw error
    else do
      let ordered ← orderedFragments context
      boundedResponse (partialPacket base summary context
        (FirstFit.select (admits base summary context) [] ordered))

def recordContext (record : Dict) : Dict := mapping (Dict.value record "context")

/-- `_task_packet`. -/
def taskPacket (handle : String) (record : Dict) (resumed : Bool) : Except Error Dict := do
  let payload ← workItemPayload decode (recordContext record)
  packetWithin (packetBase handle record resumed) (taskSummary record payload)
    (recordContext record)

end Packets

section Sizes

variable {result : Dict} {size k : ℕ}

theorem canonicalBytes_append (hresult : result ≠ []) (e : String × Json) :
    canonicalBytes (.obj (result ++ [e])) = canonicalBytes (.obj result) + fieldBytes false e := by
  cases result with
  | nil => exact absurd rfl hresult
  | cons f rest =>
    rw [canonicalBytes, canonicalBytes, List.cons_append, bytes_object, bytes_object,
      ← List.cons_append, List.map_append, List.sum_append, List.map_singleton,
      List.sum_singleton]
    omega

theorem encoded_size (hresult : result ≠ []) (size : ℕ) :
    canonicalBytes (.obj (result ++ [("encoded_bytes", .num size)])) =
      canonicalBytes (.obj result) + 17 + bytes (number size) := by
  have hkey : bytes (quote ⟨false, false⟩ "encoded_bytes") = 15 := by decide +kernel
  rw [canonicalBytes_append hresult]
  change _ + (bytes (quote _ "encoded_bytes") + bytes (number size) + 2) = _
  omega

/-- The field adds so little that it makes its own number longer by one digit at most. -/
theorem digits_grow (hk : 0 < k) (hsize : size < 10 ^ k) (h : 10 ≤ size) :
    size + 17 + (k + 1) < 10 ^ (k + 1) := by
  have hlt : k < 10 ^ k := Nat.lt_pow_self (by omega)
  have hten : k ≠ 1 := by
    rintro rfl
    omega
  have hpow : 10 ^ 2 ≤ 10 ^ k := Nat.pow_le_pow_right (by omega) (by omega)
  rw [Nat.pow_succ]
  omega

theorem settle_fixed {updated : ℕ → ℕ} {n i : ℕ} (hi : i < n)
    (h : updated (updated^[i] size) = updated^[i] size) :
    updated (settle updated n size) = settle updated n size := by
  induction n generalizing size i with
  | zero => omega
  | succ n ih =>
    rw [settle]
    split_ifs with hsize
    · exact hsize
    · cases i with
      | zero => exact absurd h hsize
      | succ i => exact ih (Nat.lt_of_succ_lt_succ hi) h

theorem digits_mono {m n : ℕ} (h : m ≤ n) : bytes (number m) ≤ bytes (number n) := by
  have hpos : 0 < bytes (number n) := by
    rw [bytes_number]
    exact Nat.length_toDigits_pos
  have hn : n < 10 ^ bytes (number n) := (bytes_number_le_iff hpos).mp (Nat.le_refl _)
  exact (bytes_number_le_iff hpos).mpr (Nat.lt_of_le_of_lt h hn)

/-- The loop ends after one more digit at most: the number is the size of the object that has
it. -/
theorem encodedBytes_settles (hresult : result ≠ []) (h : 10 ≤ canonicalBytes (.obj result)) :
    canonicalBytes (.obj (result ++ [("encoded_bytes", .num (encodedBytes result))])) =
      encodedBytes result := by
  let updated (size : ℕ) : ℕ := canonicalBytes (.obj (result ++ [("encoded_bytes", .num size)]))
  have htwice : updated (updated^[2] (canonicalBytes (.obj result))) =
      updated^[2] (canonicalBytes (.obj result)) → updated (encodedBytes result) =
        encodedBytes result := settle_fixed (by omega)
  refine htwice ?_
  simp only [updated, Function.iterate_succ, Function.iterate_zero, Function.comp_apply, id_eq,
    encoded_size hresult]
  generalize canonicalBytes (.obj result) = size at h
  generalize hk : bytes (number size) = k
  have hpos : 0 < k := by
    rw [← hk, bytes_number]
    exact Nat.length_toDigits_pos
  have hbound : size < 10 ^ k := (bytes_number_le_iff hpos).mp (Nat.le_of_eq hk)
  have hgrow := digits_grow hpos hbound h
  have hfirst : k ≤ bytes (number (size + 17 + k : ℕ)) := hk ▸ digits_mono (by omega)
  have hlast : bytes (number (size + 17 + (k + 1) : ℕ)) ≤ k + 1 :=
    (bytes_number_le_iff (by omega)).mpr hgrow
  have hbetween : bytes (number (size + 17 + k : ℕ)) ≤ bytes (number (size + 17 + (k + 1) : ℕ)) :=
    digits_mono (by omega)
  rcases Nat.lt_or_eq_of_le hfirst with hmore | hsame
  · have hnext : bytes (number (size + 17 + k : ℕ)) = k + 1 := by omega
    rw [hnext]
    omega
  · rw [← hsame, ← hsame]

end Sizes

section Answers

variable {decode : String → Option Json} {handle : String} {record : Dict} {resumed : Bool}
  {base summary context : Dict} {included : List Dict}

def itemsAt (packet : Dict) (keys : List String) : List Json :=
  match Dict.path packet keys with
  | some (.arr items) => items
  | _ => []

def includedIds (packet : Dict) : List String :=
  (itemsAt packet ["context", "fragments"]).filterMap fun row => fragmentId (mapping row)

def omittedIds (packet : Dict) : List String :=
  (itemsAt packet ["context_continuation", "omitted_fragment_ids"]).filterMap text?

def manifestIds (context : Dict) : List String :=
  (contextRefs context).filterMap fun row => text? (Dict.value row "fragment_id")

/-- Every fragment of the manifest is in the packet or named as omitted, not both, and there is
no other. -/
structure Partition (packet context : Dict) : Prop where
  disjoint : ∀ id ∈ includedIds packet, id ∉ omittedIds packet
  covers : ∀ id, id ∈ includedIds packet ∨ id ∈ omittedIds packet ↔ id ∈ manifestIds context

/-- A claimed task whose packet can be worked with. -/
def Usable (answer : Except Error Dict) (context : Dict) : Prop :=
  ∃ packet, answer = .ok packet ∧ canonicalBytes (.obj packet) ≤ maxResponseBytes ∧
    (Dict.get packet "context_status" = some (.str "partial") → Partition packet context)

theorem itemsAt_fragments : itemsAt
    (partialPacket (packetBase handle record resumed) summary context included)
      ["context", "fragments"] = included.map .obj := rfl

theorem itemsAt_omitted : itemsAt
    (partialPacket (packetBase handle record resumed) summary context included)
      ["context_continuation", "omitted_fragment_ids"] =
    (((contextRefs context).filter fun row =>
      !(included.map fragmentId).contains (text? (Dict.value row "fragment_id"))).filterMap
        fun row => text? (Dict.value row "fragment_id")).map .str := by
  have hrows (rows : List Dict) : ((rows.map Json.obj).filterMap fun row =>
      text? (Dict.value (mapping row) "fragment_id")) =
        rows.filterMap fun row => text? (Dict.value row "fragment_id") := by
    rw [List.filterMap_map]
    rfl
  rw [← hrows]
  rfl

theorem includedIds_partialPacket : includedIds
    (partialPacket (packetBase handle record resumed) summary context included) =
      included.filterMap fragmentId := by
  rw [includedIds, itemsAt_fragments, List.filterMap_map]
  rfl

theorem mem_omittedIds {id : String} : id ∈ omittedIds
    (partialPacket (packetBase handle record resumed) summary context included) ↔
      id ∈ manifestIds context ∧ id ∉ included.filterMap fragmentId := by
  have htexts (ids : List String) : (ids.map Json.str).filterMap text? = ids := by
    rw [List.filterMap_map]
    exact List.filterMap_some
  rw [omittedIds, itemsAt_omitted, htexts, manifestIds]
  simp only [List.mem_filterMap, List.mem_filter, Bool.not_eq_true', List.contains_eq_mem,
    decide_eq_false_iff_not, List.mem_map]
  constructor
  · rintro ⟨row, ⟨hrow, hnone⟩, hid⟩
    exact ⟨⟨row, hrow, hid⟩, hid ▸ hnone⟩
  · rintro ⟨⟨row, hrow, hid⟩, hnone⟩
    exact ⟨row, ⟨hrow, hid.symm ▸ hnone⟩, hid⟩

/-- What is not included is omitted, so only a fragment that the manifest does not have can be in
the way. -/
theorem partition_iff : Partition
    (partialPacket (packetBase handle record resumed) summary context included) context ↔
      ∀ id ∈ included.filterMap fragmentId, id ∈ manifestIds context := by
  constructor
  · intro hpartition id hid
    exact (hpartition.covers id).mp (.inl (includedIds_partialPacket ▸ hid))
  · intro hknown
    refine ⟨fun id hid homitted => ?_, fun id => ?_⟩
    · rw [includedIds_partialPacket] at hid
      exact (mem_omittedIds.mp homitted).2 hid
    · rw [includedIds_partialPacket, mem_omittedIds]
      constructor
      · rintro (hid | ⟨hid, _⟩)
        · exact hknown id hid
        · exact hid
      · intro hid
        by_cases hincluded : id ∈ included.filterMap fragmentId
        · exact .inl hincluded
        · exact .inr ⟨hid, hincluded⟩

theorem boundedResponse_eq (value : Dict) : boundedResponse value =
    if canonicalBytes (.obj value) ≤ maxResponseBytes then .ok value
    else .error (.workflow "workflow_response_too_large") := by
  rw [boundedResponse]
  split_ifs with hfits
  · exact boundedMapping_of_le hfits
  · exact if_pos (Nat.lt_of_not_le hfits)

theorem admits_fits {fragment : Dict} (h : admits base summary context included fragment = true) :
    fits base summary context (included ++ [fragment]) = true :=
  (Bool.and_eq_true_iff.mp h).2

theorem admits_nil_iff {fragment : Dict} : admits base summary context [] fragment = true ↔
    (fragmentId fragment).isSome = true ∧ fits base summary context [fragment] = true := by
  simp [admits]

theorem packetWithin_eq : packetWithin base summary context =
    if canonicalBytes (.obj (wholePacket base summary context)) ≤ maxResponseBytes then
      .ok (wholePacket base summary context)
    else orderedFragments context >>= fun ordered => boundedResponse
      (partialPacket base summary context
        (FirstFit.select (admits base summary context) [] ordered)) := by
  rw [packetWithin, boundedResponse_eq]
  split_ifs with hfits
  · rfl
  · exact if_neg (not_not.mpr rfl)

/-- There is room for no fragment or for one of them, and every fragment that is taken is one of
the manifest. -/
structure Packs (base summary context : Dict) (ordered : List Dict) : Prop where
  room : fits base summary context [] = true ∨ ∃ fragment ∈ ordered,
    (fragmentId fragment).isSome = true ∧ fits base summary context [fragment] = true
  known : ∀ before fragment after, ordered = before ++ fragment :: after →
    admits base summary context (FirstFit.select (admits base summary context) [] before)
      fragment = true → ∃ id ∈ manifestIds context, fragmentId fragment = some id

theorem selected_isSome {ordered : List Dict} : ∀ fragment ∈
    FirstFit.select (admits base summary context) [] ordered,
      (fragmentId fragment).isSome = true := by
  refine (FirstFit.forall_mem_select_iff _).mpr ⟨nofun, fun before fragment after _ hadmits => ?_⟩
  simp only [admits, Bool.and_eq_true] at hadmits
  exact hadmits.1.1

theorem selected_known_iff {ordered : List Dict} :
    (∀ id ∈ (FirstFit.select (admits base summary context) [] ordered).filterMap fragmentId,
      id ∈ manifestIds context) ↔
    ∀ before fragment after, ordered = before ++ fragment :: after →
      admits base summary context (FirstFit.select (admits base summary context) [] before)
        fragment = true → ∃ id ∈ manifestIds context, fragmentId fragment = some id := by
  have hselect := @FirstFit.forall_mem_select_iff _ (admits base summary context) [] ordered
    fun fragment => ∃ id ∈ manifestIds context, fragmentId fragment = some id
  simp only [List.not_mem_nil, false_imp_iff, implies_true, true_and] at hselect
  rw [← hselect]
  constructor
  · intro hknown fragment hfragment
    obtain ⟨id, hid⟩ := Option.isSome_iff_exists.mp (selected_isSome fragment hfragment)
    exact ⟨id, hknown id (List.mem_filterMap.mpr ⟨fragment, hfragment, hid⟩), hid⟩
  · intro hknown id hid
    obtain ⟨fragment, hfragment, hid⟩ := List.mem_filterMap.mp hid
    obtain ⟨other, hother, heq⟩ := hknown fragment hfragment
    rw [hid] at heq
    exact Option.some.inj heq ▸ hother

theorem selected_fits_iff {ordered : List Dict} :
    fits base summary context (FirstFit.select (admits base summary context) [] ordered) = true ↔
      fits base summary context [] = true ∨ ∃ fragment ∈ ordered,
        (fragmentId fragment).isSome = true ∧ fits base summary context [fragment] = true := by
  rw [FirstFit.select_fits_iff fun _ _ => admits_fits]
  simp only [admits_nil_iff]

theorem partial_usable_iff {ordered : List Dict} : Usable
    (boundedResponse (partialPacket (packetBase handle record resumed) summary context
      (FirstFit.select (admits (packetBase handle record resumed) summary context) [] ordered)))
      context ↔ Packs (packetBase handle record resumed) summary context ordered := by
  rw [boundedResponse_eq]
  constructor
  · rintro ⟨packet, hpacket, hfits, hpartition⟩
    split_ifs at hpacket with hroom
    obtain rfl := Except.ok.inj hpacket
    exact ⟨selected_fits_iff.mp (decide_eq_true hroom),
      selected_known_iff.mp (partition_iff.mp (hpartition rfl))⟩
  · rintro ⟨hroom, hknown⟩
    have hfits := of_decide_eq_true (selected_fits_iff.mpr hroom)
    rw [if_pos hfits]
    exact ⟨_, rfl, hfits, fun _ => partition_iff.mpr (selected_known_iff.mpr hknown)⟩

/-- The whole packet has no status of its context. -/
theorem whole_usable (h : canonicalBytes (.obj (wholePacket (packetBase handle record resumed)
    summary context)) ≤ maxResponseBytes) :
    Usable (.ok (wholePacket (packetBase handle record resumed) summary context)) context := by
  refine ⟨_, rfl, h, fun hstatus => ?_⟩
  have hnone : Dict.get (wholePacket (packetBase handle record resumed) summary context)
      "context_status" = none := by
    unfold wholePacket summaryField
    split_ifs <;> rfl
  rw [hnone] at hstatus
  cases hstatus

theorem packetWithin_usable_iff :
    Usable (packetWithin (packetBase handle record resumed) summary context) context ↔
      canonicalBytes (.obj (wholePacket (packetBase handle record resumed) summary context)) ≤
          maxResponseBytes ∨
        ∃ ordered, orderedFragments context = .ok ordered ∧
          Packs (packetBase handle record resumed) summary context ordered := by
  rw [packetWithin_eq]
  split_ifs with hwhole
  · exact iff_of_true (whole_usable hwhole) (.inl hwhole)
  · cases hordered : orderedFragments context with
    | error e =>
      exact iff_of_false (fun ⟨_, h, _⟩ => nomatch h)
        (fun h => h.elim hwhole fun ⟨_, h, _⟩ => nomatch h)
    | ok ordered =>
      dsimp only [bind, Except.bind]
      rw [partial_usable_iff]
      simp only [hwhole, false_or, Except.ok.injEq, exists_eq_left']

theorem taskPacket_ok {payload : Option Dict}
    (hpayload : workItemPayload decode (recordContext record) = .ok payload) :
    taskPacket decode handle record resumed =
      packetWithin (packetBase handle record resumed) (taskSummary record payload)
        (recordContext record) := by
  rw [taskPacket, hpayload]
  dsimp only [bind, Except.bind]

/-- A claimed task has a usable packet if and only if its work item can be read, and the context
as a whole is small enough or can be sorted and has room. -/
theorem taskPacket_usable_iff : Usable (taskPacket decode handle record resumed)
    (recordContext record) ↔
      ∃ payload, workItemPayload decode (recordContext record) = .ok payload ∧
        (canonicalBytes (.obj (wholePacket (packetBase handle record resumed)
            (taskSummary record payload) (recordContext record))) ≤ maxResponseBytes ∨
          ∃ ordered, orderedFragments (recordContext record) = .ok ordered ∧
            Packs (packetBase handle record resumed) (taskSummary record payload)
              (recordContext record) ordered) := by
  cases hpayload : workItemPayload decode (recordContext record) with
  | error e =>
    rw [taskPacket, hpayload]
    exact iff_of_false (fun ⟨_, h, _⟩ => nomatch h) (fun ⟨_, h, _⟩ => nomatch h)
  | ok payload =>
    rw [taskPacket_ok hpayload, packetWithin_usable_iff]
    simp only [Except.ok.injEq, exists_eq_left']

def listedReference (n : ℕ) : Dict :=
  [("fragment_id", .str (toString n)), ("kind", .str "source_references"),
    ("digest", .str "sha256:6f1c2d9a0b4e8f73")]

theorem listedReference_size : ∀ n < 120, 80 ≤ canonicalBytes (.obj (listedReference n)) ∧
    canonicalBytes (.obj (listedReference n)) ≤ 90 := by
  decide +kernel

@[irreducible]
def listedRows : List Json := (List.range 120).map fun n => .obj (listedReference n)

def listedContext : Dict :=
  [("manifest", .obj [("fragments", .arr listedRows)]), ("fragments", .arr [])]

def listedRecord : Dict :=
  [("task_id", .str "task-1"), ("workspace", .obj [("path", .str "/work/task-1")]),
    ("context", .obj listedContext)]

theorem listedRows_size :
    9600 ≤ canonicalBytes (.arr listedRows) ∧ canonicalBytes (.arr listedRows) ≤ 11000 := by
  have hrow : ∀ n ∈ listedRows.map (itemBytes false), 81 ≤ n ∧ n ≤ 91 := by
    intro n hn
    obtain ⟨row, hrow, rfl⟩ := List.mem_map.mp hn
    rw [listedRows] at hrow
    obtain ⟨i, hi, rfl⟩ := List.mem_map.mp hrow
    have hsize := listedReference_size i (List.mem_range.mp hi)
    change 81 ≤ canonicalBytes _ + 1 ∧ canonicalBytes _ + 1 ≤ 91
    omega
  have hlow := List.card_nsmul_le_sum _ 81 fun n hn => (hrow n hn).1
  have hhigh := List.sum_le_card_nsmul _ 91 fun n hn => (hrow n hn).2
  have hlength : (listedRows.map (itemBytes false)).length = 120 := by
    rw [List.length_map, listedRows, List.length_map, List.length_range]
  rw [hlength, smul_eq_mul] at hlow hhigh
  have harray : canonicalBytes (.arr listedRows) = (listedRows.map (itemBytes false)).sum + 1 := by
    rw [listedRows]
    exact bytes_array _ _
  omega

/-- Whatever names the manifest is at least as large as its list. -/
theorem listedContext_large {packet context : Dict}
    (hpacket : Dict.get packet "context" = some (.obj context))
    (hcontext : Dict.get context "manifest" = some (.obj [("fragments", .arr listedRows)])) :
    maxResponseBytes < canonicalBytes (.obj packet) :=
  calc maxResponseBytes < 9600 := by decide
    _ ≤ canonicalBytes (.arr listedRows) := listedRows_size.1
    _ ≤ canonicalBytes (.obj [("fragments", .arr listedRows)]) :=
      bytes_get_le (Dict.get_cons_self _ _ _)
    _ ≤ canonicalBytes (.obj context) := bytes_get_le hcontext
    _ ≤ canonicalBytes (.obj packet) := bytes_get_le hpacket

theorem manifest_size (rows : List Json) : canonicalBytes
    (.obj [("manifest", .obj [("fragments", .arr rows)]), ("fragments", .arr [])]) =
      canonicalBytes (.arr rows) + 42 := by
  have hkeys : bytes (quote ⟨false, false⟩ "manifest") = 10 ∧
      bytes (quote ⟨false, false⟩ "fragments") = 11 ∧
      bytes (render ⟨false, false⟩ (.arr [])) = 2 := by decide +kernel
  simp only [canonicalBytes, bytes_object, List.map_cons, List.map_nil, List.sum_cons,
    List.sum_nil, fieldBytes]
  omega

theorem listedContext_fits : canonicalBytes (.obj listedContext) ≤ 64 * 1024 := by
  have hrows := listedRows_size.2
  rw [listedContext, manifest_size]
  omega

theorem listed_whole_large (payload : Option Dict) : maxResponseBytes <
    canonicalBytes (.obj (wholePacket (packetBase handle listedRecord resumed)
      (taskSummary listedRecord payload) (recordContext listedRecord))) :=
  listedContext_large rfl rfl

theorem listed_partial_large (payload : Option Dict) : maxResponseBytes <
    canonicalBytes (.obj (partialPacket (packetBase handle listedRecord resumed)
      (taskSummary listedRecord payload) (recordContext listedRecord) [])) :=
  listedContext_large rfl rfl

theorem listed_unusable (payload : Option Dict) : ¬Usable
    (packetWithin (packetBase handle listedRecord resumed) (taskSummary listedRecord payload)
      (recordContext listedRecord)) (recordContext listedRecord) := by
  rw [packetWithin_usable_iff]
  rintro (hwhole | ⟨ordered, hordered, hpacks⟩)
  · exact Nat.not_le.mpr (listed_whole_large payload) hwhole
  · have hnone : orderedFragments (recordContext listedRecord) = .ok [] := rfl
    rw [hnone] at hordered
    cases hordered
    rcases hpacks.room with hempty | ⟨_, hmem, _⟩
    · rw [fits, decide_eq_true_iff] at hempty
      exact Nat.not_le.mpr (listed_partial_large payload) hempty
    · cases hmem

/-- A claim whose manifest lists a hundred and twenty small references has no packet. -/
theorem listed_packet_unusable : ¬ ∀ (decode : String → Option Json) (handle : String)
    (record : Dict) (resumed : Bool),
      canonicalBytes (.obj (recordContext record)) ≤ 64 * 1024 →
      canonicalBytes (workspaceOf record) ≤ 1024 →
        Usable (taskPacket decode handle record resumed) (recordContext record) := by
  intro hclaim
  have hworkspace : canonicalBytes (workspaceOf listedRecord) ≤ 1024 := by decide +kernel
  have husable := hclaim (fun _ => none) "workflow-1" listedRecord false listedContext_fits
    hworkspace
  have hpayload : workItemPayload (fun _ => none) (recordContext listedRecord) = .ok none := rfl
  rw [taskPacket_ok hpayload] at husable
  exact listed_unusable none husable

end Answers

end ProjectControl.Inspection
