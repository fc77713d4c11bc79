import Mathlib
import ProjectControl.AuditRotation
import ProjectControl.OutputRedaction
import ProjectControl.PythonText
import ProjectControl.SortedKeys

/-! How an event of the call audit becomes one line: redacted, and cut down when it is too
large. -/

set_option autoImplicit false

namespace ProjectControl.Audit

open JsonText Redaction

section Encoding

mutual

/-- `redact`. -/
def redact : Json → Json
  | .null => .null
  | .bool b => .bool b
  | .num n => .num n
  | .str s => .str (redactText s)
  | .arr items => .arr (redactAll items)
  | .obj fields => .obj (redactEntries fields)

def redactAll : List Json → List Json
  | [] => []
  | v :: items => redact v :: redactAll items

def redactEntries : List (String × Json) → List (String × Json)
  | [] => []
  | (key, v) :: fields =>
    (key, if sensitiveKey key then redactedMark else redact v) :: redactEntries fields

end

/-- An event, whose constants are texts that the redaction leaves as they are. -/
structure AuditEvent where
  fields : Dict
  distinct : Distinct (.obj fields)
  constants : ∀ key ∈ ["event", "phase", "outcome"], ∀ v, fields.get key = some v →
    ∃ s, v = .str s ∧ redactText s = s

inductive EncodeFailure where
  | metadataTooLarge
deriving DecidableEq

def EncodeFailure.message : EncodeFailure → String
  | .metadataTooLarge => "audit_event_metadata_too_large"

-- `printable` is `str.isprintable`, `now` is the text of `utc_timestamp()`
variable (printable : Char → Bool) (now : String)

/-- `{"time_utc": utc_timestamp(), **redact(dict(event))}`. -/
def recordOf (fields : Dict) : Dict :=
  let redacted : Dict := redactEntries fields
  ("time_utc", (redacted.get "time_utc").getD (.str now)) ::
    redacted.filter (fun e => e.1 ≠ "time_utc")

/-- `{key: d[key] for key in keys if key in d}`. -/
def pickKeys (keys : List String) (d : Dict) : Dict :=
  keys.filterMap (fun key => (d.get key).map (fun v => (key, v)))

def cutString (n : ℕ) (s : String) : String := String.ofList (s.toList.take n)

def retainedKeys : List String :=
  ["time_utc", "event", "phase", "call_id", "tool", "profile", "operation", "outcome",
    "duration_ms", "packet_bytes"]

def cutKeys : List String := ["call_id", "tool", "profile", "operation"]

def callerKeys : List String :=
  ["transport", "peer_ip", "peer_port", "parent_pid", "upstream_identity"]

/-- A text of the identifying fields is cut; a value that is no text stays whole. -/
def cutField (key : String) (v : Json) : Json :=
  match v with
  | .str s => if key ∈ cutKeys then .str (cutString 128 s) else .str s
  | v => v

def reducedHead (record : Dict) : Dict :=
  (pickKeys retainedKeys record).map (fun e => (e.1, cutField e.1 e.2))

/-- `[str(key)[:32] for key in items[:16]]`. -/
def cutItems (items : List Json) : Json :=
  .arr ((items.take 16).map (fun v => .str (cutString 32 (PythonText.str printable v))))

/-- `str(value)[:96]`. -/
def callerText (v : Json) : Json := .str (cutString 96 (PythonText.str printable v))

def reducedCaller (record : Dict) : Dict :=
  match record.get "caller" with
  | some (.obj caller) => [("caller", .obj ((pickKeys callerKeys caller).map (fun e =>
      (e.1, callerText printable e.2))))]
  | _ => []

def reducedArguments (record : Dict) : Dict :=
  match record.get "arguments" with
  | some (.obj arguments) => [("arguments", .obj ((pickKeys
      ["keys", "question_chars", "questions_count", "hypothesis_chars"] arguments).map (fun e =>
        match e with
        | ("keys", .arr items) => ("keys", cutItems printable items)
        | e => e)))]
  | _ => []

def reducedMessages (record : Dict) : Dict :=
  match record.get "messages" with
  | some (.obj messages) =>
    [("messages", .obj (pickKeys ["message_count", "content_chars", "roles"] messages))]
  | _ => []

def reducedPacketKeys (record : Dict) : Dict :=
  match record.get "packet_keys" with
  | some (.arr items) => [("packet_keys", cutItems printable items)]
  | _ => []

def reducedOf (record : Dict) : Dict :=
  reducedHead record ++ reducedCaller printable record ++ reducedArguments printable record ++
    reducedMessages record ++ reducedPacketKeys printable record ++ [("truncated", .bool true)]

/-- `reduced` after the three calls of `pop`. -/
def leastOf (record : Dict) : Dict :=
  (reducedOf printable record).filter (fun e => e.1 ∉ ["packet_keys", "messages", "arguments"])

/-- `json.dumps(record, ensure_ascii=True, sort_keys=True, separators=(",", ":")) + "\n"`. -/
def encode (record : Dict) : List Char :=
  render ⟨true, false⟩ (sortKeys (.obj record)) ++ ['\n']

/-- `_encoded_event`. -/
def encodedEvent (event : AuditEvent) : Except EncodeFailure Line :=
  let record := recordOf now event.fields
  if hwhole : bytes (encode record) ≤ maxEventBytes then .ok ⟨encode record, hwhole⟩
  else
    let reduced := reducedOf printable record
    if hreduced : bytes (encode reduced) ≤ maxEventBytes then .ok ⟨encode reduced, hreduced⟩
    else
      let least := leastOf printable record
      if hleast : bytes (encode least) ≤ maxEventBytes then .ok ⟨encode least, hleast⟩
      else .error .metadataTooLarge

end Encoding

section Laws

/-- What is kept of a field: of a text the beginning, another value as it is. -/
def KeptOf (whole kept : Option Json) : Prop :=
  match whole with
  | some (.str s) => ∃ t, kept = some (.str t) ∧ t.toList <+: s.toList
  | whole => kept = whole.map sortKeys

/-- The line is a JSON object with the event's constants and the beginnings of the texts that
identify the call, as the redaction leaves them. -/
def Recorded (event : AuditEvent) (line : Line) : Prop :=
  ∃ fields, JsonText.read line.text = some (.obj fields) ∧
    (∀ key ∈ ["event", "phase"], Dict.get fields key = event.fields.get key) ∧
    ∀ key ∈ ["call_id", "tool"],
      KeptOf ((event.fields.get key).map redact) (Dict.get fields key)

variable (printable : Char → Bool) (now : String)

/-- The escaped bytes of a field, with its key, colon and separator. -/
def escapedBytes (key : String) (v : Json) : ℕ := fieldBytes true (key, v)

/-- The bytes of an event as a whole: the time and its redacted fields. -/
def wholeBytes (fields : Dict) : ℕ :=
  ((recordOf now fields).map (fun e => escapedBytes e.1 e.2)).sum + 2

/-- What a retained field takes: a text of the identifying ones 128 characters at most, each of
them as many bytes as its escape. -/
def retainedBytes (record : Dict) (key : String) : ℕ :=
  match record.get key with
  | some v => escapedBytes key (cutField key v)
  | none => 0

/-- The braces of an object around fields that take so much. -/
def objectBytes (fieldsBytes : ℕ) : ℕ := if fieldsBytes = 0 then 2 else fieldsBytes + 1

/-- What the caller takes: five fields, each as a text of 96 characters at most. -/
def callerBytes (record : Dict) : ℕ :=
  match record.get "caller" with
  | some (.obj caller) =>
    bytes (quote ⟨true, false⟩ "caller") + objectBytes ((callerKeys.map (fun key =>
      match Dict.get caller key with
      | some v => escapedBytes key (callerText printable v)
      | none => 0)).sum) + 2
  | _ => 0

/-- The least room that an event needs. -/
def leastBytes (record : Dict) : ℕ :=
  (retainedKeys.map (retainedBytes record)).sum + callerBytes printable record +
    escapedBytes "truncated" (.bool true) + 2

end Laws

section Fields

variable {key : String} {keys : List String} {d d' : Dict}

theorem get_append (d d' : Dict) (key : String) :
    Dict.get (d ++ d') key = (Dict.get d key).or (Dict.get d' key) := List.lookup_append

theorem get_mapFields (f : String → Json → Json) (d : Dict) (key : String) :
    Dict.get (d.map (fun e => (e.1, f e.1 e.2))) key = (d.get key).map (f key) := by
  induction d with
  | nil => rfl
  | cons e d ih =>
    obtain ⟨k, v⟩ := e
    rw [List.map_cons, get_cons, get_cons, ih]
    by_cases hk : key = k
    · rw [if_pos hk, if_pos hk, hk, Option.map_some]
    · rw [if_neg hk, if_neg hk]

theorem get_filterKeys (keep : String → Bool) (d : Dict) (h : keep key = true) :
    Dict.get (d.filter (fun e => keep e.1)) key = d.get key := by
  induction d with
  | nil => rfl
  | cons e d ih =>
    obtain ⟨k, v⟩ := e
    rw [List.filter_cons, get_cons]
    by_cases hk : key = k
    · rw [if_pos (hk ▸ h), get_cons, if_pos hk, if_pos hk]
    · rw [if_neg hk]
      split_ifs
      · rw [get_cons, if_neg hk, ih]
      · exact ih

theorem pickKeys_cons (key : String) (keys : List String) (d : Dict) :
    pickKeys (key :: keys) d = match d.get key with
      | some v => (key, v) :: pickKeys keys d
      | none => pickKeys keys d := by
  rw [pickKeys, List.filterMap_cons]
  cases d.get key with
  | some v => rfl
  | none => rfl

theorem get_pickKeys (h : key ∈ keys) : Dict.get (pickKeys keys d) key = d.get key := by
  induction keys with
  | nil => cases h
  | cons k keys ih =>
    rw [pickKeys_cons]
    by_cases hk : key = k
    · subst hk
      cases hget : d.get key with
      | some v => exact Dict.get_cons_self _ _ _
      | none =>
        -- the key is not there, also if it is picked again
        by_cases hmem : key ∈ keys
        · exact (ih hmem).trans hget
        · apply get_of_not_mem
          intro hpicked
          obtain ⟨⟨_, v⟩, he, rfl⟩ := List.mem_map.mp hpicked
          obtain ⟨other, hother, hfound⟩ := List.mem_filterMap.mp he
          obtain ⟨w, -, heq⟩ := Option.map_eq_some_iff.mp hfound
          exact hmem ((Prod.mk.inj heq).1 ▸ hother)
    · have hrest := ih ((List.mem_cons.mp h).resolve_left hk)
      cases d.get k with
      | some v => exact (Dict.get_cons_of_ne _ _ hk).trans hrest
      | none => exact hrest

theorem pickKeys_sublist (keys : List String) (d : Dict) :
    ((pickKeys keys d).map Prod.fst).Sublist keys := by
  induction keys with
  | nil => exact List.Sublist.slnil
  | cons key keys ih =>
    rw [pickKeys_cons]
    cases d.get key with
    | some v => exact ih.cons_cons key
    | none => exact ih.cons key

/-- A sum over the fields that are picked, as one over the keys. -/
theorem sum_pickKeys (f : String → Json → ℕ) (keys : List String) (d : Dict) :
    ((pickKeys keys d).map (fun e => f e.1 e.2)).sum =
      (keys.map (fun key => match d.get key with
        | some v => f key v
        | none => 0)).sum := by
  induction keys with
  | nil => rfl
  | cons key keys ih =>
    rw [pickKeys_cons, List.map_cons, List.sum_cons]
    cases d.get key with
    | some v => rw [List.map_cons, List.sum_cons, ih]
    | none => rw [ih, Nat.zero_add]

theorem mapFields_keys (f : String × Json → String × Json) (hf : ∀ e, (f e).1 = e.1) (d : Dict) :
    (d.map f).map Prod.fst = d.map Prod.fst := by
  rw [List.map_map]
  exact List.map_congr_left fun e _ => hf e

end Fields

section Distinctness

variable {printable : Char → Bool} {now key : String} {keys : List String} {d record : Dict}
  {v : Json}

theorem redactEntries_keys (fields : Dict) :
    (redactEntries fields).map Prod.fst = fields.map Prod.fst := by
  induction fields with
  | nil => rfl
  | cons e fields ih => rw [redactEntries, List.map_cons, ih, List.map_cons]

mutual

theorem distinct_redact : (v : Json) → Distinct v → Distinct (redact v)
  | .null, _ | .bool _, _ | .num _, _ | .str _, _ => by rw [redact]; trivial
  | .arr items, h => by
    rw [redact]
    exact distinct_redactAll items h
  | .obj fields, h => by
    rw [redact]
    refine ⟨?_, distinct_redactEntries fields h.2⟩
    rw [redactEntries_keys]
    exact h.1

theorem distinct_redactAll : (items : List Json) → DistinctItems items →
    DistinctItems (redactAll items)
  | [], _ => by rw [redactAll]; trivial
  | v :: items, h => by
    rw [redactAll]
    exact ⟨distinct_redact v h.1, distinct_redactAll items h.2⟩

theorem distinct_redactEntries : (fields : List (String × Json)) → DistinctFields fields →
    DistinctFields (redactEntries fields)
  | [], _ => by rw [redactEntries]; trivial
  | (key, v) :: fields, h => by
    rw [redactEntries]
    refine ⟨?_, distinct_redactEntries fields h.2⟩
    split_ifs
    · trivial
    · exact distinct_redact v h.1

end

theorem distinct_get (h : DistinctFields d) (hget : d.get key = some v) : Distinct v := by
  obtain ⟨before, after, hd, -⟩ := List.lookup_eq_some_iff.mp hget
  exact distinctFields_iff.mp h (key, v) (hd ▸ List.mem_append_right before List.mem_cons_self)

theorem distinct_recordOf (h : Distinct (.obj d)) : Distinct (.obj (recordOf now d)) := by
  have hkeys : ((redactEntries d).map Prod.fst).Nodup := by
    rw [redactEntries_keys]
    exact h.1
  have hfields := distinct_redactEntries d h.2
  refine ⟨?_, ?_, ?_⟩
  · refine List.nodup_cons.mpr ⟨?_, hkeys.sublist (List.filter_sublist.map Prod.fst)⟩
    intro hmem
    obtain ⟨e, he, hkey⟩ := List.mem_map.mp hmem
    exact of_decide_eq_true (List.mem_filter.mp he).2 hkey
  · cases htime : Dict.get (redactEntries d) "time_utc" with
    | none => trivial
    | some v => exact distinct_get hfields htime
  · refine distinctFields_iff.mpr fun e he => ?_
    exact distinctFields_iff.mp hfields e (List.mem_of_mem_filter he)

theorem distinct_pickKeys (h : DistinctFields d) : DistinctFields (pickKeys keys d) := by
  refine distinctFields_iff.mpr fun e he => ?_
  obtain ⟨key, -, hfound⟩ := List.mem_filterMap.mp he
  obtain ⟨v, hget, rfl⟩ := Option.map_eq_some_iff.mp hfound
  exact distinct_get h hget

/-- The fields that are picked make an object again, whatever is done to their values. -/
theorem distinct_picked (keys : List String) (f : String × Json → String × Json)
    (hf : ∀ e, (f e).1 = e.1)
    (hkeys : keys.Nodup) (hvalues : ∀ e ∈ pickKeys keys d, Distinct (f e).2) :
    Distinct (.obj ((pickKeys keys d).map f)) := by
  refine ⟨?_, distinctFields_iff.mpr fun e he => ?_⟩
  · rw [mapFields_keys f hf]
    exact hkeys.sublist (pickKeys_sublist keys d)
  · obtain ⟨picked, hpicked, rfl⟩ := List.mem_map.mp he
    exact hvalues picked hpicked

theorem distinct_cutItems (items : List Json) : Distinct (cutItems printable items) := by
  refine distinctItems_iff.mpr fun v hv => ?_
  obtain ⟨item, -, rfl⟩ := List.mem_map.mp hv
  trivial

theorem distinct_cutField (h : Distinct v) : Distinct (cutField key v) := by
  cases v with
  | str s =>
    rw [cutField]
    split_ifs
    · trivial
    · trivial
  | null | bool | num | arr | obj => exact h

theorem distinct_head (h : DistinctFields record) : Distinct (.obj (reducedHead record)) := by
  apply distinct_picked retainedKeys (fun e => (e.1, cutField e.1 e.2)) (fun _ => rfl) (by decide)
  intro e he
  exact distinct_cutField (distinctFields_iff.mp (distinct_pickKeys h) e he)

theorem reducedCaller_keys :
    ((reducedCaller printable record).map Prod.fst).Sublist ["caller"] := by
  unfold reducedCaller
  split
  · exact List.Sublist.refl _
  · exact List.nil_sublist _

theorem reducedArguments_keys :
    ((reducedArguments printable record).map Prod.fst).Sublist ["arguments"] := by
  unfold reducedArguments
  split
  · exact List.Sublist.refl _
  · exact List.nil_sublist _

theorem reducedMessages_keys :
    ((reducedMessages record).map Prod.fst).Sublist ["messages"] := by
  unfold reducedMessages
  split
  · exact List.Sublist.refl _
  · exact List.nil_sublist _

theorem reducedPacketKeys_keys :
    ((reducedPacketKeys printable record).map Prod.fst).Sublist ["packet_keys"] := by
  unfold reducedPacketKeys
  split
  · exact List.Sublist.refl _
  · exact List.nil_sublist _

theorem reducedHead_keys : ((reducedHead record).map Prod.fst).Sublist retainedKeys := by
  rw [reducedHead, mapFields_keys (fun e => (e.1, cutField e.1 e.2)) fun _ => rfl]
  exact pickKeys_sublist _ _

theorem distinct_caller : DistinctFields (reducedCaller printable record) := by
  unfold reducedCaller
  split
  · exact ⟨distinct_picked _ _ (fun _ => rfl) (by decide) fun _ _ => trivial, trivial⟩
  · trivial

theorem distinct_arguments (h : DistinctFields record) :
    DistinctFields (reducedArguments printable record) := by
  unfold reducedArguments
  split
  · next arguments hget =>
    have harguments := distinct_get h hget
    refine ⟨distinct_picked _ _ (fun e => ?_) (by decide) fun e he => ?_, trivial⟩
    · split <;> rfl
    · split
      · exact distinct_cutItems _
      · exact distinctFields_iff.mp (distinct_pickKeys harguments.2) _ he
  · trivial

theorem distinct_messages (h : DistinctFields record) :
    DistinctFields (reducedMessages record) := by
  unfold reducedMessages
  split
  · next messages hget =>
    have hmessages := distinct_get h hget
    have hpicked := distinct_picked ["message_count", "content_chars", "roles"] id (fun _ => rfl)
      (by decide) fun e he => distinctFields_iff.mp (distinct_pickKeys hmessages.2) e he
    rw [List.map_id] at hpicked
    exact ⟨hpicked, trivial⟩
  · trivial

theorem distinct_packetKeys : DistinctFields (reducedPacketKeys printable record) := by
  unfold reducedPacketKeys
  split
  · exact ⟨distinct_cutItems _, trivial⟩
  · trivial

theorem distinct_reducedOf (h : DistinctFields record) :
    Distinct (.obj (reducedOf printable record)) := by
  constructor
  · have hkeys : ((reducedOf printable record).map Prod.fst).Sublist
        (retainedKeys ++ ["caller"] ++ ["arguments"] ++ ["messages"] ++ ["packet_keys"] ++
          ["truncated"]) := by
      simp only [reducedOf, List.map_append]
      exact ((((reducedHead_keys.append reducedCaller_keys).append
        reducedArguments_keys).append reducedMessages_keys).append
          reducedPacketKeys_keys).append (List.Sublist.refl _)
    exact List.Nodup.sublist hkeys (by decide)
  · refine distinctFields_iff.mpr fun e he => ?_
    simp only [reducedOf, List.mem_append, List.mem_singleton] at he
    rcases he with ((((he | he) | he) | he) | he) | rfl
    · exact distinctFields_iff.mp (distinct_head h).2 e he
    · exact distinctFields_iff.mp distinct_caller e he
    · exact distinctFields_iff.mp (distinct_arguments h) e he
    · exact distinctFields_iff.mp (distinct_messages h) e he
    · exact distinctFields_iff.mp distinct_packetKeys e he
    · trivial

end Distinctness

section Sizes

variable {printable : Char → Bool} {now : String} {record : Dict}

theorem bytes_encode (hne : record ≠ []) (h : Distinct (.obj record)) :
    bytes (encode record) = (record.map (fun e => escapedBytes e.1 e.2)).sum + 2 := by
  have hnewline : bytes ['\n'] = 1 := rfl
  rw [encode, bytes_append, bytes_sortKeys _ h, bytes_obj hne, hnewline]
  rfl

theorem leastOf_eq (record : Dict) : leastOf printable record =
    reducedHead record ++ reducedCaller printable record ++ [("truncated", .bool true)] := by
  let popped := ["packet_keys", "messages", "arguments"]
  have hstays (d : Dict) (keys : List String) (hkeys : (d.map Prod.fst).Sublist keys)
      (hapart : ∀ key ∈ keys, key ∉ popped) : d.filter (fun e => e.1 ∉ popped) = d := by
    refine List.filter_eq_self.mpr fun e he => decide_eq_true ?_
    exact hapart e.1 (hkeys.subset (List.mem_map_of_mem he))
  have hgoes (d : Dict) (key : String) (hkeys : (d.map Prod.fst).Sublist [key])
      (hkey : key ∈ popped) : d.filter (fun e => e.1 ∉ popped) = [] := by
    refine List.filter_eq_nil_iff.mpr fun e he => ?_
    have heq : e.1 = key := List.mem_singleton.mp (hkeys.subset (List.mem_map_of_mem he))
    rw [decide_eq_true_iff, not_not, heq]
    exact hkey
  have hhead := hstays _ _ (@reducedHead_keys record) (by decide)
  have hcaller := hstays _ _ (@reducedCaller_keys printable record) (by decide)
  have htruncated := hstays [("truncated", .bool true)] _ (List.Sublist.refl _) (by decide)
  have harguments := hgoes _ _ (@reducedArguments_keys printable record) (by decide)
  have hmessages := hgoes _ _ (@reducedMessages_keys record) (by decide)
  have hpackets := hgoes _ _ (@reducedPacketKeys_keys printable record) (by decide)
  change (reducedOf printable record).filter (fun e => e.1 ∉ popped) = _
  rw [reducedOf, List.filter_append, List.filter_append, List.filter_append, List.filter_append,
    List.filter_append, hhead, hcaller, harguments, hmessages, hpackets, htruncated]
  simp only [List.append_nil]

theorem bytes_object_mapped (f : String → Json → Json) (picked : Dict) :
    bytes (render ⟨true, false⟩ (.obj (picked.map (fun e => (e.1, f e.1 e.2))))) =
      objectBytes ((picked.map (fun e => escapedBytes e.1 (f e.1 e.2))).sum) := by
  cases picked with
  | nil => rfl
  | cons e picked =>
    have hne : (e :: picked).map (fun e => (e.1, f e.1 e.2)) ≠ [] := List.cons_ne_nil _ _
    have hpos : ((e :: picked).map (fun e => escapedBytes e.1 (f e.1 e.2))).sum ≠ 0 := by
      rw [List.map_cons, List.sum_cons, escapedBytes, fieldBytes]
      omega
    rw [bytes_obj hne, objectBytes, if_neg hpos, List.map_map]
    rfl

/-- The caller's part takes what is reckoned for it. -/
theorem sum_reducedCaller (record : Dict) :
    ((reducedCaller printable record).map (fun e => escapedBytes e.1 e.2)).sum =
      callerBytes printable record := by
  unfold reducedCaller callerBytes
  split
  · next caller hget =>
    have hobject := bytes_object_mapped (fun _ => callerText printable) (pickKeys callerKeys caller)
    have hsum := sum_pickKeys (fun key v => escapedBytes key (callerText printable v)) callerKeys
      caller
    rw [List.map_singleton, List.sum_singleton, escapedBytes, fieldBytes, hobject, hsum]
  · rfl

theorem sum_leastOf (record : Dict) :
    ((leastOf printable record).map (fun e => escapedBytes e.1 e.2)).sum + 2 =
      leastBytes printable record := by
  have hhead : ((reducedHead record).map (fun e => escapedBytes e.1 e.2)).sum =
      (retainedKeys.map (retainedBytes record)).sum := by
    rw [reducedHead, List.map_map]
    exact sum_pickKeys (fun key v => escapedBytes key (cutField key v)) retainedKeys record
  rw [leastOf_eq, List.map_append, List.map_append, List.sum_append, List.sum_append, hhead,
    sum_reducedCaller, List.map_singleton, List.sum_singleton, leastBytes]

theorem distinct_leastOf (h : DistinctFields record) :
    Distinct (.obj (leastOf printable record)) := by
  obtain ⟨hkeys, hfields⟩ := @distinct_reducedOf printable record h
  refine ⟨hkeys.sublist (List.filter_sublist.map Prod.fst), distinctFields_iff.mpr fun e he => ?_⟩
  exact distinctFields_iff.mp hfields e (List.mem_of_mem_filter he)

theorem bytes_least (h : DistinctFields record) : bytes (encode (leastOf printable record)) =
    leastBytes printable record := by
  have hne : leastOf printable record ≠ [] := by
    rw [leastOf_eq]
    exact List.append_ne_nil_of_right_ne_nil _ (List.cons_ne_nil _ _)
  rw [bytes_encode hne (distinct_leastOf h), sum_leastOf]

/-- What is popped makes the line shorter. -/
theorem leastBytes_le (h : DistinctFields record) :
    leastBytes printable record ≤ bytes (encode (reducedOf printable record)) := by
  have hne : reducedOf printable record ≠ [] :=
    List.append_ne_nil_of_right_ne_nil _ (List.cons_ne_nil _ _)
  have hsum : ((leastOf printable record).map (fun e => escapedBytes e.1 e.2)).sum ≤
      ((reducedOf printable record).map (fun e => escapedBytes e.1 e.2)).sum :=
    (List.filter_sublist.map _).sum_le_sum fun _ _ => Nat.zero_le _
  rw [bytes_encode hne (distinct_reducedOf h), ← sum_leastOf]
  omega

end Sizes

section Lookups

variable {printable : Char → Bool} {now key : String} {record : Dict} {event : AuditEvent}

theorem get_redactEntries (fields : Dict) (key : String) :
    Dict.get (redactEntries fields) key =
      (Dict.get fields key).map (fun v => if sensitiveKey key then redactedMark else redact v) := by
  induction fields with
  | nil => rfl
  | cons e fields ih =>
    obtain ⟨k, v⟩ := e
    rw [redactEntries, get_cons, get_cons, ih]
    by_cases hk : key = k
    · rw [if_pos hk, if_pos hk, hk, Option.map_some]
    · rw [if_neg hk, if_neg hk]

/-- The record has the redacted value of every field whose key hides nothing. -/
theorem get_recordOf (hplain : sensitiveKey key = false) (htime : key ≠ "time_utc")
    (fields : Dict) : (recordOf now fields).get key = (fields.get key).map redact := by
  have hfilter := get_filterKeys (fun k => decide (k ≠ "time_utc")) (redactEntries fields)
    (decide_eq_true htime)
  rw [recordOf, Dict.get_cons_of_ne _ _ htime, hfilter, get_redactEntries, hplain]
  rfl

/-- A key that is retained is found in the head alone. -/
theorem get_of_head (rest : Dict) (h : key ∈ retainedKeys)
    (hrest : ∀ e ∈ rest, e.1 ∉ retainedKeys) :
    Dict.get (reducedHead record ++ rest) key = (record.get key).map (cutField key) := by
  have hnone : Dict.get rest key = none := by
    apply get_of_not_mem
    intro hmem
    obtain ⟨e, he, rfl⟩ := List.mem_map.mp hmem
    exact hrest e he h
  rw [get_append, hnone, Option.or_none, reducedHead, get_mapFields, get_pickKeys h]

theorem get_reducedOf (h : key ∈ retainedKeys) :
    Dict.get (reducedOf printable record) key = (record.get key).map (cutField key) := by
  simp only [reducedOf, List.append_assoc]
  refine get_of_head _ h fun e he => ?_
  have hkeys : (((reducedCaller printable record ++ (reducedArguments printable record ++
      (reducedMessages record ++ (reducedPacketKeys printable record ++
        [("truncated", Json.bool true)])))).map Prod.fst)).Sublist
          ["caller", "arguments", "messages", "packet_keys", "truncated"] := by
    simp only [List.map_append]
    exact reducedCaller_keys.append (reducedArguments_keys.append (reducedMessages_keys.append
      (reducedPacketKeys_keys.append (List.Sublist.refl ["truncated"]))))
  have hapart : ∀ k ∈ ["caller", "arguments", "messages", "packet_keys", "truncated"],
      k ∉ retainedKeys := by decide
  exact hapart e.1 (hkeys.subset (List.mem_map_of_mem he))

theorem get_leastOf (h : key ∈ retainedKeys) :
    Dict.get (leastOf printable record) key = (record.get key).map (cutField key) := by
  have hkept : ∀ k ∈ retainedKeys,
      decide (k ∉ ["packet_keys", "messages", "arguments"]) = true := by decide
  have hfilter := get_filterKeys (fun k => decide (k ∉ ["packet_keys", "messages", "arguments"]))
    (reducedOf printable record) (hkept key h)
  exact hfilter.trans (get_reducedOf h)

theorem keptOf_whole (whole : Option Json) : KeptOf whole (whole.map sortKeys) := by
  match whole with
  | none => rfl
  | some (.str s) => exact ⟨s, by rw [Option.map_some, sortKeys], List.prefix_rfl⟩
  | some .null | some (.bool _) | some (.num _) | some (.arr _) | some (.obj _) => rfl

theorem keptOf_cut (whole : Option Json) :
    KeptOf whole ((whole.map (cutField key)).map sortKeys) := by
  match whole with
  | none => rfl
  | some (.str s) =>
    rw [Option.map_some, Option.map_some, cutField]
    split_ifs
    · refine ⟨cutString 128 s, by rw [sortKeys], ?_⟩
      rw [cutString, String.toList_ofList]
      exact List.take_prefix 128 s.toList
    · exact ⟨s, by rw [sortKeys], List.prefix_rfl⟩
  | some .null | some (.bool _) | some (.num _) | some (.arr _) | some (.obj _) => rfl

/-- A record that has the redacted fields, or their beginnings, becomes a line that does. -/
theorem recorded_of {line : Line} (hline : line.text = encode record)
    (hkeys : (record.map Prod.fst).Nodup)
    (hget : ∀ key ∈ ["event", "phase", "call_id", "tool"],
      record.get key = (event.fields.get key).map redact ∨
        record.get key = ((event.fields.get key).map redact).map (cutField key)) :
    Recorded event line := by
  obtain ⟨sorted, hsorted, hlookup⟩ := sortKeys_object hkeys
  have hread := read_line ⟨true, false⟩ (.obj record)
  rw [hsorted] at hread
  refine ⟨sorted, ?_, fun key hkey => ?_, fun key hkey => ?_⟩
  · rw [hline, encode, hsorted]
    exact hread
  · have hconstant : key ∈ ["event", "phase", "outcome"] ∧
        key ∈ ["event", "phase", "call_id", "tool"] ∧ key ∉ cutKeys := by
      revert key
      decide
    rw [hlookup]
    cases hvalue : event.fields.get key with
    | none =>
      rcases hget key hconstant.2.1 with h | h
      · rw [h, hvalue]
        rfl
      · rw [h, hvalue]
        rfl
    | some v =>
      obtain ⟨s, rfl, hs⟩ := event.constants key hconstant.1 v hvalue
      have hsame : redact (.str s) = .str s := by rw [redact, hs]
      have hcut : cutField key (.str s) = .str s := by rw [cutField, if_neg hconstant.2.2]
      rcases hget key hconstant.2.1 with h | h
      · rw [h, hvalue, Option.map_some, hsame, Option.map_some, sortKeys]
      · rw [h, hvalue, Option.map_some, hsame, Option.map_some, hcut, Option.map_some, sortKeys]
  · have hmem : key ∈ ["event", "phase", "call_id", "tool"] := by
      revert key
      decide
    rw [hlookup]
    rcases hget key hmem with h | h
    · rw [h]
      exact keptOf_whole _
    · rw [h]
      exact keptOf_cut _

end Lookups

section Theorem

variable {printable : Char → Bool} {now : String} {event : AuditEvent} {line : Line}

/-- Every line that is returned is a record of its event. -/
theorem recorded_of_ok (h : encodedEvent printable now event = .ok line) : Recorded event line := by
  have hdistinct : Distinct (.obj (recordOf now event.fields)) := distinct_recordOf event.distinct
  have hplain : ∀ key ∈ ["event", "phase", "call_id", "tool"],
      sensitiveKey key = false ∧ key ≠ "time_utc" ∧ key ∈ retainedKeys := by decide +kernel
  have hrecord : ∀ key ∈ ["event", "phase", "call_id", "tool"],
      (recordOf now event.fields).get key = (event.fields.get key).map redact :=
    fun key hkey => get_recordOf (hplain key hkey).1 (hplain key hkey).2.1 event.fields
  unfold encodedEvent at h
  dsimp only at h
  split_ifs at h with hwhole hreduced hleast
  · cases h
    exact recorded_of rfl hdistinct.1 fun key hkey => .inl (hrecord key hkey)
  · cases h
    refine recorded_of rfl (distinct_reducedOf hdistinct.2).1 fun key hkey => .inr ?_
    rw [get_reducedOf (hplain key hkey).2.2, hrecord key hkey]
  · cases h
    refine recorded_of rfl (distinct_leastOf hdistinct.2).1 fun key hkey => .inr ?_
    rw [get_leastOf (hplain key hkey).2.2, hrecord key hkey]

theorem bytes_whole (now : String) (event : AuditEvent) :
    bytes (encode (recordOf now event.fields)) = wholeBytes now event.fields :=
  bytes_encode (List.cons_ne_nil _ _) (distinct_recordOf event.distinct)

theorem bytes_le_whole {key : String} {v : Json}
    (h : (recordOf now event.fields).get key = some v) :
    bytes (render ⟨true, false⟩ v) ≤ wholeBytes now event.fields := by
  have hv : bytes (render ⟨true, false⟩ v) ≤
      bytes (render ⟨true, false⟩ (.obj (recordOf now event.fields))) := bytes_get_le h
  have hsorted : bytes (render ⟨true, false⟩ (sortKeys (.obj (recordOf now event.fields)))) =
      bytes (render ⟨true, false⟩ (.obj (recordOf now event.fields))) :=
    bytes_sortKeys _ (distinct_recordOf event.distinct)
  rw [← bytes_whole, encode, bytes_append, hsorted]
  omega

/-- The two texts that identify a call are always retained. -/
theorem identity_le_least (record : Dict) :
    retainedBytes record "call_id" + retainedBytes record "tool" ≤ leastBytes printable record := by
  simp only [leastBytes, retainedKeys, List.map_cons, List.map_nil, List.sum_cons, List.sum_nil]
  omega

/-- A line is returned exactly if the whole event fits, or what is least retained of it. -/
theorem returns_iff : (∃ line, encodedEvent printable now event = .ok line) ↔
    wholeBytes now event.fields ≤ maxEventBytes ∨
      leastBytes printable (recordOf now event.fields) ≤ maxEventBytes := by
  have hdistinct : Distinct (.obj (recordOf now event.fields)) := distinct_recordOf event.distinct
  have hwhole := bytes_whole now event
  have hleast : bytes (encode (leastOf printable (recordOf now event.fields))) =
      leastBytes printable (recordOf now event.fields) := bytes_least hdistinct.2
  have hreduced : leastBytes printable (recordOf now event.fields) ≤
      bytes (encode (reducedOf printable (recordOf now event.fields))) := leastBytes_le hdistinct.2
  rw [← hwhole, ← hleast] at *
  unfold encodedEvent
  dsimp only
  split_ifs with h₁ h₂ h₃
  · exact iff_of_true ⟨_, rfl⟩ (.inl h₁)
  · exact iff_of_true ⟨_, rfl⟩ (.inr (hreduced.trans h₂))
  · exact iff_of_true ⟨_, rfl⟩ (.inr h₃)
  · exact iff_of_false (fun ⟨_, h⟩ => nomatch h) fun h => h.elim h₁ h₃

/-- An event is recorded exactly if it fits as a whole, or what is least retained of it does:
its texts cut by characters, each character with the bytes of its escape. -/
theorem recorded_iff : (∃ line, encodedEvent printable now event = .ok line ∧
      Recorded event line) ↔
    wholeBytes now event.fields ≤ maxEventBytes ∨
      leastBytes printable (recordOf now event.fields) ≤ maxEventBytes := by
  rw [← returns_iff]
  exact ⟨fun ⟨line, hline, _⟩ => ⟨line, hline⟩, fun ⟨line, hline⟩ =>
    ⟨line, hline, recorded_of_ok hline⟩⟩

end Theorem

section Cases

/-- A text of characters that take twelve bytes each when they are escaped. -/
@[irreducible]
def astral (n : ℕ) : String := String.ofList (List.replicate n '😀')

theorem toList_astral (n : ℕ) : (astral n).toList = List.replicate n '😀' := by
  rw [astral, String.toList_ofList]

theorem findSensitive_astral (prev : Option Char) (rest : List Char) :
    findSensitive prev ('😀' :: rest) = none := by
  have htoken : findToken prev ('😀' :: rest) = none := by
    unfold findToken
    split_ifs
    · rfl
    · rfl
  have hrest : findBearer prev ('😀' :: rest) = none ∧ findGithub prev ('😀' :: rest) = none ∧
      findAmazon prev ('😀' :: rest) = none ∧ findCredential prev ('😀' :: rest) = none :=
    ⟨rfl, rfl, rfl, rfl⟩
  simp only [findSensitive, List.findSome?_cons, List.findSome?_nil, htoken, hrest]

theorem redactText_astral (n : ℕ) : redactText (astral n) = astral n := by
  have hsub (mark : List Char) (prev : Option Char) :
      sub findSensitive mark prev 0 (List.replicate n '😀') = List.replicate n '😀' := by
    induction n generalizing prev with
    | zero => rfl
    | succ n ih => rw [List.replicate_succ, sub, findSensitive_astral, ih]
  rw [redactText, toList_astral, hsub, astral]

theorem bytes_astral (n : ℕ) : bytes (quote ⟨true, false⟩ (astral n)) = 12 * n + 2 := by
  have hescape : bytes (escape true '😀') = 12 := by decide
  have hquote : '"'.utf8Size = 1 := rfl
  have hchars : bytes ((List.replicate n '😀').flatMap (escape true)) = 12 * n := by
    induction n with
    | zero => rfl
    | succ n ih =>
      rw [List.replicate_succ, List.flatMap_cons, bytes_append, ih, hescape]
      omega
  have hnil : bytes [] = 0 := rfl
  rw [quote, toList_astral, List.cons_append, bytes_cons, bytes_append, hchars,
    bytes_cons, hquote, hnil]
  omega

/-- A call whose identity and tool are texts of such characters. -/
def foreignCall : AuditEvent where
  fields := [("event", .str "tool_call"), ("phase", .str "started"),
    ("call_id", .str (astral 256)), ("tool", .str (astral 256))]
  distinct := ⟨by decide, trivial, trivial, trivial, trivial, trivial⟩
  constants := by
    intro key hkey v hv
    rcases List.mem_cons.mp hkey with rfl | hkey
    · exact ⟨"tool_call", (Option.some.inj hv).symm, by decide +kernel⟩
    rcases List.mem_cons.mp hkey with rfl | hkey
    · exact ⟨"started", (Option.some.inj hv).symm, by decide +kernel⟩
    · obtain rfl := List.mem_singleton.mp hkey
      cases hv

/-- Its two texts alone take more than a line may have. -/
theorem foreignCall_is_too_large (printable : Char → Bool) (now : String) :
    maxEventBytes < wholeBytes now foreignCall.fields ∧
      maxEventBytes < leastBytes printable (recordOf now foreignCall.fields) := by
  have hget : ∀ key ∈ ["call_id", "tool"],
      (recordOf now foreignCall.fields).get key = some (.str (astral 256)) := by
    intro key hkey
    have hplain : ∀ key ∈ ["call_id", "tool"], sensitiveKey key = false ∧ key ≠ "time_utc" := by
      decide +kernel
    have hfield : foreignCall.fields.get key = some (.str (astral 256)) := by
      rcases List.mem_cons.mp hkey with rfl | hkey
      · rfl
      · obtain rfl := List.mem_singleton.mp hkey
        rfl
    rw [get_recordOf (hplain key hkey).1 (hplain key hkey).2, hfield, Option.map_some, redact,
      redactText_astral]
  have hwhole : maxEventBytes < wholeBytes now foreignCall.fields := by
    have htext := bytes_le_whole (hget "tool" (by decide))
    rw [render, bytes_astral] at htext
    rw [maxEventBytes]
    omega
  have hleast : maxEventBytes < leastBytes printable (recordOf now foreignCall.fields) := by
    have hcut : cutString 128 (astral 256) = astral 128 := by
      rw [cutString, toList_astral, List.take_replicate, astral]
      rfl
    have htext : ∀ key ∈ ["call_id", "tool"],
        1538 ≤ retainedBytes (recordOf now foreignCall.fields) key := by
      intro key hkey
      have hcutKey : ∀ key ∈ ["call_id", "tool"], key ∈ cutKeys := by decide
      have hvalue : bytes (render ⟨true, false⟩ (.str (astral 128))) = 1538 := by
        rw [render, bytes_astral]
      rw [retainedBytes, hget key hkey]
      simp only [cutField, if_pos (hcutKey key hkey), hcut, escapedBytes, fieldBytes, hvalue]
      omega
    have htwo : 1538 + 1538 ≤ leastBytes printable (recordOf now foreignCall.fields) :=
      (Nat.add_le_add (htext "call_id" (by decide)) (htext "tool" (by decide))).trans
        (identity_le_least _)
    rw [maxEventBytes]
    omega
  exact ⟨hwhole, hleast⟩

theorem foreignCall_is_dropped : ¬∃ line,
    encodedEvent (fun _ => true) "2026-01-01T00:00:00Z" foreignCall = .ok line ∧
      Recorded foreignCall line := by
  rintro ⟨line, hline, -⟩
  obtain ⟨hwhole, hleast⟩ := foreignCall_is_too_large (fun _ => true) "2026-01-01T00:00:00Z"
  rcases returns_iff.mp ⟨line, hline⟩ with hfits | hfits
  · exact absurd hfits (not_le.mpr hwhole)
  · exact absurd hfits (not_le.mpr hleast)

end Cases

end ProjectControl.Audit
