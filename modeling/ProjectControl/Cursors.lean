import Mathlib
import ProjectControl.Base64
import ProjectControl.JsonPlaces
import ProjectControl.JsonText
import ProjectControl.Values

/-! The continuation cursors of the read tools: three codecs over base64 and JSON, and the texts
that stand for the query of a cursor. -/

set_option autoImplicit false

namespace ProjectControl.Cursors

open JsonText Values

section Codecs

def compact : Style := ⟨true, false⟩

/-- What the codecs use of the platform: `json.loads` of octets, `json.dumps` with sorted keys,
`int` of a text, and SHA-256, without collisions. Small documents are read and written. -/
structure Platform where
  loads : List ℕ → Except LoadFault Value
  dumps : Value → Except LoadFault (List Char)
  intOfText : String → Option ℤ
  sha256 : List Char → String
  loads_small : ∀ v, Canonical v → Small 8 v →
    loads ((render compact v).map Char.toNat) = .ok (ofJson v)
  loads_canonical : ∀ v w, Canonical v → loads ((render compact v).map Char.toNat) = .ok w →
    w = ofJson v
  dumps_small : ∀ v, Canonical v → Small 8 v → dumps (ofJson v) = .ok (render compact v)
  dumps_canonical : ∀ v text, Canonical v → dumps (ofJson v) = .ok text → text = render compact v
  sha256_injective : Function.Injective sha256

/-- What a decoder raises: a `ValueError`, or another exception. -/
inductive Fault
  | value (message : String)
  | attribute
  | key
  | overflow
  | recursion
  deriving DecidableEq

inductive Codec
  | retrieval
  | source
  | coordination
  deriving DecidableEq

variable (p : Platform)

/-- The base64 of the compact text of a document, without padding. -/
def encodeDocument (v : Json) : String :=
  String.ofList (Base64.encode ((render compact v).map Char.toNat))

def payloadOf (tool identity : String) (offset : ℤ) : Json :=
  .obj [("identity", .str identity), ("offset", .num offset), ("tool", .str tool), ("v", .num 1)]

/-- The document of a cursor; `tool` is `operation` of the first codec, and the second has none. -/
def document (c : Codec) (tool identity : String) (offset : ℤ) : Json :=
  match c with
  | .retrieval => .obj [("offset", .num offset), ("operation", .str tool),
      ("query", .str identity), ("v", .num 1)]
  | .source => .obj [("offset", .num offset), ("source", .str identity), ("v", .num 1)]
  | .coordination =>
    .obj [("digest", .str (p.sha256 (render compact (payloadOf tool identity offset)))),
      ("payload", payloadOf tool identity offset)]

/-- `encode_cursor` of `retrieval` and of `coordination`, and `_cursor` of `source_context`. -/
def encodeCursor (c : Codec) (tool identity : String) (offset : ℤ) : String :=
  encodeDocument (document p c tool identity offset)

/-- A value that `isinstance` takes for an `int`; booleans are. -/
def integer? : Value → Option ℤ
  | .int n => some n
  | .bool b => some (if b then 1 else 0)
  | _ => none

def toInt (q : ℚ) : ℤ := if 0 ≤ q then ⌊q⌋ else ⌈q⌉

/-- `int(value)`; a `TypeError` is caught where the codecs call it, as a `ValueError` is. -/
def intOf (message : String) : Value → Except Fault ℤ
  | .int n => pure n
  | .bool b => pure (if b then 1 else 0)
  | .float (.finite q) => pure (toInt q)
  | .float (.infinite _) => throw .overflow
  | .str s =>
    match p.intOfText s with
    | some n => pure n
    | none => throw (.value message)
  | _ => throw (.value message)

/-- The comparison of `retrieval.decode_cursor`. -/
def namesQuery (operation queryKey : String) (fields : Fields) : Bool :=
  Value.same (.obj fields) (.obj [("v", .int 1), ("operation", .str operation),
    ("query", .str queryKey), ("offset", Fields.get fields "offset")])

/-- `retrieval.decode_cursor` on what `json.loads` gives. -/
def decodeRetrieval (operation queryKey : String) : Value → Except Fault ℤ
  | .obj fields =>
    if namesQuery operation queryKey fields = false then
      throw (.value "continuation_cursor_mismatch")
    else
      match integer? (Fields.get fields "offset") with
      | some n => if n < 0 then throw (.value "continuation_cursor_mismatch") else pure n
      | none => throw (.value "continuation_cursor_mismatch")
  | _ => throw .attribute

/-- The comparison of `source_context._decode_cursor`. -/
def namesSource (identity : String) (fields : Fields) : Bool :=
  (fields.get "v").same (.int 1) && (fields.get "source").isStr identity

/-- `source_context._decode_cursor` on what `json.loads` gives. -/
def decodeSource (identity : String) : Value → Except Fault ℤ
  | .obj fields =>
    if namesSource identity fields = false then
      throw (.value "invalid_or_stale_continuation_cursor")
    else
      match fields.lookup "offset" with
      | none => throw .key
      | some offset => (max 0 ·) <$> intOf p "invalid_or_stale_continuation_cursor" offset
  | _ => throw .attribute

/-- The offset of a coordination cursor that is `valid`. -/
def validOffset? (tool identity : String) : Value → Except LoadFault (Option ℤ)
  | .obj envelope =>
    match envelope.lookup "payload" with
    | none => pure none
    | some payload => do
      let canonical ← p.dumps payload
      match envelope.lookup "digest", payload with
      | some digest, .obj payload =>
        if digest.isStr (p.sha256 canonical) ∧ (Fields.get payload "v").same (.int 1) ∧
            (Fields.get payload "tool").isStr tool ∧
            (Fields.get payload "identity").isStr identity then
          pure ((integer? (Fields.get payload "offset")).filter (0 ≤ ·))
        else pure none
      | _, _ => pure none
  | _ => pure none

/-- `coordination.decode_cursor` on what `json.loads` gives. -/
def decodeCoordination (tool identity : String) (v : Value) : Except Fault ℤ :=
  match validOffset? p tool identity v with
  | .ok (some n) => pure n
  | .error .recursion => throw .recursion
  | _ => throw (.value "continuation cursor is invalid or stale")

def checkDecoded (c : Codec) (tool identity : String) (v : Value) : Except Fault ℤ :=
  match c with
  | .retrieval => decodeRetrieval tool identity v
  | .source => decodeSource p identity v
  | .coordination => decodeCoordination p tool identity v

/-- The message for a text that is no base64 of JSON. -/
def Codec.unreadable : Codec → String
  | .retrieval => "invalid_continuation_cursor"
  | .source => "invalid_or_stale_continuation_cursor"
  | .coordination => "continuation cursor is invalid or stale"

/-- What stands in a cursor. -/
def decoded (cursor : String) : Except LoadFault Value :=
  match Base64.decode (Base64.padded cursor.toList) with
  | some bytes => p.loads bytes
  | none => .error .value

/-- `decode_cursor` of `retrieval` and of `coordination`, and `_decode_cursor` of
`source_context`. -/
def decodeCursor (c : Codec) (tool identity cursor : String) : Except Fault ℤ :=
  if cursor = "" then pure 0
  else
    match decoded p cursor with
    | .error .value => throw (.value c.unreadable)
    | .error .recursion => throw .recursion
    | .ok v => checkDecoded p c tool identity v

end Codecs

section RoundTrip

/-- The message for a cursor of another query. -/
def Codec.mismatch : Codec → String
  | .retrieval => "continuation_cursor_mismatch"
  | .source => "invalid_or_stale_continuation_cursor"
  | .coordination => "continuation cursor is invalid or stale"

variable {p : Platform} {c c' : Codec} {tool tool' identity identity' : String}

theorem payload_canonical (n : ℤ) : Canonical (payloadOf tool identity n) := by
  refine ⟨?_, by simp [CanonicalFields, Canonical]⟩
  simp only [List.pairwise_cons, List.mem_cons, List.not_mem_nil, or_false, forall_eq_or_imp,
    forall_eq, List.Pairwise.nil, and_true, IsEmpty.forall_iff, implies_true]
  decide

theorem document_canonical (n : ℤ) : Canonical (document p c tool identity n) := by
  cases c with
  | retrieval =>
    refine ⟨?_, by simp [CanonicalFields, Canonical]⟩
    simp only [List.pairwise_cons, List.mem_cons, List.not_mem_nil, or_false, forall_eq_or_imp,
      forall_eq, List.Pairwise.nil, and_true, IsEmpty.forall_iff, implies_true]
    decide
  | source =>
    refine ⟨?_, by simp [CanonicalFields, Canonical]⟩
    simp only [List.pairwise_cons, List.mem_cons, List.not_mem_nil, or_false, forall_eq_or_imp,
      forall_eq, List.Pairwise.nil, and_true, IsEmpty.forall_iff, implies_true]
    decide
  | coordination =>
    refine ⟨?_, trivial, payload_canonical n, trivial⟩
    simp only [List.pairwise_cons, List.mem_cons, List.not_mem_nil, or_false, forall_eq,
      List.Pairwise.nil, and_true, IsEmpty.forall_iff, implies_true]
    decide

theorem short_one : Short 1 := short_of_lt (n := 1) (by decide)

theorem payload_small {n : ℤ} {depth : ℕ} (hn : Short n) :
    Small (depth + 1) (payloadOf tool identity n) := by
  refine .obj fun e he => ?_
  simp only [List.mem_cons, List.not_mem_nil, or_false] at he
  rcases he with rfl | rfl | rfl | rfl
  exacts [.str _, .num hn, .str _, .num short_one]

theorem document_small {n : ℤ} (hn : Short n) : Small 8 (document p c tool identity n) := by
  cases c with
  | retrieval =>
    refine .obj fun e he => ?_
    simp only [List.mem_cons, List.not_mem_nil, or_false] at he
    rcases he with rfl | rfl | rfl | rfl
    exacts [.num hn, .str _, .str _, .num short_one]
  | source =>
    refine .obj fun e he => ?_
    simp only [List.mem_cons, List.not_mem_nil, or_false] at he
    rcases he with rfl | rfl | rfl
    exacts [.num hn, .str _, .num short_one]
  | coordination =>
    refine .obj fun e he => ?_
    simp only [List.mem_cons, List.not_mem_nil, or_false] at he
    rcases he with rfl | rfl
    exacts [.str _, payload_small hn]

theorem decoded_document (p : Platform) (v : Json) :
    decoded p (encodeDocument v) = p.loads ((render compact v).map Char.toNat) := by
  have hbytes : ∀ b ∈ (render compact v).map Char.toNat, b < 256 := by
    intro b hb
    obtain ⟨c, hc, rfl⟩ := List.mem_map.mp hb
    have hascii := render_ascii false v c hc
    omega
  rw [decoded, encodeDocument, String.toList_ofList, Base64.decode_encode _ hbytes]

theorem decoded_encodeDocument {v : Json} (hv : Canonical v) (hsmall : Small 8 v) :
    decoded p (encodeDocument v) = .ok (ofJson v) := by
  rw [decoded_document, p.loads_small v hv hsmall]

theorem encodeDocument_ne_empty (v : Json) : encodeDocument v ≠ "" := by
  intro h
  have hempty := congrArg String.toList h
  rw [encodeDocument, String.toList_ofList] at hempty
  obtain ⟨c, text, hrender, _⟩ := render_cons compact v
  have hnil := Base64.encode_eq_nil hempty
  rw [hrender] at hnil
  cases hnil

/-- A cursor is taken for the query that it was made for, and for no other. -/
theorem check_document {n : ℕ} (hn : Short n) :
    checkDecoded p c' tool' identity' (ofJson (document p c tool identity n)) =
      if c = c' ∧ (c = .source ∨ tool = tool') ∧ identity = identity' then .ok (n : ℤ)
      else .error (.value c'.mismatch) := by
  cases c' with
  | retrieval =>
    cases c with
    | retrieval =>
      have hnames : namesQuery tool' identity' (ofFields [("offset", .num n),
          ("operation", .str tool), ("query", .str identity), ("v", .num 1)]) =
            decide (tool = tool' ∧ identity = identity') := by
        simp [namesQuery, ofFields, ofJson, Value.same, Value.sameFields, Fields.get,
          Value.number?, List.lookup]
      have hoffset : integer? (Fields.get (ofFields [("offset", .num n),
          ("operation", .str tool), ("query", .str identity), ("v", .num 1)]) "offset") =
            some (n : ℤ) := rfl
      rw [checkDecoded, document, ofJson, decodeRetrieval, hnames, hoffset]
      by_cases h : tool = tool' ∧ identity = identity'
      · simp [h]
        rfl
      · simp [h]
        rfl
    | source =>
      have hnames : namesQuery tool' identity' (ofFields [("offset", .num n),
          ("source", .str identity), ("v", .num 1)]) = false := by
        simp [namesQuery, ofFields, ofJson, Value.same, Value.sameFields, Fields.get, List.lookup]
      rw [checkDecoded, document, ofJson, decodeRetrieval, hnames]
      rfl
    | coordination =>
      have hnames (d : String) (v : Json) :
          namesQuery tool' identity' (ofFields [("digest", .str d), ("payload", v)]) = false := by
        simp [namesQuery, ofFields, ofJson, Value.same, Value.sameFields, Fields.get, List.lookup]
      rw [checkDecoded, document, ofJson, decodeRetrieval, hnames]
      rfl
  | source =>
    cases c with
    | retrieval =>
      have hnames : namesSource identity' (ofFields [("offset", .num n),
          ("operation", .str tool), ("query", .str identity), ("v", .num 1)]) = false := by
        simp [namesSource, ofFields, ofJson, Value.isStr, Fields.get, List.lookup]
      rw [checkDecoded, document, ofJson, decodeSource, hnames]
      rfl
    | source =>
      have hnames : namesSource identity' (ofFields [("offset", .num n),
          ("source", .str identity), ("v", .num 1)]) = decide (identity = identity') := by
        simp [namesSource, ofFields, ofJson, Value.same, Value.isStr, Fields.get, Value.number?,
          List.lookup]
      have hoffset : List.lookup "offset" (ofFields [("offset", .num n),
          ("source", .str identity), ("v", .num 1)]) = some (.int n) := rfl
      rw [checkDecoded, document, ofJson, decodeSource, hnames, hoffset]
      by_cases h : identity = identity'
      · simp [h, intOf]
        rfl
      · simp [h]
        rfl
    | coordination =>
      have hnames (d : String) (v : Json) :
          namesSource identity' (ofFields [("digest", .str d), ("payload", v)]) = false := by
        simp [namesSource, ofFields, ofJson, Value.same, Value.isStr, Fields.get, Value.number?,
          List.lookup]
      rw [checkDecoded, document, ofJson, decodeSource, hnames]
      rfl
  | coordination =>
    cases c with
    | retrieval => rfl
    | source => rfl
    | coordination =>
      have hdumps : p.dumps (.obj (ofFields [("identity", .str identity), ("offset", .num n),
          ("tool", .str tool), ("v", .num 1)])) = .ok (render compact (payloadOf tool identity n)) :=
        p.dumps_small (payloadOf tool identity n) (payload_canonical n) (payload_small hn)
      have hoffset : validOffset? p tool' identity'
          (ofJson (document p .coordination tool identity n)) =
            .ok (if tool = tool' ∧ identity = identity' then some (n : ℤ) else none) := by
        simp [document, payloadOf, ofJson, ofFields, validOffset?, List.lookup, Fields.get,
          Value.isStr, Value.same, Value.number?, integer?] at hdumps ⊢
        rw [hdumps]
        simp [Option.filter, bind, Except.bind]
        split_ifs <;> rfl
      rw [checkDecoded, decodeCoordination, hoffset]
      by_cases h : tool = tool' ∧ identity = identity'
      · simp [h]
        rfl
      · simp [h]
        rfl

theorem decodeCursor_document {n : ℕ} (hn : Short n) :
    decodeCursor p c' tool' identity' (encodeCursor p c tool identity n) =
      if c = c' ∧ (c = .source ∨ tool = tool') ∧ identity = identity' then .ok (n : ℤ)
      else .error (.value c'.mismatch) := by
  rw [encodeCursor, decodeCursor, if_neg (encodeDocument_ne_empty _),
    decoded_encodeDocument (document_canonical _) (document_small hn)]
  exact check_document hn

end RoundTrip

section Strings

variable (p : Platform)

/-- The decoder raises its `ValueError`, or the text is the cursor of the offset that it returns. -/
def SoundAt (c : Codec) (tool identity cursor : String) : Prop :=
  (∃ message, decodeCursor p c tool identity cursor = .error (.value message)) ∨
    ∃ n : ℕ, decodeCursor p c tool identity cursor = .ok (n : ℤ) ∧
      cursor = encodeCursor p c tool identity n

/-- What the comparisons of a decoder take for a cursor of the query, with the version that is
compared with 1 and the offset. Two of the codecs do not look for further keys. -/
def Holds (c : Codec) (tool identity : String) (v version offset : Value) : Prop :=
  match c with
  | .retrieval => ∃ fields : Fields, v = .obj fields ∧
      (∀ key, (fields.lookup key).isSome ↔ key ∈ ["offset", "operation", "query", "v"]) ∧
      fields.lookup "v" = some version ∧ version.same (.int 1) = true ∧
      fields.lookup "operation" = some (.str tool) ∧
      fields.lookup "query" = some (.str identity) ∧ fields.lookup "offset" = some offset
  | .source => ∃ fields : Fields, v = .obj fields ∧
      fields.lookup "v" = some version ∧ version.same (.int 1) = true ∧
      fields.lookup "source" = some (.str identity) ∧ fields.lookup "offset" = some offset
  | .coordination => ∃ (envelope payload : Fields) (text : List Char), v = .obj envelope ∧
      envelope.lookup "payload" = some (.obj payload) ∧ p.dumps (.obj payload) = .ok text ∧
      envelope.lookup "digest" = some (.str (p.sha256 text)) ∧
      payload.lookup "v" = some version ∧ version.same (.int 1) = true ∧
      payload.lookup "tool" = some (.str tool) ∧
      payload.lookup "identity" = some (.str identity) ∧ payload.lookup "offset" = some offset

/-- The offset that a decoder makes of an offset field. -/
def Reads (c : Codec) (offset : Value) (n : ℤ) : Prop :=
  match c with
  | .source => ∃ m, intOf p Codec.source.unreadable offset = .ok m ∧ n = max 0 m
  | _ => integer? offset = some n ∧ 0 ≤ n

/-- An object has these keys only. -/
def OnlyKeys (keys : List String) (fields : Fields) : Prop :=
  ∀ key, (fields.lookup key).isSome = true → key ∈ keys

def Exact (c : Codec) (v : Value) : Prop :=
  match c with
  | .retrieval => True
  | .source => ∀ fields, v = .obj fields → OnlyKeys ["offset", "source", "v"] fields
  | .coordination => ∀ envelope, v = .obj envelope → OnlyKeys ["digest", "payload"] envelope ∧
      ∀ payload, envelope.lookup "payload" = some (.obj payload) →
        OnlyKeys ["identity", "offset", "tool", "v"] payload

/-- A cursor is spelled as the encoder does: in the canonical base64 of the canonical text of a
document, without further keys, with the integer 1 for its version and a natural number for its
offset. -/
structure Spelled (c : Codec) (cursor : String) (v version offset : Value) : Prop where
  text : ∃ j, Canonical j ∧ cursor = encodeDocument j
  keys : Exact c v
  version : version = .int 1
  offset : ∃ n : ℕ, offset = .int n

/-- What a text may hold: two of the codecs ask for an object, and the second one, where the object
names its query, for an offset that is not infinite; the third one asks for a payload that can be
written again; and a cursor of the query, with an offset that is read, has to be spelled. -/
structure Regular (c : Codec) (tool identity cursor : String) (v : Value) : Prop where
  object : c ≠ .coordination → ∃ fields, v = .obj fields
  bounded : c = .source → ∀ fields : Fields, v = .obj fields →
    (Fields.get fields "v").same (.int 1) = true →
    fields.lookup "source" = some (.str identity) →
      ∃ offset, fields.lookup "offset" = some offset ∧ ∀ b, offset ≠ .float (.infinite b)
  written : c = .coordination → ∀ (envelope : Fields) payload, v = .obj envelope →
    envelope.lookup "payload" = some payload → p.dumps payload ≠ .error .recursion
  spelled : ∀ version offset, Holds p c tool identity v version offset →
    (∃ n, Reads p c offset n) → Spelled c cursor v version offset

variable {p} {c : Codec} {tool identity cursor : String} {v version offset : Value}

theorem isStr_get_iff {fields : Fields} {key s : String} :
    (Fields.get fields key).isStr s = true ↔ fields.lookup key = some (.str s) :=
  Value.isStr_iff.trans Fields.get_eq_str

/-- An object whose version compares with 1 has one. -/
theorem version_iff {fields : Fields} : (Fields.get fields "v").same (.int 1) = true ↔
    ∃ version, fields.lookup "v" = some version ∧ version.same (.int 1) = true := by
  rw [Fields.get]
  cases fields.lookup "v" with
  | none => exact iff_of_false (by decide) fun ⟨_, h, _⟩ => nomatch h
  | some version => exact ⟨fun h => ⟨version, rfl, h⟩, fun ⟨_, h, hsame⟩ => by cases h; exact hsame⟩

theorem namesQuery_iff {fields : Fields} {n : ℤ}
    (hn : integer? (Fields.get fields "offset") = some n) :
    namesQuery tool identity fields = true ↔ ∃ version offset,
      Holds p .retrieval tool identity (.obj fields) version offset ∧
        offset = Fields.get fields "offset" := by
  have hoffset : Value.same (Fields.get fields "offset") (Fields.get fields "offset") = true := by
    cases hget : Fields.get fields "offset" with
    | int m => simp [Value.same, Value.number?]
    | bool b => simp [Value.same, Value.number?]
    | _ =>
      rw [hget] at hn
      cases hn
  obtain ⟨field, hfield, hget⟩ : ∃ field, fields.lookup "offset" = some field ∧
      Fields.get fields "offset" = field := by
    rw [Fields.get] at hn ⊢
    cases hlookup : fields.lookup "offset" with
    | none =>
      rw [hlookup] at hn
      cases hn
    | some field => exact ⟨field, rfl, rfl⟩
  rw [namesQuery, Value.same, Bool.and_eq_true, Fields.sameFields_iff, List.all_eq_true]
  constructor
  · rintro ⟨hsame, hall⟩
    simp only [List.forall_mem_cons, List.not_mem_nil, false_imp_iff, implies_true, and_true] at hall
    obtain ⟨hv, hoperation, hquery, -⟩ := hall
    obtain ⟨version, hversion⟩ := Option.isSome_iff_exists.mp hv
    obtain ⟨operation, hoperation⟩ := Option.isSome_iff_exists.mp hoperation
    obtain ⟨query, hquery⟩ := Option.isSome_iff_exists.mp hquery
    obtain ⟨_, ⟨⟩, hone⟩ := hsame _ _ List.not_mem_nil hversion
    obtain ⟨_, ⟨⟩, htool⟩ := hsame _ _ List.not_mem_nil hoperation
    obtain ⟨_, ⟨⟩, hidentity⟩ := hsame _ _ List.not_mem_nil hquery
    rw [Value.same_str] at htool hidentity
    subst htool hidentity
    refine ⟨version, field, ⟨fields, rfl, fun key => ⟨fun hkey => ?_, fun hkey => ?_⟩, hversion, hone,
      hoperation, hquery, hfield⟩, hget.symm⟩
    · obtain ⟨w, hw⟩ := Option.isSome_iff_exists.mp hkey
      obtain ⟨u, hu, -⟩ := hsame key w List.not_mem_nil hw
      have hmem := List.mem_map_of_mem (f := Prod.fst) (Fields.mem_of_lookup hu)
      simp only [List.map_cons, List.map_nil, List.mem_cons, List.not_mem_nil, or_false] at hmem ⊢
      tauto
    · simp only [List.mem_cons, List.not_mem_nil, or_false] at hkey
      rcases hkey with rfl | rfl | rfl | rfl
      · rw [hfield]; rfl
      · rw [hoperation]; rfl
      · rw [hquery]; rfl
      · rw [hversion]; rfl
  · rintro ⟨version, _, ⟨_, ⟨⟩, hkeys, hversion, hone, hoperation, hquery, _⟩, -⟩
    refine ⟨fun key w _ hw => ?_, ?_⟩
    · have hkey := (hkeys key).mp (by rw [hw]; rfl)
      simp only [List.mem_cons, List.not_mem_nil, or_false] at hkey
      rcases hkey with rfl | rfl | rfl | rfl
      · rw [hfield] at hw
        cases hw
        exact ⟨_, rfl, hget ▸ hoffset⟩
      · rw [hoperation] at hw
        cases hw
        exact ⟨_, rfl, Value.same_str.mpr rfl⟩
      · rw [hquery] at hw
        cases hw
        exact ⟨_, rfl, Value.same_str.mpr rfl⟩
      · rw [hversion] at hw
        cases hw
        exact ⟨_, rfl, hone⟩
    · simp only [List.forall_mem_cons, List.not_mem_nil, false_imp_iff, implies_true, and_true]
      exact ⟨by rw [hversion]; rfl, by rw [hoperation]; rfl, by rw [hquery]; rfl,
        by rw [hfield]; rfl⟩

theorem map_max_ok {x : Except Fault ℤ} {n : ℤ} :
    (max 0 ·) <$> x = .ok n ↔ ∃ m, x = .ok m ∧ n = max 0 m := by
  cases x with
  | error fault => exact iff_of_false nofun fun ⟨_, h, _⟩ => nomatch h
  | ok m => exact ⟨fun h => ⟨m, rfl, (Except.ok.inj h).symm⟩, fun ⟨_, h, hn⟩ => by cases h; rw [hn]; rfl⟩

theorem validOffset?_iff {n : ℤ} : validOffset? p tool identity v = .ok (some n) ↔
    ∃ version offset, Holds p .coordination tool identity v version offset ∧
      integer? offset = some n ∧ 0 ≤ n := by
  cases v with
  | obj envelope =>
    rw [validOffset?]
    constructor
    · intro h
      split at h
      · cases h
      rename_i payload hpayload
      cases hdumps : p.dumps payload with
      | error fault =>
        rw [hdumps] at h
        cases h
      | ok text =>
        rw [hdumps] at h
        change (match envelope.lookup "digest", payload with
          | some digest, .obj payload => _
          | _, _ => pure none) = Except.ok (some n) at h
        split at h
        · rename_i digest payload hdigest
          split_ifs at h with hnames
          · obtain ⟨hhash, hversion, htool, hidentity⟩ := hnames
            obtain ⟨version, hversion, hone⟩ := version_iff.mp hversion
            obtain ⟨hint, hnonneg⟩ := Option.filter_eq_some_iff.mp (Except.ok.inj h)
            rw [isStr_get_iff] at htool hidentity
            rw [Value.isStr_iff] at hhash
            cases hoffset : payload.lookup "offset" with
            | none =>
              rw [Fields.get, hoffset] at hint
              cases hint
            | some offset =>
              rw [Fields.get, hoffset] at hint
              exact ⟨version, offset, ⟨envelope, payload, text, rfl, hpayload, hdumps, hhash ▸ hdigest,
                hversion, hone, htool, hidentity, hoffset⟩, hint, of_decide_eq_true hnonneg⟩
          · cases h
        · cases h
    · rintro ⟨version, offset, ⟨_, payload, text, ⟨⟩, hpayload, hdumps, hdigest, hversion, hone,
        htool, hidentity, hoffset⟩, hint, hnonneg⟩
      have hget : Fields.get payload "offset" = offset := by
        rw [Fields.get, hoffset]
        rfl
      rw [hpayload]
      dsimp only
      rw [hdumps]
      change (match envelope.lookup "digest", Value.obj payload with
        | some digest, .obj payload => _
        | _, _ => pure none) = Except.ok (some n)
      rw [hdigest]
      refine (if_pos ⟨Value.isStr_iff.mpr rfl, version_iff.mpr ⟨version, hversion, hone⟩,
        isStr_get_iff.mpr htool, isStr_get_iff.mpr hidentity⟩).trans ?_
      rw [hget, hint]
      exact congrArg Except.ok (Option.filter_some_pos (decide_eq_true hnonneg))
  | _ => exact iff_of_false nofun fun ⟨_, _, ⟨_, _, _, h, _⟩, _⟩ => nomatch h

theorem namesSource_iff {fields : Fields} : namesSource identity fields = true ↔
    (∃ version, fields.lookup "v" = some version ∧ version.same (.int 1) = true) ∧
      fields.lookup "source" = some (.str identity) := by
  rw [namesSource, Bool.and_eq_true, version_iff, isStr_get_iff]

/-- A decoder returns an offset for what holds a cursor of the query and an offset that is read. -/
theorem checkDecoded_ok_iff {n : ℤ} : checkDecoded p c tool identity v = .ok n ↔
    ∃ version offset, Holds p c tool identity v version offset ∧ Reads p c offset n := by
  cases c with
  | retrieval =>
    cases v with
    | obj fields =>
      rw [checkDecoded, decodeRetrieval]
      constructor
      · intro h
        split_ifs at h with hnames
        split at h
        · rename_i m hm
          split_ifs at h with hnegative
          cases h
          obtain ⟨version, offset, hholds, rfl⟩ :=
            (namesQuery_iff hm).mp (Bool.not_eq_false _ ▸ hnames)
          exact ⟨version, _, hholds, hm, not_lt.mp hnegative⟩
        · cases h
      · rintro ⟨version, offset, hholds, hn, hnonneg⟩
        obtain ⟨fields', ⟨⟩, -, -, -, -, -, hoffset⟩ := id hholds
        have hget : Fields.get fields "offset" = offset := by rw [Fields.get, hoffset]; rfl
        have hnames := (namesQuery_iff (hget ▸ hn)).mpr ⟨version, offset, hholds, hget.symm⟩
        rw [if_neg (by rw [hnames]; decide), hget, hn]
        exact if_neg (not_lt.mpr hnonneg)
    | _ => exact iff_of_false nofun fun ⟨_, _, ⟨_, h, _⟩, _⟩ => nomatch h
  | source =>
    cases v with
    | obj fields =>
      rw [checkDecoded, decodeSource]
      constructor
      · intro h
        split_ifs at h with hfalse
        obtain ⟨⟨version, hversion, hone⟩, hsource⟩ :=
          namesSource_iff.mp (Bool.not_eq_false _ ▸ hfalse)
        split at h
        · cases h
        · rename_i offset hoffset
          exact ⟨version, offset, ⟨fields, rfl, hversion, hone, hsource, hoffset⟩, map_max_ok.mp h⟩
      · rintro ⟨version, offset, ⟨_, ⟨⟩, hversion, hone, hsource, hoffset⟩, hread⟩
        have htrue := namesSource_iff.mpr ⟨⟨version, hversion, hone⟩, hsource⟩
        rw [if_neg (by rw [htrue]; decide), hoffset]
        exact map_max_ok.mpr hread
    | _ => exact iff_of_false nofun fun ⟨_, _, ⟨_, h, _⟩, _⟩ => nomatch h
  | coordination =>
    refine Iff.trans ?_ validOffset?_iff
    rw [checkDecoded, decodeCoordination]
    constructor
    · intro h
      split at h
      · rename_i hvalid
        cases h
        exact hvalid
      · cases h
      · cases h
    · intro h
      rw [h]
      rfl

/-- The canonical fields of a decoded object are those that it has entries for. -/
theorem fields_eq {fields entries : Dict} (hfields : fields.Pairwise (fun a b => a.1 < b.1))
    (hentries : entries.Pairwise (fun a b => a.1 < b.1))
    (hkeys : OnlyKeys (entries.map Prod.fst) (ofFields fields))
    (hlookup : ∀ e ∈ entries, (ofFields fields).lookup e.1 = some (ofJson e.2)) :
    fields = entries := by
  have hget {key : String} {w : Json} (h : (ofFields fields).lookup key = some (ofJson w)) :
      Dict.get fields key = some w := by
    rw [lookup_ofFields] at h
    obtain ⟨u, hu, heq⟩ := Option.map_eq_some_iff.mp h
    exact ofJson_injective heq ▸ hu
  have hnodup : (fields.map Prod.fst).Nodup :=
    List.pairwise_map.mpr (hfields.imp fun hlt => hlt.ne)
  refine List.Pairwise.eq_of_mem_iff hfields hentries fun e => ⟨fun he => ?_, fun he => ?_⟩
  · have hsome : Dict.get fields e.1 = some e.2 := JsonPlaces.get_of_mem hnodup he
    obtain ⟨found, hfound, hkey⟩ := List.mem_map.mp (hkeys e.1 (by
      rw [lookup_ofFields, show fields.lookup e.1 = some e.2 from hsome]
      rfl))
    have hsame := hget (hlookup found hfound)
    rw [hkey, hsome] at hsame
    exact (Prod.ext hkey (Option.some.inj hsame).symm : found = e) ▸ hfound
  · exact JsonPlaces.mem_of_get (hget (hlookup e he))

theorem obj_of_ofJson {v : Json} {fields : Fields} (h : ofJson v = .obj fields) :
    ∃ d, v = .obj d ∧ fields = ofFields d := by
  cases v with
  | obj d => exact ⟨d, rfl, (Value.obj.inj h).symm⟩
  | _ => cases h

/-- A cursor that is spelled is the one that the encoder makes. -/
theorem Spelled.cursor_eq (h : Spelled c cursor v version offset)
    (hholds : Holds p c tool identity v version offset) (hv : decoded p cursor = .ok v) :
    ∃ n : ℕ, offset = .int n ∧ cursor = encodeCursor p c tool identity n := by
  obtain ⟨⟨j, hj, rfl⟩, hkeys, rfl, n, rfl⟩ := h
  rw [decoded_document] at hv
  obtain rfl := p.loads_canonical j v hj hv
  have hsorted : Canonical (document p c tool identity n) := document_canonical n
  suffices hdocument : j = document p c tool identity n from ⟨n, rfl, hdocument ▸ rfl⟩
  cases c with
  | retrieval =>
    obtain ⟨_, hobj, honly, hversion, -, hoperation, hquery, hoffset⟩ := hholds
    obtain ⟨fields, rfl, rfl⟩ := obj_of_ofJson hobj
    refine congrArg Json.obj (fields_eq hj.1 hsorted.1 (fun key hkey => (honly key).mp hkey) ?_)
    simp only [List.forall_mem_cons, List.not_mem_nil, false_imp_iff, implies_true, and_true]
    exact ⟨hoffset, hoperation, hquery, hversion⟩
  | source =>
    obtain ⟨_, hobj, hversion, -, hsource, hoffset⟩ := hholds
    obtain ⟨fields, rfl, rfl⟩ := obj_of_ofJson hobj
    refine congrArg Json.obj (fields_eq hj.1 hsorted.1 (hkeys _ rfl) ?_)
    simp only [List.forall_mem_cons, List.not_mem_nil, false_imp_iff, implies_true, and_true]
    exact ⟨hoffset, hsource, hversion⟩
  | coordination =>
    obtain ⟨_, _, text, hobj, hpayload, hdumps, hdigest, hversion, -, htool, hidentity, hoffset⟩ :=
      hholds
    obtain ⟨fields, rfl, rfl⟩ := obj_of_ofJson hobj
    obtain ⟨honly, hinner⟩ := hkeys _ rfl
    have hfound := hpayload
    rw [lookup_ofFields] at hfound
    obtain ⟨w, hw, hwobj⟩ := Option.map_eq_some_iff.mp hfound
    obtain ⟨payload, rfl, rfl⟩ := obj_of_ofJson hwobj
    have hcanonical : Canonical (.obj payload) :=
      canonicalFields_iff.mp hj.2 _ (JsonPlaces.mem_of_get hw)
    have hpayload_eq : Json.obj payload = payloadOf tool identity n := by
      refine congrArg Json.obj
        (fields_eq hcanonical.1 (payload_canonical n).1 (hinner _ hpayload) ?_)
      simp only [List.forall_mem_cons, List.not_mem_nil, false_imp_iff, implies_true, and_true]
      exact ⟨hidentity, hoffset, htool, hversion⟩
    rw [p.dumps_canonical _ _ hcanonical hdumps, hpayload_eq] at hdigest
    refine congrArg Json.obj (fields_eq hj.1 hsorted.1 honly ?_)
    simp only [List.forall_mem_cons, List.not_mem_nil, false_imp_iff, implies_true, and_true]
    exact ⟨hdigest, hpayload_eq ▸ hpayload⟩

theorem decodeCursor_decoded (hne : cursor ≠ "") (hv : decoded p cursor = .ok v) :
    decodeCursor p c tool identity cursor = checkDecoded p c tool identity v := by
  rw [decodeCursor, if_neg hne, hv]

theorem intOf_error {message : String} {fault : Fault}
    (h : intOf p message offset = .error fault) :
    fault = .value message ∨ ∃ b, offset = .float (.infinite b) := by
  cases offset with
  | int n => cases h
  | bool b => cases h
  | float d =>
    cases d with
    | finite q => cases h
    | infinite negative => exact .inr ⟨negative, rfl⟩
    | nan =>
      cases h
      exact .inl rfl
  | str s =>
    unfold intOf at h
    dsimp only at h
    split at h
    · cases h
    · cases h
      exact .inl rfl
  | _ =>
    cases h
    exact .inl rfl

theorem validOffset?_error {fault : LoadFault} : validOffset? p tool identity v = .error fault ↔
    ∃ envelope payload, v = .obj envelope ∧ envelope.lookup "payload" = some payload ∧
      p.dumps payload = .error fault := by
  cases v with
  | obj envelope =>
    rw [validOffset?]
    cases hpayload : envelope.lookup "payload" with
    | none =>
      refine iff_of_false nofun ?_
      rintro ⟨_, _, ⟨⟩, h, _⟩
      rw [hpayload] at h
      cases h
    | some payload =>
      dsimp only
      constructor
      · intro h
        refine ⟨envelope, payload, rfl, hpayload, ?_⟩
        cases hdumps : p.dumps payload with
        | error found =>
          rw [hdumps] at h
          cases h
          rfl
        | ok text =>
          rw [hdumps] at h
          change (match envelope.lookup "digest", payload with
            | some digest, .obj payload => _
            | _, _ => pure none) = Except.error fault at h
          split at h
          · split_ifs at h <;> cases h
          · cases h
      · rintro ⟨_, _, ⟨⟩, h, hdumps⟩
        rw [hpayload] at h
        cases h
        rw [hdumps]
        rfl
  | _ => exact iff_of_false nofun fun ⟨_, _, h, _⟩ => nomatch h

/-- What is raised for a regular text is the `ValueError`. -/
theorem Regular.fault (h : Regular p c tool identity cursor v) {fault : Fault}
    (hcheck : checkDecoded p c tool identity v = .error fault) :
    ∃ message, fault = .value message := by
  cases c with
  | retrieval =>
    obtain ⟨fields, rfl⟩ := h.object nofun
    rw [checkDecoded, decodeRetrieval] at hcheck
    split_ifs at hcheck
    · cases hcheck
      exact ⟨_, rfl⟩
    · split at hcheck
      · split_ifs at hcheck <;> cases hcheck
        exact ⟨_, rfl⟩
      · cases hcheck
        exact ⟨_, rfl⟩
  | source =>
    obtain ⟨fields, rfl⟩ := h.object nofun
    rw [checkDecoded, decodeSource] at hcheck
    split_ifs at hcheck with hnames
    · cases hcheck
      exact ⟨_, rfl⟩
    · obtain ⟨hversion, hsource⟩ := namesSource_iff.mp (Bool.not_eq_false _ ▸ hnames)
      obtain ⟨offset, hoffset, hbounded⟩ := h.bounded rfl fields rfl (version_iff.mpr hversion) hsource
      rw [hoffset] at hcheck
      cases hint : intOf p "invalid_or_stale_continuation_cursor" offset with
      | error found =>
        rcases intOf_error hint with rfl | ⟨b, hinfinite⟩
        · dsimp only at hcheck
          rw [hint] at hcheck
          cases hcheck
          exact ⟨_, rfl⟩
        · exact absurd hinfinite (hbounded b)
      | ok n =>
        dsimp only at hcheck
        rw [hint] at hcheck
        cases hcheck
  | coordination =>
    rw [checkDecoded, decodeCoordination] at hcheck
    split at hcheck
    · cases hcheck
    · rename_i hrecursion
      obtain ⟨envelope, payload, rfl, hpayload, hdumps⟩ := validOffset?_error.mp hrecursion
      exact absurd hdumps (h.written rfl envelope payload rfl hpayload)
    · cases hcheck
      exact ⟨_, rfl⟩

/-- A decoder that raises its `ValueError` has read a text that says nothing irregular. -/
theorem regular_of_error {message : String}
    (h : checkDecoded p c tool identity v = .error (.value message)) :
    Regular p c tool identity cursor v where
  object hc := by
    cases c with
    | coordination => exact absurd rfl hc
    | _ => cases v <;> first | exact ⟨_, rfl⟩ | cases h
  bounded := by
    rintro rfl fields rfl hversion hsource
    rw [checkDecoded, decodeSource, if_neg (by
      rw [namesSource_iff.mpr ⟨version_iff.mp hversion, hsource⟩]
      decide)] at h
    cases hoffset : fields.lookup "offset" with
    | none =>
      rw [hoffset] at h
      cases h
    | some offset =>
      refine ⟨offset, rfl, ?_⟩
      rintro b rfl
      rw [hoffset] at h
      cases h
  written := by
    rintro rfl envelope payload rfl hpayload hdumps
    rw [checkDecoded, decodeCoordination,
      validOffset?_error.mpr ⟨envelope, payload, rfl, hpayload, hdumps⟩] at h
    cases h
  spelled := by
    rintro version offset hholds ⟨n, hread⟩
    rw [checkDecoded_ok_iff.mpr ⟨version, offset, hholds, hread⟩] at h
    cases h

theorem onlyKeys_ofFields (d : Dict) : OnlyKeys (d.map Prod.fst) (ofFields d) := by
  intro key hkey
  rw [lookup_ofFields, Option.isSome_map] at hkey
  obtain ⟨w, hw⟩ := Option.isSome_iff_exists.mp hkey
  exact List.mem_map_of_mem (f := Prod.fst) (JsonPlaces.mem_of_get hw)

/-- The document of a cursor is regular where it is decoded at all. -/
theorem regular_document {n : ℕ} {m : ℤ}
    (h : checkDecoded p c tool identity (ofJson (document p c tool identity n)) = .ok m) :
    Regular p c tool identity (encodeCursor p c tool identity n)
      (ofJson (document p c tool identity n)) := by
  have htext : ∃ j, Canonical j ∧ encodeCursor p c tool identity n = encodeDocument j :=
    ⟨document p c tool identity n, document_canonical _, rfl⟩
  cases c with
  | retrieval =>
    refine ⟨fun _ => ⟨_, rfl⟩, nofun, nofun, ?_⟩
    rintro version offset ⟨_, ⟨⟩, _, ⟨⟩, _, _, _, ⟨⟩⟩ _
    exact ⟨htext, trivial, rfl, n, rfl⟩
  | source =>
    refine ⟨fun _ => ⟨_, rfl⟩, ?_, nofun, ?_⟩
    · rintro _ _ ⟨⟩ _ _
      exact ⟨.int n, rfl, nofun⟩
    · rintro version offset ⟨_, ⟨⟩, ⟨⟩, _, _, ⟨⟩⟩ _
      refine ⟨htext, ?_, rfl, n, rfl⟩
      rintro _ ⟨⟩
      exact onlyKeys_ofFields _
  | coordination =>
    obtain ⟨_, _, ⟨_, _, text, ⟨⟩, ⟨⟩, hdumps, _⟩, _⟩ := checkDecoded_ok_iff.mp h
    refine ⟨fun hc => absurd rfl hc, nofun, ?_, ?_⟩
    · rintro _ _ _ ⟨⟩ ⟨⟩ hfault
      exact absurd (hdumps.symm.trans hfault) nofun
    · rintro version offset ⟨_, _, _, ⟨⟩, ⟨⟩, _, _, ⟨⟩, _, _, _, ⟨⟩⟩ _
      refine ⟨htext, ?_, rfl, n, rfl⟩
      rintro _ ⟨⟩
      refine ⟨onlyKeys_ofFields _, ?_⟩
      rintro _ ⟨⟩
      exact onlyKeys_ofFields _

theorem soundAt_iff : SoundAt p c tool identity cursor ↔
    cursor ≠ "" ∧ decoded p cursor ≠ .error .recursion ∧
      ∀ v, decoded p cursor = .ok v → Regular p c tool identity cursor v := by
  constructor
  · intro h
    have hne : cursor ≠ "" := by
      rintro rfl
      rcases h with ⟨message, herror⟩ | ⟨n, _, hcursor⟩
      · cases herror
      · exact encodeDocument_ne_empty _ hcursor.symm
    refine ⟨hne, fun hrecursion => ?_, fun v hv => ?_⟩
    · rw [SoundAt, decodeCursor, if_neg hne, hrecursion] at h
      rcases h with ⟨_, ⟨⟩⟩ | ⟨_, ⟨⟩, _⟩
    · rw [SoundAt, decodeCursor_decoded hne hv] at h
      rcases h with ⟨message, herror⟩ | ⟨n, hok, rfl⟩
      · exact regular_of_error herror
      · rw [encodeCursor, decoded_document] at hv
        obtain rfl := p.loads_canonical _ v (document_canonical _) hv
        exact regular_document hok
  · rintro ⟨hne, hrecursion, hregular⟩
    cases hv : decoded p cursor with
    | error fault =>
      cases fault with
      | value =>
        refine .inl ⟨c.unreadable, ?_⟩
        rw [decodeCursor, if_neg hne, hv]
        rfl
      | recursion => exact absurd hv hrecursion
    | ok v =>
      rw [SoundAt, decodeCursor_decoded hne hv]
      cases hcheck : checkDecoded p c tool identity v with
      | error fault =>
        obtain ⟨message, rfl⟩ := (hregular v hv).fault hcheck
        exact .inl ⟨message, rfl⟩
      | ok m =>
        obtain ⟨version, offset, hholds, hread⟩ := checkDecoded_ok_iff.mp hcheck
        obtain ⟨n, rfl, hcursor⟩ :=
          ((hregular v hv).spelled version offset hholds ⟨m, hread⟩).cursor_eq hholds hv
        have hm : m = n := by
          cases c with
          | source =>
            obtain ⟨_, ⟨⟩, rfl⟩ := hread
            exact max_eq_right (Int.natCast_nonneg n)
          | _ => exact (Option.some.inj hread.1).symm
        exact .inr ⟨n, by rw [hm], hcursor⟩

end Strings

section Queries

inductive Detail
  | compact
  | standard
  | expanded
  deriving DecidableEq

structure HistoryRequest where
  project : String
  subject : String
  fromRevision : Option ℕ := none
  fromTime : Option String := none
  fromTask : Option String := none
  fromCheckpoint : Option String := none
  fromInterface : Option String := none
  fromCommit : Option String := none
  toRevision : Option ℕ := none
  toCommit : Option String := none
  detail : Detail := .standard
  maxEvents : ℕ := 100

structure ArchitectureRequest where
  project : String
  question : String
  repository : Option String := none
  worktreeId : Option String := none
  detail : Detail := .standard
  scope : String := "current_and_reference"
  inclusionCategories : List String := []
  maxItems : ℕ := 60

structure SourceTarget where
  kind : String
  value : String
  lineStart : Option ℕ := none
  lineEnd : Option ℕ := none

structure SourceRequest where
  project : String
  repository : String
  worktreeId : Option String := none
  targets : List SourceTarget
  sourceSelector : String := "working_tree"
  intent : String := "implementation"
  requestedRelations : List String := []
  detail : Detail := .standard
  budgetBytes : ℕ := 49152

structure CoordinationRequest where
  project : String
  runId : Option String := none
  laneId : Option String := none
  taskId : Option String := none
  sinceRevision : Option ℕ := none
  detail : Detail := .standard
  includeResolvedMessages : Bool := false
  includeHistoricalArrivals : Bool := false
  maxItems : ℕ := 100

/-- A request to a read tool that pages, with the revision that is observed: that of the snapshot
or of the workflow view with its fingerprint, or the identity of the source. -/
inductive Query
  | history (request : HistoryRequest) (revision : Value)
  | architecture (request : ArchitectureRequest) (revision : Value)
  | source (request : SourceRequest) (identity : String)
  | coordination (request : CoordinationRequest) (workspaceId : String)
      (revision fingerprint : Value)

def Query.codec : Query → Codec
  | .history _ _ => .retrieval
  | .architecture _ _ => .retrieval
  | .source _ _ => .source
  | .coordination _ _ _ _ => .coordination

def Query.tool : Query → String
  | .history _ _ => "history_trace"
  | .architecture _ _ => "architecture_context"
  | .source _ _ => "source_context"
  | .coordination _ _ _ _ => "coordination_view"

/-- The revision that a query observes. -/
def Query.observed : Query → Value
  | .history _ revision => revision
  | .architecture _ revision => revision
  | .source _ identity => .str identity
  | .coordination _ _ revision _ => revision

def natural? : Option ℕ → Json
  | none => .null
  | some n => .num n

/-- `model_dump` without `continuation_cursor`, `max_events` and `detail`. -/
def HistoryRequest.query (r : HistoryRequest) : Json :=
  .obj [("from_checkpoint", .ofText? r.fromCheckpoint), ("from_commit", .ofText? r.fromCommit),
    ("from_interface", .ofText? r.fromInterface), ("from_revision", natural? r.fromRevision),
    ("from_task", .ofText? r.fromTask), ("from_time", .ofText? r.fromTime),
    ("project", .str r.project), ("subject", .str r.subject), ("to_commit", .ofText? r.toCommit),
    ("to_revision", natural? r.toRevision)]

def ArchitectureRequest.query (r : ArchitectureRequest) : Json :=
  .obj [("inclusion_categories", .arr (r.inclusionCategories.map .str)),
    ("question", .str r.question), ("repository", .ofText? r.repository), ("scope", .str r.scope),
    ("worktree_id", .ofText? r.worktreeId)]

def SourceTarget.dump (target : SourceTarget) : Json :=
  .obj [("kind", .str target.kind), ("line_end", natural? target.lineEnd),
    ("line_start", natural? target.lineStart), ("value", .str target.value)]

def SourceRequest.query (r : SourceRequest) (identity : String) : Json :=
  .obj [("relations", .arr (r.requestedRelations.map .str)), ("source", .str identity),
    ("targets", .arr (r.targets.map SourceTarget.dump))]

/-- The values that `coordination_view` gives to `observation_identity`. -/
def CoordinationRequest.observation (r : CoordinationRequest) (workspaceId : String)
    (revision fingerprint : Value) : List Value :=
  let text (s : Option String) : Value := (s.map Value.str).getD .null
  [.str workspaceId, revision, fingerprint, text r.runId, text r.laneId, text r.taskId,
    (r.sinceRevision.map (fun n => Value.int n)).getD .null, .bool r.includeResolvedMessages,
    .bool r.includeHistoricalArrivals]

/-- The text whose digest is the identity of a query; `str` is `str` of Python. -/
def Query.keyText (str : Value → String) : Query → List Char
  | .history r _ => render compact r.query
  | .architecture r _ => render compact r.query
  | .source r identity => render ⟨true, true⟩ (r.query identity)
  | .coordination r workspaceId revision fingerprint =>
    (String.intercalate "\x00"
      ((r.observation workspaceId revision fingerprint).map str)).toList

variable (p : Platform) (str : Value → String)

def Query.identity (q : Query) : String := p.sha256 (q.keyText str)

/-- The two queries are told apart by their tools or by the texts of their keys. -/
def Distinct (q q' : Query) : Prop :=
  q.tool ≠ q'.tool ∨ q.keyText str ≠ q'.keyText str

/-- A cursor of the first query is refused as invalid or stale by the second one. -/
def Rejects (q q' : Query) : Prop :=
  ∀ n : ℕ, Short n → ∃ message, decodeCursor p q'.codec q'.tool (q'.identity p str)
    (encodeCursor p q.codec q.tool (q.identity p str) n) = .error (.value message)

theorem Query.codec_of_tool {q q' : Query} (h : q.tool = q'.tool) : q.codec = q'.codec := by
  cases q <;> cases q' <;> first | rfl | simp [Query.tool] at h

theorem Query.tool_of_source {q : Query} (h : q.codec = .source) : q.tool = "source_context" := by
  cases q <;> first | rfl | cases h

variable {p str}

theorem rejects_iff {q q' : Query} : Rejects p str q q' ↔ Distinct str q q' := by
  have hsame : (q.codec = q'.codec ∧ (q.codec = .source ∨ q.tool = q'.tool) ∧
      q.identity p str = q'.identity p str) ↔ ¬ Distinct str q q' := by
    unfold Distinct
    rw [not_or, not_ne_iff, not_ne_iff]
    constructor
    · rintro ⟨hcodec, htool, hidentity⟩
      refine ⟨?_, p.sha256_injective hidentity⟩
      rcases htool with hsource | htool
      · exact (Query.tool_of_source hsource).trans
          (Query.tool_of_source (hcodec.symm.trans hsource)).symm
      · exact htool
    · rintro ⟨htool, htext⟩
      exact ⟨Query.codec_of_tool htool, .inr htool, congrArg p.sha256 htext⟩
  constructor
  · intro h
    have hzero : Short (0 : ℕ) := short_of_lt (by decide)
    obtain ⟨message, herror⟩ := h 0 hzero
    by_contra hdistinct
    rw [decodeCursor_document hzero, if_pos (hsame.mpr hdistinct)] at herror
    cases herror
  · intro h n hn
    refine ⟨q'.codec.mismatch, ?_⟩
    rw [decodeCursor_document hn, if_neg (fun heq => hsame.mp heq h)]

/-- The three codecs: a cursor of an offset that can be written is decoded to it; the decoding of a
text is sound exactly if the text is not empty and not nested too deeply, and holds nothing
irregular; and the cursor of a query whose pages or whose observed revision differ is refused exactly
if the keys of the two queries are told apart. Here `sequence` is what is paged for a query and a
snapshot. -/
theorem cursors_sound_iff (p : Platform) (str : Value → String) {S P : Type}
    (sequence : Query → S → P) :
    (∀ c tool identity, ∀ n : ℕ, Short n →
      decodeCursor p c tool identity (encodeCursor p c tool identity n) = .ok (n : ℤ)) ∧
    (∀ c tool identity cursor, SoundAt p c tool identity cursor ↔
      cursor ≠ "" ∧ decoded p cursor ≠ .error .recursion ∧
        ∀ v, decoded p cursor = .ok v → Regular p c tool identity cursor v) ∧
    (∀ q s q' s', (sequence q s ≠ sequence q' s' ∨ q.observed ≠ q'.observed → Rejects p str q q') ↔
      (sequence q s ≠ sequence q' s' ∨ q.observed ≠ q'.observed → Distinct str q q')) := by
  refine ⟨fun c tool identity n hn => ?_, fun c tool identity cursor => soundAt_iff, ?_⟩
  · rw [decodeCursor_document hn, if_pos ⟨rfl, .inr rfl, rfl⟩]
  · intro q s q' s'
    exact imp_congr_right (fun _ => rejects_iff)

end Queries

section Example

mutual

/-- A decoded value as a document, floats left out. -/
def toJson : Value → Json
  | .null => .null
  | .bool b => .bool b
  | .int n => .num n
  | .float _ => .null
  | .str s => .str s
  | .arr items => .arr (toItems items)
  | .obj fields => .obj (toFields fields)

def toItems : List Value → List Json
  | [] => []
  | v :: items => toJson v :: toItems items

def toFields : Fields → List (String × Json)
  | [] => []
  | (key, v) :: fields => (key, toJson v) :: toFields fields

end

mutual

theorem toJson_ofJson : ∀ v : Json, toJson (ofJson v) = v
  | .null => rfl
  | .bool _ => rfl
  | .num _ => rfl
  | .str _ => rfl
  | .arr items => congrArg Json.arr (toItems_ofItems items)
  | .obj fields => congrArg Json.obj (toFields_ofFields fields)

theorem toItems_ofItems : ∀ items : List Json, toItems (ofItems items) = items
  | [] => rfl
  | v :: items => by
    rw [ofItems, toItems, toJson_ofJson v, toItems_ofItems items]

theorem toFields_ofFields : ∀ fields : List (String × Json), toFields (ofFields fields) = fields
  | [] => rfl
  | (key, v) :: fields => by
    rw [ofFields, toFields, toJson_ofJson v, toFields_ofFields fields]

end

def plainLoads (bytes : List ℕ) : Except LoadFault Value :=
  match read (bytes.map Char.ofNat) with
  | some v => .ok (ofJson v)
  | none => .error .value

theorem plainLoads_render (v : Json) (hv : Canonical v) :
    plainLoads ((render compact v).map Char.toNat) = .ok (ofJson v) := by
  have htext : ((render compact v).map Char.toNat).map Char.ofNat = render compact v := by
    rw [List.map_map]
    refine List.map_id'' (fun c => ?_) _
    exact Char.ofNat_toNat c
  rw [plainLoads, htext, read_render compact v hv]

def plainDumps (v : Value) : Except LoadFault (List Char) := .ok (render compact (toJson v))

theorem plainDumps_ofJson (v : Json) : plainDumps (ofJson v) = .ok (render compact v) := by
  rw [plainDumps, toJson_ofJson]

theorem ofList_injective : Function.Injective String.ofList :=
  fun _ _ h => String.ofList_injective h

def plainPlatform : Platform where
  loads := plainLoads
  dumps := plainDumps
  intOfText := String.toInt?
  sha256 := String.ofList
  loads_small v hv _ := plainLoads_render v hv
  loads_canonical v _ hv h := Except.ok.inj (h.symm.trans (plainLoads_render v hv))
  dumps_small v _ _ := plainDumps_ofJson v
  dumps_canonical v _ _ h := Except.ok.inj (h.symm.trans (plainDumps_ofJson v))
  sha256_injective := ofList_injective

/-- The base64 of `[]` makes the decoder of `retrieval` raise an `AttributeError`. -/
theorem list_raises_attribute_error :
    decodeCursor plainPlatform .retrieval "history_trace" "0" "W10" = .error .attribute ∧
      ¬ SoundAt plainPlatform .retrieval "history_trace" "0" "W10" := by
  have hcursor : encodeDocument (.arr []) = "W10" := by decide
  have hdecoded : decoded plainPlatform "W10" = .ok (.arr []) := by
    rw [← hcursor]
    exact decoded_encodeDocument trivial (.arr nofun)
  have hraises :
      decodeCursor plainPlatform .retrieval "history_trace" "0" "W10" = .error .attribute := by
    rw [decodeCursor_decoded (by decide) hdecoded]
    rfl
  refine ⟨hraises, ?_⟩
  rintro (⟨message, herror⟩ | ⟨n, hok, _⟩)
  · rw [hraises] at herror
    cases herror
  · rw [hraises] at hok
    cases hok

end Example

end ProjectControl.Cursors
