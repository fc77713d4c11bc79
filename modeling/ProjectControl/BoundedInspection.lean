import Mathlib
import ProjectControl.JsonText
import ProjectControl.Values

/-! `inspect_task` for a task and for its recovery: the limits that come from the budget, and the
summaries that stand for what is larger. -/

set_option autoImplicit false

namespace ProjectControl.Inspection

open JsonText
open Values (LoadFault)

section Limits

/-- The bytes of the canonical text, in which no character is escaped that need not be. -/
def canonicalBytes (v : Json) : ℕ := bytes (render ⟨false, false⟩ v)

/-- A `CompactWorkflowError`, or another exception. -/
inductive Error
  | workflow (code : String)
  | other
  deriving DecidableEq

/-- A value, and what its canonical text raises: a `ValueError` where a number in it is not finite
or has too many digits, or a text has half of a surrogate pair. -/
structure Document where
  value : Json
  fault : Option LoadFault

/-- A mapping whose text can be encoded. -/
def Document.obj (d : Dict) : Document := ⟨.obj d, none⟩

/-- `_bounded_mapping`. -/
def boundedMapping (document : Document) (field : String) (limit : ℕ) : Except Error Dict :=
  match document.value, document.fault with
  | .obj d, none =>
    if limit < canonicalBytes (.obj d) then throw (.workflow (field ++ "_too_large")) else pure d
  | .obj _, some .recursion => throw .other
  | _, _ => throw (.workflow (field ++ "_invalid"))

/-- `_safe_component`. -/
def safeComponent (isSpace : Char → Bool) (value : String) (maximum : ℕ) : Bool :=
  !value.toList.all isSpace && value.utf8ByteSize ≤ maximum && value.toList.all (32 ≤ ·.toNat)

def maxResponseBytes : ℕ := 8 * 1024

def responseLimit (budgetBytes : ℕ) : ℕ := min (budgetBytes + 1024) (max maxResponseBytes budgetBytes)

def resultLimit (budgetBytes : ℕ) : ℕ :=
  min budgetBytes (max 512 (responseLimit budgetBytes - 1024))

/-- The wrapper always has a kilobyte. -/
theorem resultLimit_le (budgetBytes : ℕ) (h : 512 ≤ budgetBytes) :
    512 ≤ resultLimit budgetBytes ∧ resultLimit budgetBytes ≤ budgetBytes ∧
      resultLimit budgetBytes + 1024 ≤ responseLimit budgetBytes := by
  unfold resultLimit responseLimit maxResponseBytes
  omega

end Limits

section Summaries

/-- A loop drops the last reference while the summary is too large. -/
def popReferences (large : List Json → Bool → Bool) : ℕ → List Json → Bool → List Json × Bool
  | 0, kept, truncated => (kept, truncated)
  | n + 1, kept, truncated =>
    if large kept truncated && !kept.isEmpty then popReferences large n kept.dropLast true
    else (kept, truncated)

/-- A summary with the first references, as many as the limit and the cap let it have; without
room for one it is the fallback. -/
def summarize (summary : List Json → Bool → Dict) (fallback : Dict) (cap limit : ℕ)
    (references : List Json) : Except Error Dict :=
  let large (kept : List Json) (truncated : Bool) : Bool :=
    limit < canonicalBytes (.obj (summary kept truncated))
  let (kept, truncated) := popReferences large (references.take cap).length (references.take cap)
    (cap < references.length)
  let result := if large kept truncated then fallback else summary kept truncated
  boundedMapping (.obj result) "inspection_result" limit

def mapping (v : Json) : Dict :=
  match v with
  | .obj d => d
  | _ => []

/-- The context itself or that of a document around it. -/
def contextOf (value : Dict) : Dict :=
  match Dict.get value "payload" with
  | some (.obj payload) => payload
  | _ => value

/-- The references of the manifest, or of the fragments where it has none. -/
def rawReferences (value : Dict) : List Json :=
  let context := contextOf value
  match Dict.get (mapping (Dict.value context "manifest")) "fragments" with
  | some (.arr rows) => rows
  | _ =>
    match Dict.get context "fragments" with
    | some (.arr rows) => rows.filterMap fun row =>
      match Dict.get (mapping row) "reference" with
      | some (.obj reference) => some (.obj reference)
      | _ => none
    | _ => []

def isText : Json → Bool
  | .str _ => true
  | _ => false

def contextReferences (value : Dict) : List Json :=
  (rawReferences value).filterMap fun row =>
    let reference := ["fragment_id", "kind", "digest"].filterMap fun key =>
      ((Dict.get (mapping row) key).filter isText).map fun v => (key, v)
    if reference.isEmpty then none else some (.obj reference)

def taskContextSummary (value : Dict) (references kept : List Json) (truncated : Bool) : Dict :=
  let context := contextOf value
  let manifest := mapping (Dict.value context "manifest")
  [("status", .str "partial"), ("reason", .str "task_context_exceeds_budget"),
    ("manifest_digest", Dict.value manifest "digest"),
    ("source_digest", Dict.value manifest "source_digest"),
    ("semantic_revision", Dict.value context "semantic_revision"),
    ("fragment_count", .num references.length), ("fragment_refs", .arr kept),
    ("continuation", .str "inspect_task(kind=context_fragment, target=<fragment_id>)")] ++
    if truncated then [("fragment_refs_truncated", .bool true)] else []

def taskContextFallback (references : List Json) : Dict :=
  [("status", .str "partial"), ("reason", .str "task_context_exceeds_budget"),
    ("fragment_count", .num references.length), ("continuation", .str "inspect_task(kind=source)")]

/-- `_bounded_task_context_summary`. -/
def boundedTaskContextSummary (value : Dict) (limit : ℕ) : Except Error Dict :=
  let references := contextReferences value
  summarize (taskContextSummary value references) (taskContextFallback references) 16 limit
    references

/-- What is `None`, a text, an integer or a truth value. -/
def isScalar : Json → Bool
  | .arr _ => false
  | .obj _ => false
  | _ => true

def scalars (keys : List String) (d : Dict) : Dict :=
  keys.filterMap fun key => ((Dict.get d key).filter isScalar).map fun v => (key, v)

def operationReference (row : Dict) : Dict :=
  let item := scalars ["operation_id", "operation", "effect_id", "kind", "state", "status",
    "reason"] row
  match Dict.get (mapping (Dict.value row "operation")) "entity_id" with
  | some (.str entityId) =>
    (item.filter fun e => e.1 ≠ "operation" && e.1 ≠ "operation_id") ++
      [("operation_id", .str entityId)]
  | _ => item

def recoveryReferences (value : Dict) : List Json :=
  ["operations", "effects", "pending_operations"].flatMap fun field =>
    match Dict.get value field with
    | some (.arr rows) => rows.filterMap fun row =>
      match row with
      | .obj d =>
        let item := operationReference d
        if item.isEmpty then none else some (.obj item)
      | _ => none
    | _ => []

def recoverySummary (value : Dict) (kept : List Json) (truncated : Bool) : Dict :=
  scalars ["attempt_id", "run_id", "assignment_id", "lease_id", "state", "recovery_state",
      "phase", "semantic_revision", "source_commit", "source_digest", "updated_at"] value ++
    [("status", .str "partial"), ("reason", .str "recovery_inspection_exceeds_budget"),
      ("operation_refs", .arr kept),
      ("continuation", .str "inspect_task(kind=effect, target=<operation_id>)")] ++
    if truncated then [("operation_refs_truncated", .bool true)] else []

def recoveryFallback : Dict :=
  [("status", .str "partial"), ("reason", .str "recovery_inspection_exceeds_budget"),
    ("continuation", .str "inspect_task(kind=effect, target=<operation_id>)")]

/-- `_bounded_recovery_summary`. -/
def boundedRecoverySummary (value : Dict) (limit : ℕ) : Except Error Dict :=
  summarize (recoverySummary value) recoveryFallback 24 limit (recoveryReferences value)

/-- What is kept is a first part of the references, and the mark says whether one is missing. -/
structure Kept (references kept : List Json) (truncated : Bool) : Prop where
  first : kept <+: references
  mark : truncated = true ↔ kept.length < references.length

theorem popReferences_kept {large : List Json → Bool → Bool} {references : List Json} (n : ℕ)
    {kept : List Json} {truncated : Bool} (hkept : Kept references kept truncated) :
    Kept references (popReferences large n kept truncated).1
      (popReferences large n kept truncated).2 := by
  induction n generalizing kept truncated with
  | zero => exact hkept
  | succ n ih =>
    rw [popReferences]
    split_ifs with hlarge
    · have hne : kept ≠ [] := by
        rintro rfl
        simp at hlarge
      have hpos : 0 < kept.length := List.length_pos_of_ne_nil hne
      have hall : kept.length ≤ references.length := hkept.first.length_le
      have hdrop : kept.dropLast.length = kept.length - 1 := List.length_dropLast
      exact ih ⟨(List.dropLast_prefix kept).trans hkept.first, iff_of_true rfl (by omega)⟩
    · exact hkept

/-- A list that the cap cuts is marked from the start. -/
theorem kept_take (references : List Json) (cap : ℕ) :
    Kept references (references.take cap) (cap < references.length) := by
  refine ⟨List.take_prefix cap references, ?_⟩
  rw [decide_eq_true_iff, List.length_take]
  omega

theorem boundedMapping_obj (d : Dict) (field : String) (limit : ℕ) :
    boundedMapping (.obj d) field limit =
      if limit < canonicalBytes (.obj d) then throw (.workflow (field ++ "_too_large"))
      else pure d := rfl

theorem boundedMapping_of_le {d : Dict} {field : String} {limit : ℕ}
    (h : canonicalBytes (.obj d) ≤ limit) : boundedMapping (.obj d) field limit = .ok d :=
  if_neg (Nat.not_lt.mpr h)

/-- With a fallback that fits there is always a result: the fallback, or a summary of a first
part. -/
theorem summarize_fits (summary : List Json → Bool → Dict) {fallback : Dict} {limit : ℕ} (cap : ℕ)
    (references : List Json) (hfallback : canonicalBytes (.obj fallback) ≤ limit) :
    ∃ bounded, summarize summary fallback cap limit references = .ok bounded ∧
      canonicalBytes (.obj bounded) ≤ limit ∧ (bounded = fallback ∨
        ∃ kept truncated, Kept references kept truncated ∧ bounded = summary kept truncated) := by
  let large (kept : List Json) (truncated : Bool) : Bool :=
    limit < canonicalBytes (.obj (summary kept truncated))
  have hkept := @popReferences_kept large references (references.take cap).length _ _
    (kept_take references cap)
  simp only [summarize]
  split_ifs with hlarge
  · exact ⟨fallback, boundedMapping_of_le hfallback, hfallback, .inl rfl⟩
  · have hfits := Nat.le_of_not_lt (mt decide_eq_true hlarge)
    exact ⟨_, boundedMapping_of_le hfits, hfits, .inr ⟨_, _, hkept, rfl⟩⟩

theorem contextOf_le (value : Dict) :
    canonicalBytes (.obj (contextOf value)) ≤ canonicalBytes (.obj value) := by
  unfold contextOf
  split
  · rename_i payload hpayload
    exact bytes_get_le hpayload
  · exact Nat.le_refl _

theorem get_mapping_le {d : Dict} {key inner : String} {v : Json}
    (h : Dict.get (mapping (Dict.value d key)) inner = some v) :
    canonicalBytes v ≤ canonicalBytes (.obj d) := by
  cases hget : Dict.get d key with
  | none =>
    rw [Dict.value, hget] at h
    cases h
  | some w =>
    rw [Dict.value, hget] at h
    have hw : canonicalBytes w ≤ canonicalBytes (.obj d) := bytes_get_le hget
    cases w with
    | obj fields => exact Nat.le_trans (bytes_get_le h) hw
    | _ => cases h

theorem length_le_canonicalBytes (items : List Json) :
    items.length ≤ canonicalBytes (.arr items) :=
  length_le_bytes_array items

theorem rawReferences_length (value : Dict) :
    (rawReferences value).length ≤ canonicalBytes (.obj value) := by
  refine Nat.le_trans ?_ (contextOf_le value)
  unfold rawReferences
  dsimp only
  split
  · rename_i rows hrows
    exact Nat.le_trans (length_le_canonicalBytes rows) (get_mapping_le hrows)
  · split
    · rename_i rows hrows
      calc _ ≤ rows.length := List.length_filterMap_le _ rows
        _ ≤ canonicalBytes (.arr rows) := length_le_canonicalBytes rows
        _ ≤ _ := bytes_get_le hrows
    · exact Nat.zero_le _

theorem contextReferences_length (value : Dict) :
    (contextReferences value).length ≤ canonicalBytes (.obj value) :=
  Nat.le_trans (List.length_filterMap_le _ _) (rawReferences_length value)

theorem recoveryFallback_fits : canonicalBytes (.obj recoveryFallback) ≤ 512 := by decide +kernel

/-- Nine digits are enough for a count of what the journal can hold. -/
theorem taskContextFallback_fits {references : List Json} (h : references.length < 10 ^ 9) :
    canonicalBytes (.obj (taskContextFallback references)) ≤ 512 := by
  have hcount : bytes (render ⟨false, false⟩ (.num references.length)) ≤ 9 :=
    (bytes_number_le_iff (by omega)).mpr h
  have hrest : fieldBytes false ("status", .str "partial") = 19 ∧
      fieldBytes false ("reason", .str "task_context_exceeds_budget") = 39 ∧
      bytes (quote ⟨false, false⟩ "fragment_count") = 16 ∧
      fieldBytes false ("continuation", .str "inspect_task(kind=source)") = 43 := by
    decide +kernel
  rw [canonicalBytes, taskContextFallback, bytes_object]
  simp only [List.map_cons, List.map_nil, List.sum_cons, List.sum_nil]
  have hfield : fieldBytes false ("fragment_count", .num references.length) ≤ 27 := by
    change bytes (quote _ "fragment_count") + bytes (render _ (.num references.length)) + 2 ≤ 27
    omega
  omega

end Summaries

section Inspections

/-- The two kinds of inspection whose results are summarized. -/
inductive Kind
  | task
  | recovery
  deriving DecidableEq

def Kind.name : Kind → String
  | .task => "task"
  | .recovery => "recovery"

def maxStoreBytes : ℕ := 32 * 1024 * 1024

/-- A reply of the native host. -/
structure Reply where
  fields : Dict
  fault : Option LoadFault

def Reply.document (reply : Reply) : Document := ⟨.obj reply.fields, reply.fault⟩

/-- The journal, and the tools of the native host. A journal file that is larger than allowed is
refused before it is read. -/
structure Host where
  isSpace : Char → Bool
  record : String → Except Error Dict
  record_le : ∀ handle data, record handle = .ok data →
    canonicalBytes (.obj data) ≤ maxStoreBytes
  invoke : String → Dict → Dict → Except Error Reply

def attention (reason handle : String) (allowedActions : List String) : Dict :=
  [("status", .str "attention_required"), ("reason", .str reason),
    ("allowed_actions", .arr (allowedActions.map .str)), ("recommended_next_call", .null),
    ("workflow_handle", .str handle)]

def nativeAttention (data : Dict) (handle : String) : Dict :=
  let reason :=
    match Dict.get data "reason" with
    | some (.str reason) => if reason = "" then "native_operation_rejected" else reason
    | _ => "native_operation_rejected"
  attention reason handle ["inspect_task"]

variable (h : Host)

/-- `_handle`. -/
def handleRecord (handle : String) : Except Error Dict :=
  if safeComponent h.isSpace handle 256 then h.record handle
  else throw (.workflow "workflow_handle_invalid")

/-- What is inspected: a reply of the native host, or what the record holds. -/
def inspected (kind : Kind) (record : Dict) : Except Error (Json ⊕ Reply) :=
  match kind with
  | .task =>
    if Dict.value record "mode" = .str "review" then
      .inr <$> h.invoke "todo_read_candidate" record
        [("candidate_id", Dict.value record "candidate_id")]
    else pure (.inl ((Dict.get record "context").getD (.obj [])))
  | .recovery =>
    .inr <$> h.invoke "todo_inspect_attempt" record [("attempt_id", Dict.value record "attempt_id")]

def summaryOf (kind : Kind) (value : Dict) (limit : ℕ) : Except Error Dict :=
  match kind with
  | .task => boundedTaskContextSummary value limit
  | .recovery => boundedRecoverySummary value limit

def boundedResult (kind : Kind) (result : Document) (limit : ℕ) : Except Error Dict :=
  match boundedMapping result "inspection_result" limit with
  | .error error =>
    match result.value with
    | .obj value =>
      if error = .workflow "inspection_result_too_large" then summaryOf kind value limit
      else throw error
    | _ => throw error
  | .ok bounded => pure bounded

def response (kind : Kind) (bounded : Dict) (handle : String) : Dict :=
  [("status", .str "ok"), ("kind", .str kind.name), ("result", .obj bounded),
    ("workflow_handle", .str handle)]

def answer (kind : Kind) (handle : String) (budgetBytes : ℕ) (result : Document) :
    Except Error Dict := do
  let bounded ← boundedResult kind result (resultLimit budgetBytes)
  boundedMapping (.obj (response kind bounded handle)) "workflow_response"
    (responseLimit budgetBytes)

def inspectAttempt (kind : Kind) (handle : String) (budgetBytes : ℕ) : Except Error Dict := do
  if ¬ (512 ≤ budgetBytes ∧ budgetBytes ≤ 64 * 1024) then throw (.workflow "budget_bytes_invalid")
  let record ← handleRecord h handle
  match ← inspected h kind record with
  -- what the journal holds has been encoded before
  | .inl value => answer kind handle budgetBytes ⟨value, none⟩
  | .inr reply =>
    if Dict.value reply.fields "status" = .str "attention_required" then
      pure (nativeAttention reply.fields handle)
    else answer kind handle budgetBytes reply.document

/-- `inspect_task`. -/
def inspectTask (kind : Kind) (handle : String) (budgetBytes : ℕ) : Dict :=
  match inspectAttempt h kind handle budgetBytes with
  | .ok response => response
  | .error (.workflow code) =>
    attention code handle ["inspect_task", "coordinate_task", "finish_task"]
  | .error .other => attention "compact_workflow_inspection_failed" handle []

end Inspections

section Sizes

variable {h : Host} {kind : Kind} {handle : String}

def Kind.listField : Kind → String
  | .task => "fragment_refs"
  | .recovery => "operation_refs"

def Kind.truncatedField : Kind → String
  | .task => "fragment_refs_truncated"
  | .recovery => "operation_refs_truncated"

def Kind.references : Kind → Dict → List Json
  | .task => contextReferences
  | .recovery => recoveryReferences

/-- What stands for a value that is too large. A list in it is a first part of the references of
the value, and it is marked if and only if one of them is missing. -/
structure SummaryOf (kind : Kind) (value bounded : Dict) : Prop where
  partialStatus : Dict.get bounded "status" = some (.str "partial")
  list : ∀ items, Dict.get bounded kind.listField = some items →
    ∃ kept, items = .arr kept ∧ kept <+: kind.references value ∧
      (Dict.get bounded kind.truncatedField = some (.bool true) ↔
        kept.length < (kind.references value).length)

theorem scalars_get_of_notMem {keys : List String} {d : Dict} {key : String} (h : key ∉ keys) :
    Dict.get (scalars keys d) key = none := by
  refine List.lookup_eq_none_iff.mpr fun e he => ?_
  obtain ⟨k, hk, hfield⟩ := List.mem_filterMap.mp he
  obtain ⟨v, _, rfl⟩ := Option.map_eq_some_iff.mp hfield
  exact bne_iff_ne.mpr fun heq => h (heq.symm ▸ hk)

/-- The status of the attempt itself gives way to that of the summary. -/
theorem recoverySummary_get {value : Dict} {kept : List Json} {truncated : Bool} {key : String}
    (hkey : key ∉ ["attempt_id", "run_id", "assignment_id", "lease_id", "state",
      "recovery_state", "phase", "semantic_revision", "source_commit", "source_digest",
      "updated_at"]) :
    Dict.get (recoverySummary value kept truncated) key =
      Dict.get (recoverySummary [] kept truncated) key := by
  have hvalue := scalars_get_of_notMem (d := value) hkey
  have hempty := scalars_get_of_notMem (d := []) hkey
  simp only [Dict.get] at hvalue hempty
  simp only [Dict.get, recoverySummary, List.append_assoc, List.lookup_append, hvalue, hempty]

theorem summaryOf_task {value : Dict} {kept : List Json} {truncated : Bool}
    (hkept : Kept (contextReferences value) kept truncated) :
    SummaryOf .task value (taskContextSummary value (contextReferences value) kept truncated) := by
  refine ⟨rfl, fun items hitems => ⟨kept, (Option.some.inj hitems).symm, hkept.first,
    Iff.trans ?_ hkept.mark⟩⟩
  cases truncated with
  | false => exact iff_of_false nofun nofun
  | true => exact iff_of_true rfl rfl

theorem summaryOf_recovery {value : Dict} {kept : List Json} {truncated : Bool}
    (hkept : Kept (recoveryReferences value) kept truncated) :
    SummaryOf .recovery value (recoverySummary value kept truncated) := by
  refine ⟨recoverySummary_get (by decide), fun items hitems => ⟨kept, ?_, hkept.first,
    Iff.trans ?_ hkept.mark⟩⟩
  · rw [Kind.listField, recoverySummary_get (by decide)] at hitems
    exact (Option.some.inj hitems).symm
  · rw [Kind.truncatedField, recoverySummary_get (by decide)]
    cases truncated with
    | false => exact iff_of_false nofun nofun
    | true => exact iff_of_true rfl rfl

/-- A fallback has no list. -/
theorem summaryOf_fallback {value bounded : Dict}
    (hstatus : Dict.get bounded "status" = some (.str "partial"))
    (hlist : Dict.get bounded kind.listField = none) : SummaryOf kind value bounded :=
  ⟨hstatus, fun items hitems => by rw [hlist] at hitems; cases hitems⟩

/-- What an inspection of a kind is about: the context of an authoring record, or a reply of the
native host that asks for no attention. -/
def Inspects (h : Host) (record : Dict) (reply : Reply) : Kind → Prop
  | .task => Dict.value record "mode" ≠ .str "review" ∧
      (Dict.get record "context").getD (.obj []) = .obj reply.fields ∧ reply.fault = none
  | .recovery =>
      h.invoke "todo_inspect_attempt" record [("attempt_id", Dict.value record "attempt_id")] =
          .ok reply ∧ Dict.value reply.fields "status" ≠ .str "attention_required"

theorem summaryOf_fits (kind : Kind) {value : Dict} {limit : ℕ} (hlimit : 512 ≤ limit)
    (hcount : kind = .task → canonicalBytes (.obj value) < 10 ^ 9) :
    ∃ bounded, summaryOf kind value limit = .ok bounded ∧
      canonicalBytes (.obj bounded) ≤ limit ∧ SummaryOf kind value bounded := by
  cases kind with
  | task =>
    unfold summaryOf boundedTaskContextSummary
    have hlength : (contextReferences value).length < 10 ^ 9 :=
      Nat.lt_of_le_of_lt (contextReferences_length value) (hcount rfl)
    have hfallback : canonicalBytes (.obj (taskContextFallback (contextReferences value))) ≤ limit :=
      Nat.le_trans (taskContextFallback_fits hlength) hlimit
    obtain ⟨bounded, hbounded, hle, rfl | ⟨kept, truncated, hkept, rfl⟩⟩ :=
      summarize_fits (taskContextSummary value (contextReferences value)) 16
        (contextReferences value) hfallback
    · exact ⟨_, hbounded, hle, summaryOf_fallback rfl rfl⟩
    · exact ⟨_, hbounded, hle, summaryOf_task hkept⟩
  | recovery =>
    unfold summaryOf boundedRecoverySummary
    obtain ⟨bounded, hbounded, hle, rfl | ⟨kept, truncated, hkept, rfl⟩⟩ :=
      summarize_fits (recoverySummary value) 24 (recoveryReferences value)
        (Nat.le_trans recoveryFallback_fits hlimit)
    · exact ⟨_, hbounded, hle, summaryOf_fallback rfl rfl⟩
    · exact ⟨_, hbounded, hle, summaryOf_recovery hkept⟩

theorem boundedResult_eq (value : Dict) (limit : ℕ) : boundedResult kind (.obj value) limit =
    if limit < canonicalBytes (.obj value) then summaryOf kind value limit else .ok value := by
  unfold boundedResult
  rw [boundedMapping_obj]
  split_ifs with hlarge
  · exact if_pos rfl
  · rfl

theorem response_le (kind : Kind) (bounded : Dict) (hhandle : safeComponent h.isSpace handle 256 = true) :
    canonicalBytes (.obj (response kind bounded handle)) ≤
      canonicalBytes (.obj bounded) + 1024 := by
  simp only [safeComponent, Bool.and_eq_true, decide_eq_true_eq, List.all_eq_true] at hhandle
  have hquote : bytes (quote ⟨false, false⟩ handle) ≤ 2 * handle.utf8ByteSize + 2 :=
    bytes_quote_le hhandle.2
  have hkind : fieldBytes false ("kind", .str kind.name) ≤ 18 := by cases kind <;> decide +kernel
  have hkeys : fieldBytes false ("status", .str "ok") = 14 ∧
      bytes (quote ⟨false, false⟩ "result") = 8 ∧
      bytes (quote ⟨false, false⟩ "workflow_handle") = 17 := by decide +kernel
  have hresult : fieldBytes false ("result", .obj bounded) = canonicalBytes (.obj bounded) + 10 := by
    change bytes (quote _ "result") + canonicalBytes (.obj bounded) + 2 = _
    omega
  have hfield : fieldBytes false ("workflow_handle", .str handle) ≤ 533 := by
    change bytes (quote _ "workflow_handle") + bytes (quote _ handle) + 2 ≤ _
    omega
  rw [canonicalBytes, response, bytes_object]
  simp only [List.map_cons, List.map_nil, List.sum_cons, List.sum_nil]
  omega

/-- A value that fits is the result itself. -/
theorem boundedResult_fits {value : Dict} {limit : ℕ} (hlimit : 512 ≤ limit)
    (hcount : kind = .task → canonicalBytes (.obj value) < 10 ^ 9) :
    ∃ bounded, boundedResult kind (.obj value) limit = .ok bounded ∧
      canonicalBytes (.obj bounded) ≤ limit ∧ (bounded = value ∨ SummaryOf kind value bounded) := by
  rw [boundedResult_eq]
  split_ifs with hlarge
  · obtain ⟨bounded, hbounded, hle, hsummary⟩ := summaryOf_fits kind hlimit hcount
    exact ⟨bounded, hbounded, hle, .inr hsummary⟩
  · exact ⟨value, rfl, Nat.le_of_not_lt hlarge, .inl rfl⟩

theorem handleRecord_ok {record : Dict} (hrecord : handleRecord h handle = .ok record) :
    safeComponent h.isSpace handle 256 = true ∧ canonicalBytes (.obj record) ≤ maxStoreBytes := by
  unfold handleRecord at hrecord
  split_ifs at hrecord with hsafe
  exact ⟨hsafe, h.record_le handle record hrecord⟩

theorem context_le {record value : Dict}
    (hcontext : (Dict.get record "context").getD (.obj []) = .obj value) :
    canonicalBytes (.obj value) ≤ canonicalBytes (.obj record) + 2 := by
  cases hget : Dict.get record "context" with
  | none =>
    rw [hget] at hcontext
    cases hcontext
    exact Nat.le_add_left 2 _
  | some v =>
    rw [hget] at hcontext
    have hv : canonicalBytes v ≤ canonicalBytes (.obj record) := bytes_get_le hget
    rw [← hcontext]
    exact Nat.le_add_right_of_le hv

/-- Without attention an inspection is the answer about what it inspects. -/
theorem inspectAttempt_eq {record : Dict} {reply : Reply} {budgetBytes : ℕ}
    (hbudget : 512 ≤ budgetBytes ∧ budgetBytes ≤ 64 * 1024)
    (hrecord : handleRecord h handle = .ok record) (hvalue : Inspects h record reply kind) :
    inspectAttempt h kind handle budgetBytes = answer kind handle budgetBytes reply.document := by
  rw [inspectAttempt, if_neg (not_not.mpr hbudget), hrecord]
  cases kind with
  | task =>
    change (inspected h .task record >>= _) = _
    rw [inspected, if_neg hvalue.1, hvalue.2.1, Reply.document, hvalue.2.2]
    rfl
  | recovery =>
    change (inspected h .recovery record >>= _) = _
    rw [inspected, hvalue.1]
    exact if_neg hvalue.2

theorem answer_ok {result : Document} {bounded : Dict} {budgetBytes : ℕ}
    (hbounded : boundedResult kind result (resultLimit budgetBytes) = .ok bounded)
    (hfits : canonicalBytes (.obj (response kind bounded handle)) ≤ responseLimit budgetBytes) :
    answer kind handle budgetBytes result = .ok (response kind bounded handle) := by
  unfold answer
  rw [hbounded]
  dsimp only [bind, Except.bind]
  rw [boundedMapping_of_le hfits]

theorem inspectTask_eq {record bounded : Dict} {reply : Reply} {budgetBytes : ℕ}
    (hbudget : 512 ≤ budgetBytes ∧ budgetBytes ≤ 64 * 1024)
    (hrecord : handleRecord h handle = .ok record) (hvalue : Inspects h record reply kind)
    (hfault : reply.fault = none)
    (hbounded : boundedResult kind (.obj reply.fields) (resultLimit budgetBytes) = .ok bounded)
    (hfits : canonicalBytes (.obj (response kind bounded handle)) ≤ responseLimit budgetBytes) :
    inspectTask h kind handle budgetBytes = response kind bounded handle := by
  have hanswer : inspectAttempt h kind handle budgetBytes = .ok (response kind bounded handle) := by
    rw [inspectAttempt_eq hbudget hrecord hvalue, Reply.document, hfault]
    exact answer_ok hbounded hfits
  rw [inspectTask, hanswer]

theorem inspectTask_ok {record : Dict} {reply : Reply} {budgetBytes : ℕ}
    (hbudget : 512 ≤ budgetBytes ∧ budgetBytes ≤ 64 * 1024)
    (hrecord : handleRecord h handle = .ok record) (hvalue : Inspects h record reply kind)
    (hfault : reply.fault = none) :
    ∃ bounded, inspectTask h kind handle budgetBytes = response kind bounded handle ∧
      canonicalBytes (.obj (response kind bounded handle)) ≤ responseLimit budgetBytes ∧
      canonicalBytes (.obj bounded) ≤ budgetBytes ∧
      (bounded = reply.fields ∨ SummaryOf kind reply.fields bounded) := by
  obtain ⟨hlow, hwithin, hroom⟩ := resultLimit_le budgetBytes hbudget.1
  obtain ⟨hsafe, hstore⟩ := handleRecord_ok hrecord
  have hcount (htask : kind = .task) : canonicalBytes (.obj reply.fields) < 10 ^ 9 := by
    subst htask
    calc canonicalBytes (.obj reply.fields)
      _ ≤ canonicalBytes (.obj record) + 2 := context_le hvalue.2.1
      _ ≤ maxStoreBytes + 2 := Nat.add_le_add_right hstore 2
      _ < 10 ^ 9 := by decide
  obtain ⟨bounded, hbounded, hle, hresult⟩ := boundedResult_fits hlow hcount
  have hresponse := response_le kind bounded hsafe
  have hfits : canonicalBytes (.obj (response kind bounded handle)) ≤ responseLimit budgetBytes := by
    omega
  exact ⟨bounded, inspectTask_eq hbudget hrecord hvalue hfault hbounded hfits, hfits,
    Nat.le_trans hle hwithin, hresult⟩

theorem boundedMapping_fault {d : Dict} {field : String} {limit : ℕ} :
    boundedMapping ⟨.obj d, some .value⟩ field limit = .error (.workflow (field ++ "_invalid")) :=
  rfl

theorem inspectTask_invalid {record : Dict} {reply : Reply} {budgetBytes : ℕ}
    (hbudget : 512 ≤ budgetBytes ∧ budgetBytes ≤ 64 * 1024)
    (hrecord : handleRecord h handle = .ok record) (hvalue : Inspects h record reply kind)
    (hfault : reply.fault = some .value) :
    inspectTask h kind handle budgetBytes =
      attention "inspection_result_invalid" handle
        ["inspect_task", "coordinate_task", "finish_task"] := by
  have hanswer : inspectAttempt h kind handle budgetBytes =
      .error (.workflow "inspection_result_invalid") := by
    rw [inspectAttempt_eq hbudget hrecord hvalue, Reply.document, hfault, answer, boundedResult,
      boundedMapping_fault]
    rfl
  rw [inspectTask, hanswer]

/-- An inspection never fails because of a size: the answer is within its limit, and the result
in it within the budget, for every budget that is allowed. A reply without a canonical text is
refused. -/
theorem inspectTask_fits {record : Dict} {reply : Reply} {budgetBytes : ℕ}
    (hbudget : 512 ≤ budgetBytes ∧ budgetBytes ≤ 64 * 1024)
    (hrecord : handleRecord h handle = .ok record) (hvalue : Inspects h record reply kind) :
    (reply.fault = none →
      ∃ bounded, inspectTask h kind handle budgetBytes = response kind bounded handle ∧
        canonicalBytes (.obj (response kind bounded handle)) ≤ responseLimit budgetBytes ∧
        canonicalBytes (.obj bounded) ≤ budgetBytes ∧
        (bounded = reply.fields ∨ SummaryOf kind reply.fields bounded)) ∧
    (reply.fault = some .value →
      inspectTask h kind handle budgetBytes = attention "inspection_result_invalid" handle
        ["inspect_task", "coordinate_task", "finish_task"]) :=
  ⟨inspectTask_ok hbudget hrecord hvalue, inspectTask_invalid hbudget hrecord hvalue⟩

def fragmentReference (n : ℕ) : Json :=
  .obj [("digest", .str (String.ofList ('d' :: Nat.toDigits 10 n))),
    ("fragment_id", .str (String.ofList ('f' :: Nat.toDigits 10 n))), ("kind", .str "source")]

def largeContext : Dict :=
  [("manifest", .obj [("digest", .str "m1"),
    ("fragments", .arr ((List.range 24).map fragmentReference))]), ("semantic_revision", .num 7)]

def operationRow (n : ℕ) : Json :=
  .obj [("operation_id", .str (String.ofList ('o' :: Nat.toDigits 10 n))),
    ("state", .str "committed")]

def largeAttempt : Dict :=
  [("operations", .arr ((List.range 32).map operationRow)), ("state", .str "running")]

def openedRecord : Dict :=
  [("attempt_id", .str "attempt-1"), ("context", .obj largeContext),
    ("mode", .str "implementation")]

def repliesWith (reply : Reply) : Host where
  isSpace := fun c => c = ' '
  record := fun _ => .ok openedRecord
  record_le := by
    rintro _ _ ⟨⟩
    decide +kernel
  invoke := fun _ _ _ => .ok reply

def largeReply : Reply := ⟨largeAttempt, none⟩

theorem openedRecord_of_handle (reply : Reply) :
    handleRecord (repliesWith reply) "handle-1" = .ok openedRecord := by
  have hsafe : safeComponent (repliesWith reply).isSpace "handle-1" 256 = true := by
    change safeComponent (fun c => decide (c = ' ')) "handle-1" 256 = true
    decide +kernel
  rw [handleRecord, if_pos hsafe]
  rfl

/-- A context and an attempt of more than a kilobyte in 512 bytes: four references of twenty-four,
and seven of thirty-two. -/
theorem large_values_fit :
    (∃ bounded,
      inspectTask (repliesWith largeReply) .task "handle-1" 512 = response .task bounded "handle-1" ∧
      canonicalBytes (.obj (response .task bounded "handle-1")) ≤ responseLimit 512 ∧
      canonicalBytes (.obj bounded) ≤ 512 ∧
      (bounded = largeContext ∨ SummaryOf .task largeContext bounded)) ∧
    (∃ bounded,
      inspectTask (repliesWith largeReply) .recovery "handle-1" 512 =
        response .recovery bounded "handle-1" ∧
      canonicalBytes (.obj (response .recovery bounded "handle-1")) ≤ responseLimit 512 ∧
      canonicalBytes (.obj bounded) ≤ 512 ∧
      (bounded = largeAttempt ∨ SummaryOf .recovery largeAttempt bounded)) ∧
    inspectTask (repliesWith largeReply) .task "handle-1" 512 =
      response .task (taskContextSummary largeContext (contextReferences largeContext)
        ((contextReferences largeContext).take 4) true) "handle-1" ∧
    inspectTask (repliesWith largeReply) .recovery "handle-1" 512 =
      response .recovery (recoverySummary largeAttempt ((recoveryReferences largeAttempt).take 7)
        true) "handle-1" := by
  have hrecord := openedRecord_of_handle largeReply
  have htask : Inspects (repliesWith largeReply) openedRecord ⟨largeContext, none⟩ .task :=
    ⟨by decide, rfl, rfl⟩
  have hrecovery : Inspects (repliesWith largeReply) openedRecord largeReply .recovery :=
    ⟨rfl, by decide⟩
  have htaskResult : boundedResult .task (.obj largeContext) (resultLimit 512) =
      .ok (taskContextSummary largeContext (contextReferences largeContext)
        ((contextReferences largeContext).take 4) true) := by
    decide +kernel
  have hrecoveryResult : boundedResult .recovery (.obj largeAttempt) (resultLimit 512) =
      .ok (recoverySummary largeAttempt ((recoveryReferences largeAttempt).take 7) true) := by
    decide +kernel
  exact ⟨(inspectTask_fits (by decide) hrecord htask).1 rfl,
    (inspectTask_fits (by decide) hrecord hrecovery).1 rfl,
    inspectTask_eq (by decide) hrecord htask rfl htaskResult (by decide +kernel),
    inspectTask_eq (by decide) hrecord hrecovery rfl hrecoveryResult (by decide +kernel)⟩

def notFiniteReply : Reply := ⟨[("state", .str "running")], some .value⟩

/-- The reply has a field `1e999` besides. -/
theorem infinite_number_is_refused :
    Inspects (repliesWith notFiniteReply) openedRecord notFiniteReply .recovery ∧
      ∀ bounded, inspectTask (repliesWith notFiniteReply) .recovery "handle-1" 512 ≠
        response .recovery bounded "handle-1" := by
  have hinspects : Inspects (repliesWith notFiniteReply) openedRecord notFiniteReply .recovery :=
    ⟨rfl, by decide⟩
  refine ⟨hinspects, fun bounded => ?_⟩
  rw [inspectTask_invalid (by decide) (openedRecord_of_handle notFiniteReply) hinspects rfl]
  intro hsame
  have hstatus := congrArg (Dict.get · "status") hsame
  change some (Json.str "attention_required") = some (Json.str "ok") at hstatus
  exact absurd hstatus (by decide)

end Sizes

end ProjectControl.Inspection
