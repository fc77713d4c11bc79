import Mathlib.Data.List.Basic
import ProjectControl.CompactRecord

/-! The private workflow store: one journal file whose operations each run under
the file's exclusive lock, so that each is a function of the journal it reads. -/

set_option autoImplicit false

namespace ProjectControl.Compact

/-- A journal entry by its kind. Timestamps are left out: nothing reads them. -/
inductive Entry where
  | workflow (handle : Handle) (project repository : String) (data : Record)
  | current (project repository : String) (workflowHandle : Handle)
  | adminPreview (identity project repository : String) (data : Dict)

abbrev Journal := List Entry

/-- The lengths of canonical encodings and the text checks of `_safe_component`,
which the code only compares with its limits. -/
structure Codec where
  recordBytes : Record → ℕ
  requestBytes : Request → ℕ
  payloadBytes : Payload → ℕ
  dictBytes : Dict → ℕ
  responseBytes : Response → ℕ
  storeBytes : Journal → ℕ
  safeComponent : String → ℕ → Bool

/-- Every value is within its limit. -/
def Codec.small : Codec :=
  ⟨fun _ => 1, fun _ => 1, fun _ => 1, fun _ => 1, fun _ => 1, fun _ => 1, fun _ _ => true⟩

def maxStoreBytes : ℕ := 32 * 1024 * 1024
def maxRecords : ℕ := 4096
def maxPreviewBytes : ℕ := 1024 * 1024
def maxResultBytes : ℕ := 256 * 1024
def maxResponseBytes : ℕ := 8 * 1024
def maxContextCapsuleBytes : ℕ := 64 * 1024

namespace Journal

/-- The entries of kind `workflow` with the given identity. -/
def rows (j : Journal) (handle : Handle) : List (String × String × Record) :=
  j.filterMap (fun e => match e with
    | .workflow h project repository data =>
      if h = handle then some (project, repository, data) else none
    | _ => none)

/-- The pointers of a scope. Their identity is the digest of the scope. -/
def pointers (j : Journal) (project repository : String) : List Handle :=
  j.filterMap (fun e => match e with
    | .current p r h => if p = project ∧ r = repository then some h else none
    | _ => none)

def setData (j : Journal) (handle : Handle) (data : Record) : Journal :=
  j.map (fun e => match e with
    | .workflow h project repository old =>
      .workflow h project repository (if h = handle then data else old)
    | e => e)

def setPointer (j : Journal) (project repository : String) (handle : Handle) : Journal :=
  j.map (fun e => match e with
    | .current p r h => .current p r (if p = project ∧ r = repository then handle else h)
    | e => e)

/-- No workflow entry has this identity yet. -/
def fresh (j : Journal) (handle : Handle) : Bool := (j.rows handle).isEmpty

/-- The identities that are in use. -/
def handles (j : Journal) : List Handle :=
  j.filterMap (fun e => match e with
    | .workflow h _ _ _ => some h
    | _ => none)

/-- The one entry of a handle. -/
def record (j : Journal) (handle : Handle) : Option (String × String × Record) :=
  match j.rows handle with
  | [row] => some row
  | _ => none

end Journal

namespace Store

variable (c : Codec)

def read (j : Journal) : Except Err Journal :=
  if j.length > maxRecords then .error (.workflow "workflow_store_file_invalid") else .ok j

def write (j : Journal) : Except Err Journal :=
  if c.storeBytes j > maxStoreBytes then .error (.workflow "workflow_store_full") else .ok j

/-- The size check of `_bounded_mapping`. -/
def checkBytes (bytes limit : ℕ) (code : String) : Except Err Unit :=
  if bytes > limit then .error (.workflow code) else .ok ()

/-- `_find` for the kind `workflow`. -/
def find (j : Journal) (handle : Handle) (project repository : String) :
    Except Err (Option Record) :=
  match j.rows handle with
  | [] => .ok none
  | [(p, r, data)] =>
    if p ≠ project ∨ r ≠ repository then .error (.workflow "workflow_handle_scope_mismatch")
    else .ok (some data)
  | _ => .error (.workflow "workflow_store_duplicate_identity")

def findOrRaise (j : Journal) (handle : Handle) (project repository : String) :
    Except Err Record := do
  match ← find j handle project repository with
  | none => .error (.workflow "workflow_handle_unavailable")
  | some data => .ok data

def checkHandle (handle : Handle) : Except Err Unit :=
  if c.safeComponent handle 256 then .ok () else .error (.workflow "workflow_handle_invalid")

def get (j : Journal) (handle : Handle) (project repository : String) : Except Err Record := do
  checkHandle c handle
  let j ← read j
  findOrRaise j handle project repository

/-- Resolves a handle to its project scope. -/
def getAnyScope (j : Journal) (handle : Handle) : Except Err (String × String × Record) := do
  checkHandle c handle
  let j ← read j
  match j.rows handle with
  | [] => .error (.workflow "workflow_handle_unavailable")
  | [row] => .ok row
  | _ => .error (.workflow "workflow_store_duplicate_identity")

def update (j : Journal) (handle : Handle) (project repository : String) (changes : Record) :
    Except Err (Record × Journal) := do
  checkBytes (c.recordBytes changes) maxPreviewBytes "workflow_record_too_large"
  let j ← read j
  let old ← findOrRaise j handle project repository
  let data := old.merge changes
  let j ← write c (j.setData handle data)
  .ok (data, j)

/-- `fn` returns the changed record, or `none` to leave the journal as it is. -/
def atomicUpdate (j : Journal) (handle : Handle) (project repository : String)
    (fn : Record → Except Err (Option Record)) : Except Err (Record × Journal) := do
  let j ← read j
  let old ← findOrRaise j handle project repository
  match ← fn old with
  | none => .ok (old, j)
  | some data =>
    let j ← write c (j.setData handle data)
    .ok (data, j)

/-- The check that a request may resume the scope's current record. -/
def checkRequest (record : Record) (request : Request) : Except Err Unit :=
  if record.phase = some .selecting then
    if record.request ≠ some request then .error (.workflow "workflow_task_already_active")
    else .ok ()
  else if (request.taskId ≠ none ∧ request.taskId ≠ record.taskId) ∨
      (request.runId ≠ none ∧ request.runId ≠ record.runId.getD none) then
    .error (.workflow "workflow_task_already_active")
  else .ok ()

def checkRequestBytes (request : Request) : Except Err Unit :=
  checkBytes (c.requestBytes request) 4096 "workflow_request_too_large"

def findCurrentWorkflow (j : Journal) (project repository : String) (request : Request) :
    Except Err (Option (Handle × Record)) := do
  checkRequestBytes c request
  let j ← read j
  match j.pointers project repository with
  | [] => .ok none
  | [handle] =>
    match j.rows handle with
    | [(_, _, record)] =>
      if record.phase.any Phase.isActive then
        checkRequest record request
        .ok (some (handle, record))
      else .ok none
    | _ => .error (.workflow "workflow_store_current_invalid")
  | _ => .error (.workflow "workflow_store_current_invalid")

/-- The record that a scope's pointer makes a request resume, if it has one. -/
def currentRecord (j : Journal) (project repository : String) (request : Request) :
    Except Err (Option (Handle × Record)) :=
  match j.pointers project repository with
  | [] => .ok none
  | [handle] =>
    match j.rows handle with
    | [] => .ok none
    | [(p, r, record)] =>
      if p = project ∧ r = repository ∧ record.phase.any Phase.isActive then do
        checkRequest record request
        .ok (some (handle, record))
      else .ok none
    | _ => .error (.workflow "workflow_store_duplicate_identity")
  | _ => .error (.workflow "workflow_store_duplicate_current")

/-- The new record of a reservation, before anything is selected for it. -/
def selectingRecord (project repository : String) (request : Request) : Record :=
  { phase := some .selecting, request := some request,
    project := some project, repository := some repository }

/-- The journal after a new record and its pointer were written. -/
def appendReservation (j : Journal) (project repository : String) (request : Request)
    (token : Handle) : Journal :=
  let entry := Entry.workflow token project repository (selectingRecord project repository request)
  match j.pointers project repository with
  | [] => j ++ [entry, .current project repository token]
  | _ => (j ++ [entry]).setPointer project repository token

/-- A new record, and the pointer of a scope that has none, would not fit. -/
def isFull (j : Journal) (project repository : String) : Bool :=
  j.length + (if j.pointers project repository = [] then 1 else 0) ≥ maxRecords

/-- Resumes or reserves the one authoring workflow of a scope; `token` is the
fresh handle of a new reservation. -/
def reserveWorkflow (j : Journal) (project repository : String) (request : Request)
    (token : Handle) : Except Err ((Handle × Record × Bool) × Journal) := do
  checkRequestBytes c request
  let j ← read j
  match ← currentRecord j project repository request with
  | some (handle, record) => .ok ((handle, record, false), j)
  | none =>
    if isFull j project repository then .error (.workflow "workflow_store_full")
    else do
      let j ← write c (appendReservation j project repository request token)
      .ok ((token, selectingRecord project repository request, true), j)

/-- The review records of a candidate that are still open. -/
def openReviews (j : Journal) (project repository : String) (candidateId : String) :
    List (Handle × Record) :=
  j.filterMap (fun e => match e with
    | .workflow h p r data =>
      if p = project ∧ r = repository ∧ data.mode = some .review ∧
          data.candidateId = some candidateId ∧
          (data.phase = some .reviewPending ∨ data.phase = some .reviewAccepted) then
        some (h, data)
      else none
    | _ => none)

def reserveReview (j : Journal) (project repository : String) (candidate : Record)
    (token : Handle) : Except Err ((Handle × Record × Bool) × Journal) := do
  checkBytes (c.recordBytes candidate) 4096 "review_workflow_too_large"
  match candidate.candidateId with
  | none => .error (.workflow "review_candidate_invalid")
  | some candidateId =>
    let j ← read j
    match openReviews j project repository candidateId with
    | [(h, data)] => .ok ((h, data, false), j)
    | [] =>
      if j.length ≥ maxRecords then .error (.workflow "workflow_store_full")
      else do
        let data := { candidate with
          mode := some .review, phase := some .reviewPending,
          project := some project, repository := some repository }
        let j ← write c (j ++ [.workflow token project repository data])
        .ok ((token, data, true), j)
    | _ => .error (.workflow "workflow_store_duplicate_review")

end Store

namespace Journal

theorem pointers_setData (j : Journal) (h : Handle) (d : Record) (p r : String) :
    (j.setData h d).pointers p r = j.pointers p r := by
  simp only [pointers, setData, List.filterMap_map]
  refine List.filterMap_congr (fun e _ => ?_)
  cases e <;> rfl

theorem rows_setData_self (j : Journal) (h : Handle) (d : Record) :
    (j.setData h d).rows h = (j.rows h).map (fun row => (row.1, row.2.1, d)) := by
  simp only [rows, setData, List.filterMap_map, List.map_filterMap]
  refine List.filterMap_congr (fun e _ => ?_)
  cases e with
  | workflow g p r old => by_cases hg : g = h <;> simp [hg]
  | current p r g => rfl
  | adminPreview i p r d' => rfl

theorem rows_setData_of_ne (j : Journal) {h h' : Handle} (d : Record) (hne : h' ≠ h) :
    (j.setData h d).rows h' = j.rows h' := by
  simp only [rows, setData, List.filterMap_map]
  refine List.filterMap_congr (fun e _ => ?_)
  cases e with
  | workflow g p r old =>
    by_cases hg : g = h
    · have : g ≠ h' := fun e => hne (e.symm.trans hg)
      simp [this]
    · simp [hg]
  | current p r g => rfl
  | adminPreview i p r d' => rfl

theorem record_eq_some {j : Journal} {h : Handle} {row : String × String × Record} :
    j.record h = some row ↔ j.rows h = [row] := by
  unfold record
  split <;> simp_all

theorem record_setData_self {j : Journal} {h : Handle} {p r : String} {old d : Record}
    (hj : j.record h = some (p, r, old)) : (j.setData h d).record h = some (p, r, d) := by
  rw [record_eq_some] at hj ⊢
  simp [rows_setData_self, hj]

theorem record_setData_of_ne {j : Journal} {h h' : Handle} (d : Record) (hne : h' ≠ h) :
    (j.setData h d).record h' = j.record h' := by
  simp only [record, rows_setData_of_ne j d hne]

theorem rows_append (j k : Journal) (h : Handle) : rows (j ++ k) h = j.rows h ++ rows k h :=
  List.filterMap_append

theorem rows_setPointer (j : Journal) (p r : String) (g h : Handle) :
    (j.setPointer p r g).rows h = j.rows h := by
  simp only [rows, setPointer, List.filterMap_map]
  refine List.filterMap_congr (fun e _ => ?_)
  cases e <;> rfl

theorem rows_appendReservation (j : Journal) (p r : String) (request : Request)
    (token h : Handle) :
    (Store.appendReservation j p r request token).rows h =
      j.rows h ++ if token = h then [(p, r, Store.selectingRecord p r request)] else [] := by
  unfold Store.appendReservation
  split
  · by_cases ht : token = h <;> simp [rows, ht]
  · rw [rows_setPointer, rows_append]
    by_cases ht : token = h <;> simp [rows, ht]

theorem pointers_append (j k : Journal) (p r : String) :
    pointers (j ++ k) p r = j.pointers p r ++ pointers k p r :=
  List.filterMap_append

theorem pointers_setPointer (j : Journal) (p r p' r' : String) (g : Handle) :
    (j.setPointer p' r' g).pointers p r =
      if p = p' ∧ r = r' then (j.pointers p r).map (fun _ => g) else j.pointers p r := by
  have hmap : (j.setPointer p' r' g).pointers p r =
      (j.pointers p r).map (fun h => if p = p' ∧ r = r' then g else h) := by
    simp only [pointers, setPointer, List.filterMap_map, List.map_filterMap]
    refine List.filterMap_congr (fun e _ => ?_)
    cases e with
    | current a b h => by_cases hs : a = p ∧ b = r <;> simp [hs]
    | workflow h a b d => rfl
    | adminPreview i a b d => rfl
  rw [hmap]
  split <;> simp_all

theorem pointers_appendReservation (j : Journal) (p r p' r' : String) (request : Request)
    (token : Handle) (hone : j.pointers p' r' = [] ∨ ∃ g, j.pointers p' r' = [g]) :
    (Store.appendReservation j p' r' request token).pointers p r =
      if p = p' ∧ r = r' then [token] else j.pointers p r := by
  unfold Store.appendReservation
  split
  · rename_i hnil
    rw [pointers_append]
    by_cases hs : p = p' ∧ r = r'
    · obtain ⟨rfl, rfl⟩ := hs
      rw [hnil]
      simp [pointers]
    · have hs' : ¬(p' = p ∧ r' = r) := fun h => hs ⟨h.1.symm, h.2.symm⟩
      simp [pointers, hs, hs']
  · rename_i hne
    obtain ⟨g, hg⟩ := hone.resolve_left hne
    rw [pointers_setPointer, pointers_append]
    by_cases hs : p = p' ∧ r = r'
    · obtain ⟨rfl, rfl⟩ := hs
      rw [hg]
      simp [pointers]
    · simp [hs, pointers]

theorem record_appendReservation_self {j : Journal} {p r : String} {request : Request}
    {token : Handle} (hf : j.rows token = []) :
    (Store.appendReservation j p r request token).record token =
      some (p, r, Store.selectingRecord p r request) := by
  rw [record_eq_some, rows_appendReservation, hf]
  simp

theorem record_appendReservation_of_ne {j : Journal} {p r : String} {request : Request}
    {token h : Handle} (hne : h ≠ token) :
    (Store.appendReservation j p r request token).record h = j.record h := by
  simp [record, rows_appendReservation, Ne.symm hne]

theorem record_append_self {j : Journal} {p r : String} {data : Record} {token : Handle}
    (hf : j.rows token = []) :
    Journal.record (j ++ [.workflow token p r data]) token = some (p, r, data) := by
  rw [record_eq_some, rows_append, hf]
  simp [rows]

theorem record_append_of_ne {j : Journal} {p r : String} {data : Record} {token h : Handle}
    (hne : h ≠ token) : Journal.record (j ++ [.workflow token p r data]) h = j.record h := by
  simp [record, rows, Ne.symm hne]

end Journal

namespace Store

variable {c : Codec} {j : Journal} {h : Handle} {p r : String}

theorem bind_eq_ok {ε α β : Type} {x : Except ε α} {f : α → Except ε β} {b : β} :
    (x >>= f) = .ok b ↔ ∃ a, x = .ok a ∧ f a = .ok b := by
  cases x <;> simp [bind, Except.bind]

theorem bind_eq_error {ε α β : Type} {x : Except ε α} {f : α → Except ε β} {e : ε} :
    (x >>= f) = .error e ↔ x = .error e ∨ ∃ a, x = .ok a ∧ f a = .error e := by
  cases x <;> simp [bind, Except.bind]

theorem findOrRaise_ok {data : Record} (hf : findOrRaise j h p r = .ok data) :
    j.record h = some (p, r, data) := by
  rw [Journal.record_eq_some]
  unfold findOrRaise find at hf
  split at hf
  · cases hf
  · rename_i p' r' data' hrows
    by_cases hs : p' ≠ p ∨ r' ≠ r
    · simp [hs, bind, Except.bind] at hf
    · obtain ⟨rfl, rfl⟩ := by simpa [not_or] using hs
      simp [bind, Except.bind] at hf
      rw [hrows, hf]
  · cases hf

theorem read_ok {j' : Journal} (hr : read j = .ok j') : j' = j := by
  unfold read at hr
  split at hr <;> cases hr
  rfl

theorem write_ok {j' : Journal} (hw : write c j = .ok j') : j' = j := by
  unfold write at hw
  split at hw <;> cases hw
  rfl

theorem get_ok {data : Record} (hg : get c j h p r = .ok data) :
    j.record h = some (p, r, data) := by
  unfold get at hg
  obtain ⟨_, -, hg⟩ := bind_eq_ok.mp hg
  obtain ⟨j', hj, hf⟩ := bind_eq_ok.mp hg
  rw [read_ok hj] at hf
  exact findOrRaise_ok hf

theorem getAnyScope_ok {row : String × String × Record} (hg : getAnyScope c j h = .ok row) :
    j.record h = some row := by
  unfold getAnyScope at hg
  obtain ⟨_, -, hg⟩ := bind_eq_ok.mp hg
  obtain ⟨j', hj, hf⟩ := bind_eq_ok.mp hg
  rw [read_ok hj] at hf
  rw [Journal.record_eq_some]
  split at hf <;> simp_all

theorem update_ok {changes data : Record} {j' : Journal}
    (hu : update c j h p r changes = .ok (data, j')) :
    ∃ old, j.record h = some (p, r, old) ∧ data = old.merge changes ∧
      j' = j.setData h data := by
  unfold update at hu
  obtain ⟨_, -, hu⟩ := bind_eq_ok.mp hu
  obtain ⟨j₁, hj, hu⟩ := bind_eq_ok.mp hu
  obtain ⟨old, ho, hu⟩ := bind_eq_ok.mp hu
  obtain ⟨j₂, hw, hu⟩ := bind_eq_ok.mp hu
  cases hu
  rw [read_ok hj] at ho hw
  exact ⟨old, findOrRaise_ok ho, rfl, write_ok hw⟩

theorem atomicUpdate_ok {fn : Record → Except Err (Option Record)} {data : Record} {j' : Journal}
    (hu : atomicUpdate c j h p r fn = .ok (data, j')) :
    ∃ old, j.record h = some (p, r, old) ∧
      ((fn old = .ok none ∧ data = old ∧ j' = j) ∨
        (fn old = .ok (some data) ∧ j' = j.setData h data)) := by
  unfold atomicUpdate at hu
  obtain ⟨j₁, hj, hu⟩ := bind_eq_ok.mp hu
  obtain ⟨old, ho, hu⟩ := bind_eq_ok.mp hu
  obtain ⟨out, hf, hu⟩ := bind_eq_ok.mp hu
  rw [read_ok hj] at ho hu
  refine ⟨old, findOrRaise_ok ho, ?_⟩
  cases out with
  | none =>
    cases hu
    exact Or.inl ⟨hf, rfl, rfl⟩
  | some new =>
    obtain ⟨j₂, hw, hu⟩ := bind_eq_ok.mp hu
    cases hu
    exact Or.inr ⟨hf, write_ok hw⟩

theorem currentRecord_some {request : Request} {data : Record}
    (hc : currentRecord j p r request = .ok (some (h, data))) :
    j.pointers p r = [h] ∧ j.record h = some (p, r, data) ∧ data.phase.any Phase.isActive := by
  unfold currentRecord at hc
  split at hc
  · cases hc
  · rename_i g hg
    split at hc
    · cases hc
    · rename_i p' r' d hrows
      split at hc
      · rename_i hs
        obtain ⟨rfl, rfl, hact⟩ := hs
        obtain ⟨_, -, hok⟩ := bind_eq_ok.mp hc
        cases hok
        exact ⟨hg, Journal.record_eq_some.mpr hrows, hact⟩
      · cases hc
    · cases hc
  · cases hc

/-- Without a current record, the pointer of a scope leads to no active record. -/
theorem currentRecord_none {request : Request} (hc : currentRecord j p r request = .ok none) :
    j.pointers p r = [] ∨ ∃ g, j.pointers p r = [g] ∧ ∀ data, j.record g = some (p, r, data) →
      data.phase.any Phase.isActive = false := by
  unfold currentRecord at hc
  split at hc
  · exact Or.inl (by assumption)
  · rename_i g hg
    refine Or.inr ⟨g, hg, fun data hd => ?_⟩
    rw [Journal.record_eq_some] at hd
    simp only [hd] at hc
    split at hc
    · obtain ⟨_, -, hok⟩ := bind_eq_ok.mp hc
      cases hok
    · rename_i hs
      simpa using hs
  · cases hc

theorem reserveWorkflow_ok {request : Request} {token : Handle} {data : Record} {isNew : Bool}
    {j' : Journal}
    (hr : reserveWorkflow c j p r request token = .ok ((h, data, isNew), j')) :
    (isNew = false ∧ j' = j ∧ currentRecord j p r request = .ok (some (h, data))) ∨
    (isNew = true ∧ h = token ∧ data = selectingRecord p r request ∧
      j' = appendReservation j p r request token ∧ currentRecord j p r request = .ok none) := by
  unfold reserveWorkflow at hr
  obtain ⟨_, -, hr⟩ := bind_eq_ok.mp hr
  obtain ⟨j₁, hj, hr⟩ := bind_eq_ok.mp hr
  obtain ⟨cur, hcur, hr⟩ := bind_eq_ok.mp hr
  rw [read_ok hj] at hcur hr
  cases cur with
  | some row =>
    cases hr
    exact Or.inl ⟨rfl, rfl, hcur⟩
  | none =>
    simp only at hr
    split at hr
    · cases hr
    · obtain ⟨j₂, hw, hr⟩ := bind_eq_ok.mp hr
      cases hr
      exact Or.inr ⟨rfl, rfl, rfl, write_ok hw, hcur⟩

theorem reserveReview_ok {candidate data : Record} {token : Handle} {isNew : Bool} {j' : Journal}
    (hr : reserveReview c j p r candidate token = .ok ((h, data, isNew), j')) :
    j' = j ∨ j' = j ++ [.workflow token p r { candidate with
      mode := some .review, phase := some .reviewPending,
      project := some p, repository := some r }] := by
  unfold reserveReview at hr
  obtain ⟨_, -, hr⟩ := bind_eq_ok.mp hr
  split at hr
  · cases hr
  · obtain ⟨j₁, hj, hr⟩ := bind_eq_ok.mp hr
    rw [read_ok hj] at hr
    split at hr
    · cases hr
      exact Or.inl rfl
    · split at hr
      · cases hr
      · obtain ⟨j₂, hw, hr⟩ := bind_eq_ok.mp hr
        cases hr
        exact Or.inr (write_ok hw)
    · cases hr

/-- The codes with which the store refuses to read a record or to write one. -/
def codes : List String :=
  ["workflow_handle_invalid", "workflow_store_file_invalid", "workflow_store_full",
    "workflow_record_too_large", "workflow_handle_scope_mismatch",
    "workflow_store_duplicate_identity", "workflow_handle_unavailable"]

/-- An error of the store itself. -/
def Refuses (e : Err) : Prop := ∃ code ∈ codes, e = .workflow code

theorem read_error {e : Err} (h : read j = .error e) : Refuses e := by
  unfold read at h
  split at h <;> cases h
  exact ⟨_, by decide, rfl⟩

theorem write_error {e : Err} (h : write c j = .error e) : Refuses e := by
  unfold write at h
  split at h <;> cases h
  exact ⟨_, by decide, rfl⟩

theorem find_error {e : Err} (hf : find j h p r = .error e) : Refuses e := by
  unfold find at hf
  split at hf
  · cases hf
  · split at hf <;> cases hf
    exact ⟨_, by decide, rfl⟩
  · cases hf
    exact ⟨_, by decide, rfl⟩

theorem findOrRaise_error {e : Err} (hf : findOrRaise j h p r = .error e) : Refuses e := by
  unfold findOrRaise at hf
  rcases bind_eq_error.mp hf with hf | ⟨out, -, hf⟩
  · exact find_error hf
  · cases out <;> cases hf
    exact ⟨_, by decide, rfl⟩

theorem get_error {e : Err} (hg : get c j h p r = .error e) : Refuses e := by
  unfold get checkHandle at hg
  rcases bind_eq_error.mp hg with hc | ⟨-, -, hg⟩
  · split at hc <;> cases hc
    exact ⟨_, by decide, rfl⟩
  · rcases bind_eq_error.mp hg with hr | ⟨j', -, hf⟩
    · exact read_error hr
    · exact findOrRaise_error hf

theorem update_error {changes : Record} {e : Err} (hu : update c j h p r changes = .error e) :
    Refuses e := by
  unfold update checkBytes at hu
  rcases bind_eq_error.mp hu with hc | ⟨-, -, hu⟩
  · split at hc <;> cases hc
    exact ⟨_, by decide, rfl⟩
  · rcases bind_eq_error.mp hu with hr | ⟨j₁, -, hu⟩
    · exact read_error hr
    · rcases bind_eq_error.mp hu with hf | ⟨old, -, hu⟩
      · exact findOrRaise_error hf
      · rcases bind_eq_error.mp hu with hw | ⟨j₂, -, hu⟩
        · exact write_error hw
        · cases hu

theorem atomicUpdate_error {fn : Record → Except Err (Option Record)} {e : Err}
    (hu : atomicUpdate c j h p r fn = .error e) :
    Refuses e ∨ ∃ old, j.record h = some (p, r, old) ∧ fn old = .error e := by
  unfold atomicUpdate at hu
  rcases bind_eq_error.mp hu with hr | ⟨j₁, hj, hu⟩
  · exact Or.inl (read_error hr)
  · rw [read_ok hj] at hu
    rcases bind_eq_error.mp hu with hf | ⟨old, ho, hu⟩
    · exact Or.inl (findOrRaise_error hf)
    · rcases bind_eq_error.mp hu with hf | ⟨out, -, hu⟩
      · exact Or.inr ⟨old, findOrRaise_ok ho, hf⟩
      · cases out with
        | none => cases hu
        | some data =>
          rcases bind_eq_error.mp hu with hw | ⟨j₂, -, hu⟩
          · exact Or.inl (write_error hw)
          · cases hu

end Store

end ProjectControl.Compact
