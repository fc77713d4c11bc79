import Mathlib
import ProjectControl.JsonText
import ProjectControl.ProcessStart
import ProjectControl.Transaction

/-! The private file with the Todo credentials: what is read from it, and what the calls that
store and forget bearers make of it. -/

set_option autoImplicit false

namespace ProjectControl.Tokens

open JsonText

def tokenStoreFormat : String := "project-control.todo-session-tokens"

def maxStoreBytes : ℕ := 1024 * 1024

/-- `HostSessionUnavailable`, and the `ValueError` of a refused argument. -/
inductive Error where
  | unavailable (text : String)
  | value (text : String)
  deriving DecidableEq

section Documents

/-- `value == TOKEN_STORE_VERSION`, where a flag counts as a number. -/
def isVersion : Json → Bool
  | .num n => n = 1
  | .bool b => b
  | _ => false

theorem isVersion_one : isVersion (.num 1) = true := rfl

structure Store where
  sessions : List Json := []
  attempts : List Json := []
  children : List Json := []
  version : {v : Json // isVersion v = true} := ⟨.num 1, isVersion_one⟩

def Store.toJson (s : Store) : Json :=
  .obj [("attempts", .arr s.attempts), ("children", .arr s.children),
    ("format", .str tokenStoreFormat), ("sessions", .arr s.sessions), ("version", s.version.1)]

/-- The checks of `_read_store` on the decoded document. -/
def Store.ofJson? (value : Json) : Option Store :=
  match value.fields? with
  | none => none
  | some d =>
    match Dict.get d "version", Dict.get d "sessions", Dict.get d "attempts",
      Dict.get d "children" with
    | some version, some (.arr sessions), some (.arr attempts), some (.arr children) =>
      if h : Dict.get d "format" = some (.str tokenStoreFormat) ∧ isVersion version = true ∧
          d.map Prod.fst = ["attempts", "children", "format", "sessions", "version"] then
        some ⟨sessions, attempts, children, ⟨version, h.2.1⟩⟩
      else none
    | _, _, _, _ => none

/-- What `json.dump` writes: ASCII only, sorted keys, no blanks. -/
def Store.text (s : Store) : List Char := render ⟨true, false⟩ s.toJson

end Documents

section Files

structure StoreFile where
  text : List Char
  symlink : Bool := false
  regular : Bool := true
  owned : Bool := true
  mode : ℕ := 0o600

def StoreFile.exposed (f : StoreFile) : Bool :=
  !f.regular || !f.owned || f.mode &&& 0o077 != 0 || decide (maxStoreBytes < bytes f.text)

/-- `_read_store`. -/
def readStore : Option StoreFile → Except Error Store
  | none => .ok {}
  | some f =>
    if f.symlink then
      .error (.unavailable "private Todo credential store must not be a symlink")
    else if f.exposed then
      .error (.unavailable
        "private Todo credential store has unsafe ownership, permissions, or size")
    else
      match read f.text with
      | none => .error (.unavailable "private Todo credential store is unreadable")
      | some value =>
        match Store.ofJson? value with
        | none => .error (.unavailable "private Todo credential store format is invalid")
        | some store => .ok store

/-- `_write_store`, which replaces the whole file at once. -/
def writeStore (value : Store) : Option StoreFile := some { text := value.text }

end Files

section Calls

structure ProjectMetadata where
  projectId : String
  authorityId : String
  deriving DecidableEq

/-- The fields that name an entry. -/
abbrev Key := List (String × String)

def identifies (key : Key) (item : Json) : Bool :=
  match item with
  | .obj d => key.all (fun field => Dict.get d field.1 = some (.str field.2))
  | _ => false

def entries (records : List Json) (key : Key) : List Json := records.filter (identifies key)

/-- The records with the entry, or nothing to write where it is there already. -/
def addEntry (message : String) (key : Key) (entry : Json) (records : List Json) :
    Except Error (Option (List Json)) :=
  if entries records key = [] then .ok (some (records ++ [entry]))
  else if entries records key = [entry] then .ok none
  else .error (.unavailable message)

def attemptKey (metadata : ProjectMetadata) (principal profile attemptId : String) : Key :=
  [("project_id", metadata.projectId), ("principal_id", principal), ("profile", profile),
    ("attempt_id", attemptId)]

def attemptEntry (metadata : ProjectMetadata) (principal attemptId bearerToken profile : String) :
    Json :=
  .obj [("attempt_id", .str attemptId), ("authority_id", .str metadata.authorityId),
    ("bearer_token", .str bearerToken), ("principal_id", .str principal),
    ("profile", .str profile), ("project_id", .str metadata.projectId)]

def childKey (metadata : ProjectMetadata) (principal profile parentAttemptId executionId
    childPrincipal : String) : Key :=
  [("project_id", metadata.projectId), ("principal_id", principal), ("profile", profile),
    ("parent_attempt_id", parentAttemptId), ("execution_id", executionId),
    ("child_principal_id", childPrincipal)]

def childEntry (metadata : ProjectMetadata) (principal parentAttemptId executionId childPrincipal
    bearerToken profile : String) : Json :=
  .obj [("authority_id", .str metadata.authorityId), ("bearer_token", .str bearerToken),
    ("child_principal_id", .str childPrincipal), ("execution_id", .str executionId),
    ("parent_attempt_id", .str parentAttemptId), ("principal_id", .str principal),
    ("profile", .str profile), ("project_id", .str metadata.projectId)]

def storeAttemptBearer (metadata : ProjectMetadata)
    (principal attemptId bearerToken profile : String) (value : Store) :
    Except Error (Option Store) := do
  let records ← addEntry "attempt session already exists with a different identity"
    (attemptKey metadata principal profile attemptId)
    (attemptEntry metadata principal attemptId bearerToken profile) value.attempts
  return records.map (fun attempts => { value with attempts := attempts })

def forgetAttemptBearer (metadata : ProjectMetadata) (principal attemptId profile : String)
    (value : Store) : Except Error (Option Store) :=
  let found := entries value.attempts (attemptKey metadata principal profile attemptId)
  if 1 < found.length then
    .error (.unavailable "duplicate Todo attempt sessions prevent safe removal")
  else .ok (some { value with attempts := value.attempts.filter (· ∉ found) })

def storeChildBearer (metadata : ProjectMetadata) (principal parentAttemptId executionId
    childPrincipal bearerToken profile : String) (value : Store) :
    Except Error (Option Store) := do
  let records ← addEntry "child session already exists with a different identity"
    (childKey metadata principal profile parentAttemptId executionId childPrincipal)
    (childEntry metadata principal parentAttemptId executionId childPrincipal bearerToken profile)
    value.children
  return records.map (fun children => { value with children := children })

inductive Call where
  | storeAttempt (metadata : ProjectMetadata) (principal attemptId bearerToken profile : String)
  | forgetAttempt (metadata : ProjectMetadata) (principal attemptId profile : String)
  | storeChild (metadata : ProjectMetadata) (principal parentAttemptId executionId childPrincipal
      bearerToken profile : String)
  deriving DecidableEq

/-- Whether a text is empty once its blanks are stripped. -/
def blank (text : String) : Bool := text.toList.all Processes.isSpace

/-- The check of the arguments, before the file is touched. -/
def Call.check : Call → Except Error Unit
  | .storeAttempt _ principal attemptId bearerToken profile =>
    if [principal, attemptId, bearerToken, profile].any blank then
      .error (.value "attempt session fields must be non-empty strings")
    else .ok ()
  | .forgetAttempt .. => .ok ()
  | .storeChild _ principal parentAttemptId executionId childPrincipal bearerToken profile =>
    if [principal, parentAttemptId, executionId, childPrincipal, bearerToken, profile].any
        blank then
      .error (.value "child session fields must be non-empty strings")
    else .ok ()

/-- The store that the call writes, if it writes one. -/
def Call.change : Call → Store → Except Error (Option Store)
  | .storeAttempt metadata principal attemptId bearerToken profile =>
    storeAttemptBearer metadata principal attemptId bearerToken profile
  | .forgetAttempt metadata principal attemptId profile =>
    forgetAttemptBearer metadata principal attemptId profile
  | .storeChild metadata principal parentAttemptId executionId childPrincipal bearerToken
      profile =>
    storeChildBearer metadata principal parentAttemptId executionId childPrincipal bearerToken
      profile

end Calls

section Parts

/-- The two lists that the calls change. -/
inductive Part where
  | attempts
  | children
  deriving DecidableEq

def Part.names : Part → List String
  | .attempts => ["project_id", "principal_id", "profile", "attempt_id"]
  | .children => ["project_id", "principal_id", "profile", "parent_attempt_id", "execution_id",
      "child_principal_id"]

def Store.part (s : Store) : Part → List Json
  | .attempts => s.attempts
  | .children => s.children

def Store.withPart (s : Store) (part : Part) (records : List Json) : Store :=
  match part with
  | .attempts => { s with attempts := records }
  | .children => { s with children := records }

/-- What a call stores: the list, the identity and the entry. -/
def Call.stores? : Call → Option (Part × Key × Json)
  | .storeAttempt metadata principal attemptId bearerToken profile =>
    some (.attempts, attemptKey metadata principal profile attemptId,
      attemptEntry metadata principal attemptId bearerToken profile)
  | .forgetAttempt .. => none
  | .storeChild metadata principal parentAttemptId executionId childPrincipal bearerToken
      profile =>
    some (.children, childKey metadata principal profile parentAttemptId executionId childPrincipal,
      childEntry metadata principal parentAttemptId executionId childPrincipal bearerToken profile)

/-- The identity that a call forgets. -/
def Call.forgets? : Call → Option (Part × Key)
  | .forgetAttempt metadata principal attemptId profile =>
    some (.attempts, attemptKey metadata principal profile attemptId)
  | _ => none

/-- At most one entry for each identity. -/
def Store.Unique (s : Store) : Prop :=
  ∀ part key, key.map Prod.fst = part.names → (entries (s.part part) key).length ≤ 1

/-- The store with the new entry is not too large to be read again. -/
def Store.Fits (s : Store) : Option (Part × Key × Json) → Prop
  | some (part, key, entry) => entries (s.part part) key = [] →
      bytes (s.withPart part (s.part part ++ [entry])).text ≤ maxStoreBytes
  | none => True

instance (s : Store) : (stored : Option (Part × Key × Json)) → Decidable (s.Fits stored)
  | some (part, key, entry) => inferInstanceAs (Decidable (entries (s.part part) key = [] →
      bytes (s.withPart part (s.part part ++ [entry])).text ≤ maxStoreBytes))
  | none => inferInstanceAs (Decidable True)

end Parts

section Reading

variable {s : Store}

/-- The records keep the form in which documents are written and read. -/
structure Store.Canonical (s : Store) : Prop where
  sessions : CanonicalItems s.sessions
  attempts : CanonicalItems s.attempts
  children : CanonicalItems s.children

theorem canonical_version {v : Json} (hv : isVersion v = true) : JsonText.Canonical v := by
  cases v with
  | num n => trivial
  | bool b => trivial
  | null => cases hv
  | str text => cases hv
  | arr items => cases hv
  | obj fields => cases hv

theorem Store.Canonical.toJson (hs : s.Canonical) : JsonText.Canonical s.toJson := by
  have hkeys : (s.toJson.fields?.getD []).Pairwise (fun a b => a.1 < b.1) := by
    have hnames : ["attempts", "children", "format", "sessions", "version"].Pairwise (· < ·) := by
      decide
    exact List.pairwise_map.mp hnames
  exact ⟨hkeys, hs.attempts, hs.children, trivial, hs.sessions, canonical_version s.version.2,
    trivial⟩

theorem ofJson?_toJson (s : Store) : Store.ofJson? s.toJson = some s := by
  simp [Store.ofJson?, Store.toJson, Json.fields?, Dict.get, s.version.2, List.lookup]

theorem canonical_get {d : Dict} {key : String} {items : List Json}
    (hd : CanonicalFields d) (h : d.get key = some (.arr items)) : CanonicalItems items := by
  obtain ⟨before, after, hsplit, -⟩ := List.lookup_eq_some_iff.mp h
  have hmem : (key, Json.arr items) ∈ d := by
    rw [hsplit]
    exact List.mem_append_right _ List.mem_cons_self
  exact canonicalFields_iff.mp hd _ hmem

theorem Store.Canonical.ofJson? {value : Json} (hv : JsonText.Canonical value)
    (h : Store.ofJson? value = some s) : s.Canonical := by
  cases value with
  | obj d =>
    unfold Store.ofJson? at h
    simp only [Json.fields?] at h
    split at h
    · next hversion hsessions hattempts hchildren =>
      split at h
      · cases h
        exact ⟨canonical_get hv.2 hsessions, canonical_get hv.2 hattempts,
          canonical_get hv.2 hchildren⟩
      · cases h
    · cases h
  | null => cases h
  | bool b => cases h
  | num n => cases h
  | str text => cases h
  | arr items => cases h

theorem canonical_readStore {file : Option StoreFile} (h : readStore file = .ok s) :
    s.Canonical := by
  cases file with
  | none =>
    cases h
    exact ⟨trivial, trivial, trivial⟩
  | some f =>
    simp only [readStore] at h
    split at h
    · cases h
    · split at h
      · cases h
      · split at h
        · cases h
        · next value hvalue =>
          split at h
          · cases h
          · next store hstore =>
            cases h
            exact .ofJson? (canonical_read hvalue) hstore

/-- The file that is written is read again as long as it is not too large. -/
theorem readStore_writeStore (hs : s.Canonical) (hsize : bytes s.text ≤ maxStoreBytes) :
    readStore (writeStore s) = .ok s := by
  have hread : read s.text = some s.toJson := read_render _ _ hs.toJson
  have hexposed : StoreFile.exposed { text := s.text } = false := by
    simpa [StoreFile.exposed] using hsize
  simp [readStore, writeStore, hexposed, hread, ofJson?_toJson]

theorem readStore_oversized (hsize : maxStoreBytes < bytes s.text) :
    readStore (writeStore s) = .error (.unavailable
      "private Todo credential store has unsafe ownership, permissions, or size") := by
  have hexposed : StoreFile.exposed { text := s.text } = true := by
    simpa [StoreFile.exposed] using hsize
  simp [readStore, writeStore, hexposed]

/-- What the code writes is accepted exactly up to the limit of the size. -/
theorem writeStore_accepted_iff (hs : s.Canonical) :
    (∃ store, readStore (writeStore s) = .ok store) ↔ bytes s.text ≤ maxStoreBytes := by
  constructor
  · rintro ⟨store, hstore⟩
    by_contra hsize
    rw [readStore_oversized (Nat.lt_of_not_le hsize)] at hstore
    cases hstore
  · exact fun hsize => ⟨s, readStore_writeStore hs hsize⟩

end Reading

section Sizes

theorem bytes_array_filter (keep : Json → Bool) (items : List Json) :
    bytes (render ⟨true, false⟩ (.arr (items.filter keep))) ≤
      bytes (render ⟨true, false⟩ (.arr items)) := by
  have hsum : ((items.filter keep).map (itemBytes true)).sum ≤ (items.map (itemBytes true)).sum :=
    (List.filter_sublist.map (itemBytes true)).sum_le_sum (fun n _ => Nat.zero_le n)
  cases items with
  | nil => exact Nat.le_refl _
  | cons v items =>
    rw [bytes_array v items]
    cases hkept : (v :: items).filter keep with
    | nil =>
      have hempty : bytes (render ⟨true, false⟩ (.arr [])) = 2 := rfl
      rw [hempty, List.map_cons, List.sum_cons, itemBytes]
      omega
    | cons w kept =>
      rw [hkept] at hsum
      rw [bytes_array w kept]
      omega

/-- Forgetting an entry never makes the file larger than the store as it stood. -/
theorem bytes_forget (s : Store) (keep : Json → Bool) :
    bytes (s.withPart .attempts (s.attempts.filter keep)).text ≤ bytes s.text := by
  have hattempts := bytes_array_filter keep s.attempts
  simp only [Store.text, Store.toJson, Store.withPart, render, bytes_cons, bytes_append]
  omega

end Sizes

section Changes

variable {s : Store} {call : Call} {part : Part} {key : Key} {entry : Json}

theorem part_withPart (s : Store) (part : Part) (records : List Json) :
    (s.withPart part records).part part = records := by
  cases part with
  | attempts => rfl
  | children => rfl

theorem part_withPart_of_ne {other : Part} (s : Store) (records : List Json) (h : other ≠ part) :
    (s.withPart part records).part other = s.part other := by
  cases part with
  | attempts =>
    cases other with
    | attempts => exact absurd rfl h
    | children => rfl
  | children =>
    cases other with
    | attempts => rfl
    | children => exact absurd rfl h

theorem Store.Canonical.withPart {records : List Json} (hs : s.Canonical) (part : Part)
    (hr : CanonicalItems records) : (s.withPart part records).Canonical := by
  cases part with
  | attempts => exact ⟨hs.sessions, hr, hs.children⟩
  | children => exact ⟨hs.sessions, hs.attempts, hr⟩

theorem canonical_part (hs : s.Canonical) (part : Part) : CanonicalItems (s.part part) := by
  cases part with
  | attempts => exact hs.attempts
  | children => exact hs.children

theorem addEntry_ensures {message : String} {records : List Json} :
    Ensures (addEntry message key entry records) (fun r =>
      entries records key = [] ∧ r = some (records ++ [entry]) ∨
        entries records key = [entry] ∧ r = none) := by
  unfold addEntry
  split
  · next hnone => exact Ensures.ok (Or.inl ⟨hnone, rfl⟩)
  · split
    · next hsame => exact Ensures.ok (Or.inr ⟨hsame, rfl⟩)
    · exact Ensures.error

/-- The entry is added under a free identity, or it is there already. -/
def Adds (s : Store) (part : Part) (key : Key) (entry : Json) (r : Option Store) : Prop :=
  entries (s.part part) key = [] ∧ r = some (s.withPart part (s.part part ++ [entry])) ∨
    entries (s.part part) key = [entry] ∧ r = none

theorem addEntry_adds {message : String} (part : Part) :
    Ensures (do
      let records ← addEntry message key entry (s.part part)
      return records.map (s.withPart part)) (Adds s part key entry) := by
  refine Ensures.bind addEntry_ensures (fun r hr => Ensures.pure ?_)
  rcases hr with ⟨hnone, rfl⟩ | ⟨hsame, rfl⟩
  · exact Or.inl ⟨hnone, rfl⟩
  · exact Or.inr ⟨hsame, rfl⟩

/-- What a call does to the store. -/
theorem change_ensures (call : Call) (s : Store) : Ensures (call.change s) (fun r =>
    (∃ part key entry, call.stores? = some (part, key, entry) ∧ Adds s part key entry r) ∨
    ∃ key, call.stores? = none ∧ call.forgets? = some (.attempts, key) ∧
      r = some (s.withPart .attempts (s.attempts.filter (!identifies key ·)))) := by
  cases call with
  | storeAttempt metadata principal attemptId bearerToken profile =>
    exact (addEntry_adds .attempts).mono (fun r hr => Or.inl ⟨_, _, _, rfl, hr⟩)
  | storeChild metadata principal parentAttemptId executionId childPrincipal bearerToken profile =>
    exact (addEntry_adds .children).mono (fun r hr => Or.inl ⟨_, _, _, rfl, hr⟩)
  | forgetAttempt metadata principal attemptId profile =>
    -- an item is among the found ones if and only if it has the identity
    have hkeep : s.attempts.filter (· ∉ entries s.attempts
        (attemptKey metadata principal profile attemptId)) =
        s.attempts.filter (!identifies (attemptKey metadata principal profile attemptId) ·) := by
      refine List.filter_congr (fun item hitem => ?_)
      simp [entries, hitem]
    simp only [Call.change, forgetAttemptBearer]
    split
    · exact Ensures.error
    · refine Ensures.ok (Or.inr ⟨_, rfl, rfl, ?_⟩)
      rw [hkeep]
      rfl

theorem identifies_unique {other : Key} {item : Json} (hnames : other.map Prod.fst = key.map Prod.fst)
    (h : identifies key item = true) (h' : identifies other item = true) : other = key := by
  cases item with
  | obj d =>
    simp only [identifies, List.all_eq_true, decide_eq_true_eq] at h h'
    induction key generalizing other with
    | nil => simpa using hnames
    | cons field key ih =>
      cases other with
      | nil => cases hnames
      | cons field' other =>
        simp only [List.map_cons, List.cons.injEq] at hnames
        have hvalue := h field List.mem_cons_self
        have hvalue' := h' field' List.mem_cons_self
        rw [hnames.1, hvalue, Option.some.injEq, Json.str.injEq] at hvalue'
        have hrest : other = key := ih hnames.2
          (fun e he => h e (List.mem_cons_of_mem _ he)) (fun e he => h' e (List.mem_cons_of_mem _ he))
        rw [hrest, Prod.ext hnames.1 hvalue'.symm]
  | null => cases h
  | bool b => cases h
  | num n => cases h
  | str text => cases h
  | arr items => cases h

/-- The entry that a call stores carries the identity under which it is looked up. -/
theorem stores_identifies (h : call.stores? = some (part, key, entry)) :
    identifies key entry = true ∧ key.map Prod.fst = part.names ∧ JsonText.Canonical entry := by
  cases call with
  | storeAttempt metadata principal attemptId bearerToken profile =>
    cases h
    refine ⟨?_, rfl, ?_⟩
    · simp [identifies, attemptKey, attemptEntry, Dict.get, List.lookup]
    · have hnames : ["attempt_id", "authority_id", "bearer_token", "principal_id", "profile",
          "project_id"].Pairwise (· < ·) := by decide
      exact ⟨List.pairwise_map.mp hnames, trivial, trivial, trivial, trivial, trivial, trivial,
        trivial⟩
  | forgetAttempt => cases h
  | storeChild metadata principal parentAttemptId executionId childPrincipal bearerToken profile =>
    cases h
    refine ⟨?_, rfl, ?_⟩
    · simp [identifies, childKey, childEntry, Dict.get, List.lookup]
    · have hnames : ["authority_id", "bearer_token", "child_principal_id", "execution_id",
          "parent_attempt_id", "principal_id", "profile", "project_id"].Pairwise (· < ·) := by
        decide
      exact ⟨List.pairwise_map.mp hnames, trivial, trivial, trivial, trivial, trivial, trivial,
        trivial, trivial, trivial⟩

end Changes

end ProjectControl.Tokens
