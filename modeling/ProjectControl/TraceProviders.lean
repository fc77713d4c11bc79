import Mathlib
import ProjectControl.TraceIndex

/-! The fragments of installed trace providers: each is checked against the inputs that the
provider observes and against the files themselves before it takes part in the overlay, and is
kept for as long as nothing it was made from has changed. -/

set_option autoImplicit false

namespace ProjectControl.TraceProviders

open Stamped
open TraceIndex
open Trace (Node Origin Resolution relativePath)

section Contracts

/-- `ValidationError` is a `ValueError`. -/
def invalid : Raised := ⟨.value, "ValidationError"⟩

/-- The fields of a document, which may have those of its contract only. -/
def contract (names : List String) : Json → Except Raised Dict
  | .obj fields => if fields.all (fun e => e.1 ∈ names) then .ok fields else .error invalid
  | _ => .error invalid

def textField (d : Dict) (key : String) : Except Raised String :=
  match Dict.get d key with
  | some (.str s) => .ok s
  | _ => .error invalid

def optionalText (d : Dict) (key : String) : Except Raised (Option String) :=
  match Dict.value d key with
  | .null => .ok none
  | .str s => .ok (some s)
  | _ => .error invalid

def inputKinds : List String :=
  ["file", "configuration", "provider", "exports", "manifest", "directory_membership", "registry",
    "environment", "semantic_revision"]

/-- `Sha256`. -/
def isSha256 (s : String) : Bool :=
  s.length = 64 && s.toList.all (fun c => ('0' ≤ c && c ≤ '9') || ('a' ≤ c && c ≤ 'f'))

/-- `ProviderInput.model_validate`. -/
def validInput (v : Json) : Except Raised ProviderInput := do
  let d ← contract ["kind", "key", "digest"] v
  let kind ← textField d "kind"
  let key ← textField d "key"
  let digest ← textField d "digest"
  if kind ∈ inputKinds ∧ isSha256 digest then pure ⟨kind, key, digest⟩ else .error invalid

/-- `EntityReference.model_validate`. -/
def validEntity (v : Json) : Except Raised Node := do
  let d ← contract ["project_uuid", "repository", "kind", "id", "path"] v
  let projectUuid ← textField d "project_uuid"
  let repository ← textField d "repository"
  let kind ← textField d "kind"
  let id ← textField d "id"
  let path ← optionalText d "path"
  match path with
  | none => pure ⟨projectUuid, repository, kind, id, none⟩
  | some path => do
    let path ← (relativePath path).mapError (fun _ => invalid)
    pure ⟨projectUuid, repository, kind, id, some path⟩

def originOf : String → Except Raised Origin
  | "observed" => .ok .observed
  | "project_declared" => .ok .projectDeclared
  | "candidate" => .ok .candidate
  | _ => .error invalid

def resolutionOf : String → Except Raised Resolution
  | "resolved" => .ok .resolved
  | "unresolved" => .ok .unresolved
  | "ambiguous" => .ok .ambiguous
  | "stale" => .ok .stale
  | _ => .error invalid

/-- `ImpactEdge`. -/
structure ImpactEdge where
  source : Node
  target : Node
  relation : String
  origin : Origin
  provider : String
  generation : String
  inputManifest : List ProviderInput
  resolution : Resolution
  witness : Option Dict
  changeConditions : Option (List String)
  deriving DecidableEq

def optionalObject (d : Dict) (key : String) : Except Raised (Option Dict) :=
  match Dict.value d key with
  | .null => .ok none
  | .obj fields => .ok (some fields)
  | _ => .error invalid

def textItem : Json → Except Raised String
  | .str s => .ok s
  | _ => .error invalid

def optionalTexts (d : Dict) (key : String) : Except Raised (Option (List String)) :=
  match Dict.value d key with
  | .null => .ok none
  | .arr items => some <$> items.mapM textItem
  | _ => .error invalid

/-- `ImpactEdge.model_validate`. -/
def validEdge (v : Json) : Except Raised ImpactEdge := do
  let d ← contract ["format", "source", "target", "relation", "origin", "provider", "generation",
    "input_manifest", "resolution", "witness", "change_conditions"] v
  let format := (Dict.get d "format").getD (.str "pc-impact-edge/1")
  let source ← validEntity (Dict.value d "source")
  let target ← validEntity (Dict.value d "target")
  let relation ← textField d "relation"
  let origin ← textField d "origin" >>= originOf
  let provider ← textField d "provider"
  let generation ← textField d "generation"
  let inputManifest ← match Dict.value d "input_manifest" with
    | .arr items => items.mapM validInput
    | _ => .error invalid
  let resolution ← textField d "resolution" >>= resolutionOf
  let witness ← optionalObject d "witness"
  let changeConditions ← optionalTexts d "change_conditions"
  if format = .str "pc-impact-edge/1" then
    pure { source, target, relation, origin, provider, generation, inputManifest, resolution
           witness, changeConditions }
  else .error invalid

end Contracts

section Installed

/-- `ProviderFragment`, with the rows as they come from a provider or as they were validated. -/
structure ProviderFragment (N E : Type) where
  provider : String
  generation : String
  inputs : List ProviderInput
  edges : List E
  nodes : List N
  relations : List String
  complete : Bool
  freshness : String
  gaps : List String
  deriving DecidableEq

abbrev RawFragment := ProviderFragment Json Json

abbrev ValidFragment := ProviderFragment Node ImpactEdge

/-- The declarations of a project and their revision. -/
structure SemanticContext where
  declarations : List Dict
  projectRevision : Json

/-- What `_installed` is given of a repository. -/
structure Observed extends Observation where
  project : String
  root : String
  /-- the deny patterns of the workspace -/
  deny : List String
  semanticContext : Option SemanticContext
  /-- `snapshot.todo_revision` -/
  semanticRevision : Json

/-- `TraceProvider`: installed code, which may answer otherwise at every call. -/
structure TraceProvider where
  supportedOptions : List String
  detect : ℕ → Observed → Except Raised Bool
  observe : ℕ → Observed → Dict → Except Raised (List Json)
  refresh : ℕ → Observed → Dict → List ProviderInput → Except Raised RawFragment

-- `providers` are the installed ones by their names, and `files` are the files under a root
variable (sha256 : ByteArray → String) (providers : String → TraceProvider)
variable (files : String → ℕ → View String Signature ByteArray Raised)

/-- The entry that an element of what `dict.update` takes stands for. -/
def optionEntry : Json → Except Raised (Json × Json)
  | .arr [.arr _, _] | .arr [.obj _, _] => .error ⟨.other, "TypeError"⟩
  | .arr [key, v] => .ok (key, v)
  | .obj [a, b] => .ok (.str a.1, .str b.1)
  | .str s =>
    match s.toList with
    | [a, b] => .ok (.str (String.singleton a), .str (String.singleton b))
    | _ => .error ⟨.value, "ValueError"⟩
  | .arr _ | .obj _ => .error ⟨.value, "ValueError"⟩
  | _ => .error ⟨.other, "TypeError"⟩

/-- The entries that `dict.update` takes, the last ones first. -/
def optionEntries : Json → Except Raised (List (Json × Json))
  | .obj fields => .ok (fields.map fun e => (.str e.1, e.2))
  | .arr items => List.reverse <$> items.mapM optionEntry
  | .str s => if s = "" then .ok [] else .error ⟨.value, "ValueError"⟩
  | _ => .error ⟨.other, "TypeError"⟩

/-- The options that the declarations of a project register for a provider, the last ones first. -/
def providerOptions (name : String) : List Dict → Except Raised (List (Json × Json))
  | [] => .ok []
  | record :: rest => do
    let own ←
      if Dict.value record "kind" = .str "provider" ∧ !(Dict.value record "retired").truthy ∧
          Dict.value record "origin" = .str "project_declared" then
        match Dict.get record "payload" with
        | none => .error ⟨.other, "KeyError"⟩
        | some (.obj payload) =>
          if Dict.value payload "provider_id" = .str name then
            optionEntries ((Dict.get payload "options").getD (.obj []))
          else .ok []
        | some _ => .error ⟨.other, "AttributeError"⟩
      else .ok []
    let others ← providerOptions name rest
    pure (others ++ own)

/-- The inputs that bind a fragment to what is declared for its project. -/
def contextInputs (obs : Observed) : List ProviderInput :=
  match obs.semanticContext with
  | none => []
  | some context =>
    [⟨"registry", obs.project, digest sha256 (.arr (context.declarations.map .obj))⟩,
      ⟨"semantic_revision", obs.project, digest sha256 context.projectRevision⟩]

/-- `_providers` and `_input_cache`. -/
structure Store where
  fragments : List ((String × String × String) × (String × ValidFragment)) := []
  inputs : List ((String × String) × (Signature × String)) := []

/-- The digest of a file, read again only where its signature has changed, and the cache and the
moment afterwards. -/
def fileDigest (root : String) (cache : List ((String × String) × (Signature × String))) (now : ℕ)
    (path : String) :
    Except Raised (String × List ((String × String) × (Signature × String)) × ℕ) := do
  let signature ← (files root now).stamp path
  match (cache.lookup (root, path)).filter (fun e => e.1 = signature) with
  | some e => pure (e.2, Keyed.assign cache (root, path) (signature, e.2), now + 1)
  | none => do
    let raw ← (files root (now + 1)).value path
    pure (sha256 raw, Keyed.assign cache (root, path) (signature, sha256 raw), now + 2)

/-- The check of the inputs, one after the other; the cache keeps what was read of them. -/
def checkInputs (obs : Observed) (cache : List ((String × String) × (Signature × String))) (now : ℕ) :
    List ProviderInput →
      Except Raised Unit × List ((String × String) × (Signature × String)) × ℕ
  | [] => (.ok (), cache, now)
  | item :: rest =>
    if item.kind ≠ "file" then checkInputs obs cache now rest
    else match checkedPath item.key >>= denied obs.deny with
      | .error e => (.error e, cache, now)
      | .ok true => (.error ⟨.os, "PermissionError"⟩, cache, now)
      | .ok false =>
        match fileDigest sha256 files obs.root cache now item.key with
        | .error e => (.error e, cache, now)
        | .ok (actual, cache, now) =>
          if actual ≠ item.digest then (.error ⟨.value, "ValueError"⟩, cache, now)
          else checkInputs obs cache now rest

def stampJson (name : String) (obs : Observed) (inputs : List ProviderInput) : Json :=
  .arr [.str name, .arr (inputs.map ProviderInput.json), .str obs.commit,
    .str obs.workingTreeFingerprint, .arr (obs.inputs.map ProviderInput.json)]

/-- The checks of an edge of a fragment. -/
def checkEdge (name : String) (obs : Observed) (inputs : List ProviderInput) (value : RawFragment)
    (edge : ImpactEdge) : Except Raised Unit :=
  if edge.source.projectUuid ≠ obs.projectUuid ∨ edge.source.repository ≠ obs.repository then
    .error ⟨.value, "ValueError"⟩
  else if edge.provider ≠ name ∨ edge.generation ≠ value.generation ∨
      edge.inputManifest ≠ inputs then
    .error ⟨.value, "ValueError"⟩
  else if edge.relation ∉ value.relations then .error ⟨.value, "ValueError"⟩
  else .ok ()

def validFragment (name : String) (obs : Observed) (inputs : List ProviderInput)
    (value : RawFragment) : Except Raised ValidFragment := do
  if value.provider ≠ name ∨ value.inputs ≠ inputs ∨ value.generation = "" then
    .error ⟨.value, "ValueError"⟩
  let nodes ← value.nodes.mapM validEntity
  let edges ← value.edges.mapM validEdge
  edges.forM (checkEdge name obs inputs value)
  pure { value with nodes, edges }

/-- The inputs and the options of a provider for a repository. -/
def observedInputs (name : String) (obs : Observed) (now : ℕ) :
    Except Raised (Dict × List ProviderInput) := do
  let entries ← providerOptions name ((obs.semanticContext.map (·.declarations)).getD [])
  if entries.any (fun e => e.1 ∉ (providers name).supportedOptions.map Json.str) then
    .error ⟨.value, "ValueError"⟩
  let options := entries.filterMap fun e => e.1.text?.map fun key => (key, e.2)
  let raw ← (providers name).observe now obs options
  let inputs ← raw.mapM validInput
  pure (options, inputs ++ contextInputs sha256 obs)

/-- The fragment for inputs that were checked, and the fragments that are kept afterwards. -/
def fragmentFor (name : String) (obs : Observed) (store : Store) (now : ℕ) (options : Dict)
    (inputs : List ProviderInput) : Except Raised ValidFragment × Store :=
  let stamp := digest sha256 (stampJson name obs inputs)
  let key := (obs.project, obs.repository, name)
  match (store.fragments.lookup key).filter (fun e => e.1 = stamp) with
  | some e => (.ok e.2, store)
  | none =>
    match (providers name).refresh now obs options inputs >>= validFragment name obs inputs with
    | .error e => (.error e, store)
    | .ok value =>
      (.ok value, { store with fragments := Keyed.assign store.fragments key (stamp, value) })

/-- `_installed`, with the moment after it. -/
def installed (name : String) (obs : Observed) (store : Store) (now : ℕ) :
    Except Raised ValidFragment × Store × ℕ :=
  match observedInputs sha256 providers name obs now with
  | .error e => (.error e, store, now)
  | .ok (options, inputs) =>
    match checkInputs sha256 files obs store.inputs (now + 1) inputs with
    | (.error e, cache, now) => (.error e, { store with inputs := cache }, now)
    | (.ok (), cache, now) =>
      let answer := fragmentFor sha256 providers name obs { store with inputs := cache } now options
        inputs
      (answer.1, answer.2, now + 1)

/-- The stores that come up while a service runs. Where the watcher was lost they are cleared. -/
inductive Reached : ℕ → Store → Prop
  | start (now : ℕ) : Reached now {}
  | wait {now later : ℕ} {store : Store} (h : Reached now store) (hle : now ≤ later) :
      Reached later store
  | cleared {now : ℕ} {store : Store} (h : Reached now store) : Reached now {}
  | installed {now : ℕ} {store : Store} (h : Reached now store) (name : String) (obs : Observed) :
      Reached (installed sha256 providers files name obs store now).2.2
        (installed sha256 providers files name obs store now).2.1

end Installed

section Digests

variable {sha256 : ByteArray → String}

theorem digest_inj (hsha : Function.Injective sha256) {v w : Json} (hv : JsonText.Canonical v)
    (hw : JsonText.Canonical w) (h : digest sha256 v = digest sha256 w) : v = w := by
  have htext := String.ofList_injective (String.toByteArray_inj.mp (hsha h))
  rw [JsonText.sortKeys_of_canonical v hv, JsonText.sortKeys_of_canonical w hw] at htext
  exact JsonText.render_injective hv hw htext

theorem canonical_inputs (inputs : List ProviderInput) :
    JsonText.Canonical (.arr (inputs.map ProviderInput.json)) := by
  have hkeys : ["digest", "key", "kind"].Pairwise (· < ·) := by decide +kernel
  apply JsonText.canonicalItems_iff.mpr
  intro v hv
  obtain ⟨i, -, rfl⟩ := List.mem_map.mp hv
  exact ⟨List.pairwise_map.mp hkeys, trivial, trivial, trivial, trivial⟩

theorem canonical_stamp (name : String) (obs : Observed) (inputs : List ProviderInput) :
    JsonText.Canonical (stampJson name obs inputs) :=
  ⟨trivial, canonical_inputs inputs, trivial, trivial, canonical_inputs obs.inputs, trivial⟩

theorem json_injective : Function.Injective ProviderInput.json := by
  intro i j h
  simp only [ProviderInput.json, Json.obj.injEq, List.cons.injEq, Prod.mk.injEq, Json.str.injEq,
    true_and, and_true] at h
  cases i
  cases j
  simp only [ProviderInput.mk.injEq]
  exact ⟨h.2.2, h.2.1, h.1⟩

/-- What a stamp tells of the observation that a fragment is made for. -/
structure SameSource (obs other : Observed) : Prop where
  project : other.project = obs.project
  repository : other.repository = obs.repository
  commit : other.commit = obs.commit
  workingTreeFingerprint : other.workingTreeFingerprint = obs.workingTreeFingerprint
  inputs : other.inputs = obs.inputs

theorem stamp_inj (hsha : Function.Injective sha256) {name name' : String} {obs obs' : Observed}
    {inputs inputs' : List ProviderInput}
    (h : digest sha256 (stampJson name obs inputs) = digest sha256 (stampJson name' obs' inputs')) :
    inputs = inputs' ∧ obs.commit = obs'.commit ∧
      obs.workingTreeFingerprint = obs'.workingTreeFingerprint ∧ obs.inputs = obs'.inputs := by
  have heq := digest_inj hsha (canonical_stamp name obs inputs) (canonical_stamp name' obs' inputs') h
  simp only [stampJson, Json.arr.injEq, List.cons.injEq, Json.str.injEq, and_true] at heq
  obtain ⟨-, hinputs, hcommit, hfingerprint, hrepository⟩ := heq
  exact ⟨List.map_injective_iff.mpr json_injective hinputs, hcommit, hfingerprint,
    List.map_injective_iff.mpr json_injective hrepository⟩

end Digests

section Checks

variable {sha256 : ByteArray → String} {providers : String → TraceProvider}
  {files : String → ℕ → View String Signature ByteArray Raised}
  {cache cache' : List ((String × String) × (Signature × String))} {now now' : ℕ}
  {name root path : String} {obs : Observed} {inputs : List ProviderInput}

/-- The digests of the files under a root. -/
def digested (sha256 : ByteArray → String)
    (files : String → ℕ → View String Signature ByteArray Raised) (root : String) (t : ℕ) :
    View String Signature String Raised :=
  (files root t).through fun _ raw => .ok (sha256 raw)

/-- The digests that are kept were those of the files after their signatures were taken. -/
def SoundInputs (sha256 : ByteArray → String)
    (files : String → ℕ → View String Signature ByteArray Raised) (now : ℕ)
    (cache : List ((String × String) × (Signature × String))) : Prop :=
  ∀ root path signature actual, cache.lookup (root, path) = some (signature, actual) →
    Kept (digested sha256 files root) 0 now path signature actual

theorem SoundInputs.assign {signature : Signature} {actual : String}
    (h : SoundInputs sha256 files now cache) (hle : now ≤ now')
    (hkept : Kept (digested sha256 files root) now now' path signature actual) :
    SoundInputs sha256 files now' (Keyed.assign cache (root, path) (signature, actual)) := by
  intro root' path' signature' actual' hlookup
  rw [Keyed.lookup_assign] at hlookup
  split_ifs at hlookup with hkey
  · cases hkey
    cases hlookup
    exact hkept.mono (Nat.zero_le _) le_rfl
  · exact (h root' path' signature' actual' hlookup).mono le_rfl hle

theorem fileDigest_spec (hfiles : ∀ root, Telling (files root))
    (hsound : SoundInputs sha256 files now cache) {actual : String}
    (h : fileDigest sha256 files root cache now path = .ok (actual, cache', now')) :
    now < now' ∧ SoundInputs sha256 files now' cache' ∧ ∃ u, now ≤ u ∧ u < now' ∧
      (digested sha256 files root u).value path = .ok actual := by
  have hdigests : Telling (digested sha256 files root) := (hfiles root).through _
  unfold fileDigest at h
  obtain ⟨signature, hstamp, h⟩ := Ensures.bind_eq_ok.mp h
  cases hfound : (cache.lookup (root, path)).filter (fun e => e.1 = signature) with
  | some e =>
    simp only [hfound, pure, Except.pure, Except.ok.injEq, Prod.mk.injEq] at h
    obtain ⟨rfl, rfl, rfl⟩ := h
    obtain ⟨hlookup, hsame⟩ := Option.filter_eq_some_iff.mp hfound
    have hsignature : e.1 = signature := of_decide_eq_true hsame
    -- the file is as it was when it was read
    have hkept : Kept (digested sha256 files root) now (now + 1) path signature e.2 :=
      (hsound root path signature e.2 (by rw [hlookup, ← hsignature])).renew hdigests le_rfl hstamp
    obtain ⟨t, u, ht, htu, hu, -, hvalue⟩ := id hkept
    exact ⟨Nat.lt_succ_self _, hsound.assign (Nat.le_succ _) hkept, u, by omega, hu, hvalue⟩
  | none =>
    simp only [hfound] at h
    obtain ⟨raw, hread, h⟩ := Ensures.bind_eq_ok.mp h
    simp only [pure, Except.pure, Except.ok.injEq, Prod.mk.injEq] at h
    obtain ⟨rfl, rfl, rfl⟩ := h
    have hvalue : (digested sha256 files root (now + 1)).value path = .ok (sha256 raw) := by
      simp only [digested, View.through, hread, bind, Except.bind]
    have hkept : Kept (digested sha256 files root) now (now + 2) path signature (sha256 raw) :=
      kept_of_read hstamp hvalue
    exact ⟨by omega, hsound.assign (by omega) hkept, now + 1, by omega, by omega, hvalue⟩

/-- A file input that was not refused: the file had its digest at some moment. -/
def InputHolds (sha256 : ByteArray → String)
    (files : String → ℕ → View String Signature ByteArray Raised) (obs : Observed)
    (now finish : ℕ) (item : ProviderInput) : Prop :=
  item.kind = "file" → denied obs.deny item.key = .ok false ∧ ∃ u, now ≤ u ∧ u < finish ∧
    (digested sha256 files obs.root u).value item.key = .ok item.digest

theorem InputHolds.mono {now₀ finish finish' : ℕ} {item : ProviderInput}
    (h : InputHolds sha256 files obs now finish item) (hnow : now₀ ≤ now)
    (hfinish : finish ≤ finish') : InputHolds sha256 files obs now₀ finish' item := by
  intro hkind
  obtain ⟨hdenied, u, hu, hlt, hvalue⟩ := h hkind
  exact ⟨hdenied, u, by omega, by omega, hvalue⟩

theorem denied_of_checked {patterns : List String}
    (h : checkedPath path >>= denied patterns = .ok false) : denied patterns path = .ok false := by
  obtain ⟨checked, hchecked, h⟩ := Ensures.bind_eq_ok.mp h
  rwa [checkedPath_eq hchecked] at h

theorem checkInputs_spec (hfiles : ∀ root, Telling (files root))
    (hsound : SoundInputs sha256 files now cache) {result : Except Raised Unit}
    (h : checkInputs sha256 files obs cache now inputs = (result, cache', now')) :
    now ≤ now' ∧ SoundInputs sha256 files now' cache' ∧
      (result = .ok () → ∀ item ∈ inputs, InputHolds sha256 files obs now now' item) := by
  induction inputs generalizing cache now with
  | nil =>
    cases h
    exact ⟨le_rfl, hsound, fun _ _ hmem => nomatch hmem⟩
  | cons item rest ih =>
    have hstopped (e : Raised) (heq : (Except.error e, cache, now) = (result, cache', now')) :
        now ≤ now' ∧ SoundInputs sha256 files now' cache' ∧ (result = .ok () →
          ∀ i ∈ item :: rest, InputHolds sha256 files obs now now' i) := by
      cases heq
      exact ⟨le_rfl, hsound, fun hok => nomatch hok⟩
    unfold checkInputs at h
    by_cases hkind : item.kind = "file"
    · rw [if_neg (not_not.mpr hkind)] at h
      cases hcheck : checkedPath item.key >>= denied obs.deny with
      | error e =>
        rw [hcheck] at h
        exact hstopped e h
      | ok isDenied =>
        rw [hcheck] at h
        cases isDenied with
        | true => exact hstopped _ h
        | false =>
          dsimp only at h
          cases hdigest : fileDigest sha256 files obs.root cache now item.key with
          | error e =>
            rw [hdigest] at h
            exact hstopped e h
          | ok found =>
            obtain ⟨actual, cache₁, now₁⟩ := found
            rw [hdigest] at h
            dsimp only at h
            obtain ⟨hlt, hsound₁, u, hu, hult, hvalue⟩ := fileDigest_spec hfiles hsound hdigest
            by_cases hactual : actual = item.digest
            · rw [if_neg (not_not.mpr hactual)] at h
              obtain ⟨hle, hsound', hrest⟩ := ih hsound₁ h
              refine ⟨by omega, hsound', fun hok => ?_⟩
              intro i hi
              rcases List.mem_cons.mp hi with rfl | hi
              · intro _
                refine ⟨denied_of_checked hcheck, u, hu, by omega, ?_⟩
                rw [hvalue, hactual]
              · exact (hrest hok i hi).mono hlt.le le_rfl
            · rw [if_pos hactual] at h
              cases h
              exact ⟨hlt.le, hsound₁, fun hok => nomatch hok⟩
    · rw [if_pos hkind] at h
      obtain ⟨hle, hsound', hrest⟩ := ih hsound h
      refine ⟨hle, hsound', fun hok i hi => ?_⟩
      rcases List.mem_cons.mp hi with rfl | hi
      · exact fun hfile => absurd hfile hkind
      · exact hrest hok i hi

end Checks

section Fragments

variable {sha256 : ByteArray → String} {providers : String → TraceProvider}
  {files : String → ℕ → View String Signature ByteArray Raised} {now later : ℕ} {store : Store}
  {name : String} {obs : Observed} {inputs : List ProviderInput} {value : ValidFragment}

/-- A fragment that may take part in the overlay, for the observation it was made for. -/
structure Valid (name : String) (obs : Observed) (inputs : List ProviderInput)
    (value : ValidFragment) : Prop where
  provider : value.provider = name
  manifest : value.inputs = inputs
  generation : value.generation ≠ ""
  source : ∀ e ∈ value.edges,
    e.source.projectUuid = obs.projectUuid ∧ e.source.repository = obs.repository
  identity : ∀ e ∈ value.edges,
    e.provider = name ∧ e.generation = value.generation ∧ e.inputManifest = inputs
  relation : ∀ e ∈ value.edges, e.relation ∈ value.relations

theorem checkEdge_spec {raw : RawFragment} {edge : ImpactEdge}
    (h : checkEdge name obs inputs raw edge = .ok ()) :
    (edge.source.projectUuid = obs.projectUuid ∧ edge.source.repository = obs.repository) ∧
      (edge.provider = name ∧ edge.generation = raw.generation ∧ edge.inputManifest = inputs) ∧
      edge.relation ∈ raw.relations := by
  unfold checkEdge at h
  split_ifs at h with hsource hidentity hrelation
  push Not at hsource hidentity
  exact ⟨hsource, hidentity, hrelation⟩

theorem validFragment_spec {raw : RawFragment} (h : validFragment name obs inputs raw = .ok value) :
    Valid name obs inputs value := by
  unfold validFragment at h
  by_cases hbad : raw.provider ≠ name ∨ raw.inputs ≠ inputs ∨ raw.generation = ""
  · rw [if_pos hbad] at h
    cases h
  · rw [if_neg hbad] at h
    push Not at hbad
    obtain ⟨nodes, -, h⟩ := Ensures.bind_eq_ok.mp h
    obtain ⟨edges, -, h⟩ := Ensures.bind_eq_ok.mp h
    obtain ⟨u, hchecks, h⟩ := Ensures.bind_eq_ok.mp h
    cases h
    have hall : ∀ e ∈ edges, checkEdge name obs inputs raw e = .ok () :=
      Ensures.forM (fun e _ => Ensures.of_eq) u hchecks
    exact ⟨hbad.1, hbad.2.1, hbad.2.2, fun e he => (checkEdge_spec (hall e he)).1,
      fun e he => (checkEdge_spec (hall e he)).2.1, fun e he => (checkEdge_spec (hall e he)).2.2⟩

/-- The provider gave the fragment for this observation and these inputs, and it was valid. -/
def Made (providers : String → TraceProvider) (now : ℕ) (name : String) (obs : Observed)
    (inputs : List ProviderInput) (value : ValidFragment) : Prop :=
  ∃ u options raw, u < now ∧ (providers name).refresh u obs options inputs = .ok raw ∧
    validFragment name obs inputs raw = .ok value

theorem Made.mono (h : Made providers now name obs inputs value) (hle : now ≤ later) :
    Made providers later name obs inputs value := by
  obtain ⟨u, options, raw, hu, hrefresh, hvalid⟩ := h
  exact ⟨u, options, raw, by omega, hrefresh, hvalid⟩

theorem Made.valid (h : Made providers now name obs inputs value) : Valid name obs inputs value := by
  obtain ⟨u, options, raw, -, -, hvalid⟩ := h
  exact validFragment_spec hvalid

/-- What a store keeps was made for the observation that its key and its stamp tell of. -/
structure Sound (sha256 : ByteArray → String) (providers : String → TraceProvider)
    (files : String → ℕ → View String Signature ByteArray Raised) (now : ℕ) (store : Store) :
    Prop where
  inputs : SoundInputs sha256 files now store.inputs
  fragments : ∀ project repository name stamp value,
    store.fragments.lookup (project, repository, name) = some (stamp, value) → ∃ obs inputs,
      obs.project = project ∧ obs.repository = repository ∧
      stamp = digest sha256 (stampJson name obs inputs) ∧ Made providers now name obs inputs value

theorem sound_empty : Sound sha256 providers files now {} where
  inputs := fun _ _ _ _ h => nomatch h
  fragments := fun _ _ _ _ _ h => nomatch h

theorem Sound.mono (h : Sound sha256 providers files now store) (hle : now ≤ later) :
    Sound sha256 providers files later store where
  inputs := fun root path signature actual hlookup =>
    (h.inputs root path signature actual hlookup).mono le_rfl hle
  fragments := by
    intro project repository name stamp value hlookup
    obtain ⟨obs, inputs, hproject, hrepository, hstamp, hmade⟩ :=
      h.fragments project repository name stamp value hlookup
    exact ⟨obs, inputs, hproject, hrepository, hstamp, hmade.mono hle⟩

theorem fragmentFor_sound {options : Dict} (h : Sound sha256 providers files now store) :
    Sound sha256 providers files (now + 1)
      (fragmentFor sha256 providers name obs store now options inputs).2 := by
  unfold fragmentFor
  dsimp only
  cases hfound : (store.fragments.lookup (obs.project, obs.repository, name)).filter
      (fun e => e.1 = digest sha256 (stampJson name obs inputs)) with
  | some e => exact h.mono (Nat.le_succ now)
  | none =>
    dsimp only
    split
    · exact h.mono (Nat.le_succ now)
    · next value hvalue =>
      obtain ⟨raw, hrefresh, hvalid⟩ := Ensures.bind_eq_ok.mp hvalue
      refine ⟨(h.mono (Nat.le_succ now)).inputs, ?_⟩
      intro project repository name' stamp value' hlookup
      dsimp only at hlookup
      rw [Keyed.lookup_assign] at hlookup
      by_cases hkey : (project, repository, name') = (obs.project, obs.repository, name)
      · rw [if_pos hkey] at hlookup
        cases hkey
        cases hlookup
        exact ⟨obs, inputs, rfl, rfl, rfl, now, options, raw, Nat.lt_succ_self now, hrefresh,
          hvalid⟩
      · rw [if_neg hkey] at hlookup
        exact (h.mono (Nat.le_succ now)).fragments project repository name' stamp value' hlookup

/-- A fragment is given for the same source and the same inputs, now or by an earlier call. -/
theorem fragmentFor_made (hsha : Function.Injective sha256) {options : Dict}
    (h : Sound sha256 providers files now store)
    (hanswer : (fragmentFor sha256 providers name obs store now options inputs).1 = .ok value) :
    ∃ other, SameSource obs other ∧ Made providers (now + 1) name other inputs value := by
  unfold fragmentFor at hanswer
  dsimp only at hanswer
  cases hfound : (store.fragments.lookup (obs.project, obs.repository, name)).filter
      (fun e => e.1 = digest sha256 (stampJson name obs inputs)) with
  | some e =>
    rw [hfound] at hanswer
    cases hanswer
    obtain ⟨hlookup, hsame⟩ := Option.filter_eq_some_iff.mp hfound
    obtain ⟨other, inputs', hproject, hrepository, hstamp, hmade⟩ :=
      h.fragments obs.project obs.repository name e.1 e.2 hlookup
    have hstamps : e.1 = digest sha256 (stampJson name obs inputs) := of_decide_eq_true hsame
    obtain ⟨rfl, hcommit, hfingerprint, hinputs⟩ := stamp_inj hsha (hstamp.symm.trans hstamps)
    exact ⟨other, ⟨hproject, hrepository, hcommit, hfingerprint, hinputs⟩,
      hmade.mono (Nat.le_succ now)⟩
  | none =>
    rw [hfound] at hanswer
    dsimp only at hanswer
    split at hanswer
    · cases hanswer
    · next value' hvalue =>
      cases hanswer
      obtain ⟨raw, hrefresh, hvalid⟩ := Ensures.bind_eq_ok.mp hvalue
      exact ⟨obs, ⟨rfl, rfl, rfl, rfl, rfl⟩, now, options, raw, Nat.lt_succ_self now, hrefresh,
        hvalid⟩

theorem installed_sound (hfiles : ∀ root, Telling (files root))
    (h : Sound sha256 providers files now store) :
    now ≤ (installed sha256 providers files name obs store now).2.2 ∧
      Sound sha256 providers files (installed sha256 providers files name obs store now).2.2
        (installed sha256 providers files name obs store now).2.1 := by
  unfold installed
  cases hinputs : observedInputs sha256 providers name obs now with
  | error e => exact ⟨le_rfl, h⟩
  | ok found =>
    obtain ⟨options, inputs⟩ := found
    dsimp only
    rcases hcheck : checkInputs sha256 files obs store.inputs (now + 1) inputs with
      ⟨result, cache, now'⟩
    obtain ⟨hle, hsound, -⟩ :=
      checkInputs_spec hfiles (h.mono (Nat.le_succ now)).inputs hcheck
    have hstore : Sound sha256 providers files now' { store with inputs := cache } :=
      ⟨hsound, (h.mono (by omega)).fragments⟩
    cases result with
    | error e => exact ⟨by dsimp only; omega, hstore⟩
    | ok u => exact ⟨by dsimp only; omega, fragmentFor_sound hstore⟩

theorem reached_sound (hfiles : ∀ root, Telling (files root))
    (h : Reached sha256 providers files now store) : Sound sha256 providers files now store := by
  induction h with
  | start _ => exact sound_empty
  | wait _ hle ih => exact ih.mono hle
  | cleared _ _ => exact sound_empty
  | installed _ name obs ih => exact (installed_sound hfiles ih).2

/-- Whatever a service has kept: a fragment that it answers with is for the inputs that the provider
observes in this call, whose files were not denied and had their digests while the call was made; it
was made, now or by an earlier call, for the same state of the repository, and it was valid. -/
theorem installed_is_valid (hsha : Function.Injective sha256) (hfiles : ∀ root, Telling (files root))
    (hreached : Reached sha256 providers files now store) {store' : Store} {finish : ℕ}
    (h : installed sha256 providers files name obs store now = (.ok value, store', finish)) :
    ∃ options inputs other, observedInputs sha256 providers name obs now = .ok (options, inputs) ∧
      (∀ item ∈ inputs, InputHolds sha256 files obs now finish item) ∧ SameSource obs other ∧
      Made providers finish name other inputs value ∧ Valid name other inputs value := by
  have hsound := reached_sound hfiles hreached
  unfold installed at h
  cases hinputs : observedInputs sha256 providers name obs now with
  | error e => rw [hinputs] at h; cases h
  | ok found =>
    obtain ⟨options, inputs⟩ := found
    rw [hinputs] at h
    dsimp only at h
    rcases hcheck : checkInputs sha256 files obs store.inputs (now + 1) inputs with
      ⟨result, cache, now'⟩
    rw [hcheck] at h
    obtain ⟨hle, hcache, hchecked⟩ :=
      checkInputs_spec hfiles (hsound.mono (Nat.le_succ now)).inputs hcheck
    cases result with
    | error e => cases h
    | ok u =>
      simp only [Prod.mk.injEq] at h
      obtain ⟨hanswer, rfl, rfl⟩ := h
      have hstore : Sound sha256 providers files now' { store with inputs := cache } :=
        ⟨hcache, (hsound.mono (by omega)).fragments⟩
      obtain ⟨other, hother, hmade⟩ := fragmentFor_made hsha hstore hanswer
      refine ⟨options, inputs, other, rfl, fun item hitem => ?_, hother, hmade, hmade.valid⟩
      exact (hchecked rfl item hitem).mono (Nat.le_succ now) (Nat.le_succ now')

end Fragments

section Examples

/-- Bytes as characters, which no two texts share. -/
def plainDigest (raw : ByteArray) : String :=
  String.ofList ('x' :: raw.data.toList.map (fun b => Char.ofNat b.toNat))

theorem plainDigest_injective : Function.Injective plainDigest := by
  intro raw raw' h
  have hchars : Function.Injective fun b : UInt8 => Char.ofNat b.toNat := by
    intro b c hbc
    have hvalid (n : UInt8) : n.toNat.isValidChar := by
      have := n.toNat_lt
      exact Or.inl (by omega)
    have hnat := congrArg Char.toNat hbc
    simp only [Char.toNat_ofNat, hvalid, if_true] at hnat
    exact UInt8.toNat_inj.mp hnat
  have hlist := List.map_injective_iff.mpr hchars (List.cons.inj (String.ofList_injective h)).2
  exact ByteArray.ext (Array.toList_inj.mp hlist)

def flags : ByteArray := "\x7b\"flags\":[]\x7d".toByteArray

def flagsDigest : String := "ccbb299897f0a6899aa1d76575c9338d15fdf0c96348f14c02712008f899f7ad"

/-- A digest without collisions that is that of the configuration. -/
def demoSha256 (raw : ByteArray) : String :=
  if raw = flags then flagsDigest else plainDigest raw

theorem demoSha256_injective : Function.Injective demoSha256 := by
  have hapart (raw : ByteArray) : plainDigest raw ≠ flagsDigest := by
    intro h
    have hchars := congrArg String.toList h
    rw [plainDigest, String.toList_ofList] at hchars
    have hhead := congrArg List.head? hchars
    rw [List.head?_cons] at hhead
    exact absurd hhead (by decide +kernel)
  intro raw raw' h
  unfold demoSha256 at h
  split_ifs at h with hraw hraw' hraw'
  · rw [hraw, hraw']
  · exact absurd h.symm (hapart raw')
  · exact absurd h (hapart raw)
  · exact plainDigest_injective h

def flagsInput : ProviderInput := ⟨"file", "flags.json", flagsDigest⟩

def entity (id : String) : Json :=
  .obj [("project_uuid", .str "uuid-1"), ("repository", .str "main@1"), ("kind", .str "symbol"),
    ("id", .str id)]

/-- A provider that reads its configuration and reports one call. -/
def callsProvider : TraceProvider where
  supportedOptions := []
  detect := fun _ obs => .ok (obs.membership.contains "flags.json")
  observe := fun _ _ _ => .ok [flagsInput.json]
  refresh := fun _ _ _ inputs => .ok
    { provider := "calls/1", generation := "g1", inputs
      edges := [.obj [("source", entity "main"), ("target", entity "run"), ("relation", .str "calls"),
        ("origin", .str "observed"), ("provider", .str "calls/1"), ("generation", .str "g1"),
        ("input_manifest", .arr (inputs.map ProviderInput.json)), ("resolution", .str "resolved")]]
      nodes := [entity "main", entity "run"], relations := ["calls"], complete := true
      freshness := "current", gaps := [] }

/-- The configuration is there all the time. -/
def demoFiles (_root : String) (_t : ℕ) : View String Signature ByteArray Raised where
  stamp := fun path =>
    if path = "flags.json" then .ok ⟨[], (1, 7, 12, 100, 300)⟩ else .error ⟨.os, "OSError"⟩
  value := fun path => if path = "flags.json" then .ok flags else .error ⟨.os, "OSError"⟩

def demoObserved : Observed where
  projectUuid := "uuid-1"
  repository := "main@1"
  «alias» := "main"
  commit := "c0ffee"
  workingTreeFingerprint := "clean"
  fragments := []
  membership := ["flags.json"]
  inputs := []
  freshness := "current"
  gaps := []
  project := "atlas"
  root := "/work"
  deny := []
  semanticContext := none
  semanticRevision := .num 7

abbrev demoInstalled (store : Store) (now : ℕ) : Except Raised ValidFragment × Store × ℕ :=
  installed demoSha256 (fun _ => callsProvider) demoFiles "calls/1" demoObserved store now

theorem kept_fragment_is_valid : ∃ value,
    (demoInstalled (demoInstalled {} 0).2.1 10).1 = .ok value ∧
    (demoInstalled {} 0).2.1.fragments.length = 1 ∧
    value.edges.map (fun e => (e.source.id, e.target.id)) = [("main", "run")] ∧
    ∃ options inputs other,
      observedInputs demoSha256 (fun _ => callsProvider) "calls/1" demoObserved 10 =
        .ok (options, inputs) ∧
      (∀ item ∈ inputs, InputHolds demoSha256 demoFiles demoObserved 10
        (demoInstalled (demoInstalled {} 0).2.1 10).2.2 item) ∧
      SameSource demoObserved other ∧
      Made (fun _ => callsProvider) (demoInstalled (demoInstalled {} 0).2.1 10).2.2 "calls/1" other
        inputs value ∧ Valid "calls/1" other inputs value := by
  have hsome : ((demoInstalled (demoInstalled {} 0).2.1 10).1.toOption.map fun value =>
      value.edges.map fun e => (e.source.id, e.target.id)) = some [("main", "run")] := by
    decide +kernel
  obtain ⟨value, hvalue, hedges⟩ := Option.map_eq_some_iff.mp hsome
  have hanswer : demoInstalled (demoInstalled {} 0).2.1 10 = (.ok value,
      (demoInstalled (demoInstalled {} 0).2.1 10).2) := Prod.ext (Ensures.ok_of_toOption hvalue) rfl
  have hfiles : ∀ root, Telling (demoFiles root) := fun _ _ _ _ _ _ _ _ _ _ => rfl
  have hreached : Reached demoSha256 (fun _ => callsProvider) demoFiles 10
      (demoInstalled {} 0).2.1 :=
    .wait (.installed (.start 0) "calls/1" demoObserved) (by decide +kernel)
  exact ⟨value, congrArg Prod.fst hanswer, by decide +kernel, hedges,
    installed_is_valid demoSha256_injective hfiles hreached hanswer⟩

end Examples

end ProjectControl.TraceProviders
