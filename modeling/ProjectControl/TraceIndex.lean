import Mathlib
import ProjectControl.DenyBoundary
import ProjectControl.ImpactTrace
import ProjectControl.Keyed
import ProjectControl.SortedKeys
import ProjectControl.StampedReads

/-! The source fragments of the dependency overlay: a refresh of a repository parses only the files
whose stat identity has changed since the last one, while files may change at any time. -/

set_option autoImplicit false

namespace ProjectControl.TraceIndex

open Stamped
open Trace (relativePath)

section Refresh

/-- The exceptions that a refresh tells apart; `UnicodeError` is a `ValueError`. -/
inductive Kind
  | os
  | value
  | grammar
  | other
  deriving DecidableEq

/-- An exception, with the name of its type. -/
structure Raised where
  kind : Kind
  name : String
  deriving DecidableEq

/-- `_file_signature`: device, inode and change time of every parent; of the file also its size
and its modification time. -/
structure Signature where
  parents : List (ℕ × ℕ × ℤ)
  leaf : ℕ × ℕ × ℕ × ℤ × ℤ
  deriving DecidableEq

/-- What `_parse` finds in a source. -/
structure Parsed where
  refs : List Json
  definitions : List String
  gaps : List String
  deriving DecidableEq

structure Fragment extends Parsed where
  digest : String
  deriving DecidableEq

/-- `(identity.commit, identity.status_fingerprint)`. -/
abbrev Token := String × String

/-- What a repository shows to one call at one moment. -/
structure Checkout where
  identity : Except Raised Token
  trackedFiles : Except Raised (List String)
  /-- the untracked names, split at NUL -/
  others : Except Raised (List String)
  commonDir : Except Raised String
  files : View String Signature ByteArray Raised

structure RepositoryCache where
  identity : Option Token := none
  membership : List String := []
  fragments : List (String × Fragment) := []
  signatures : List (String × Signature) := []
  deriving DecidableEq

def hasSuffix (suffixes : List String) (path : String) : Bool :=
  suffixes.any (fun suffix => suffix.toList.isSuffixOf path.toList)

def manifests : List String := ["pyproject.toml", "package.json", "Cargo.toml"]

def supported (path : String) : Bool :=
  hasSuffix [".py", ".md", ".markdown"] path || manifests.contains path

def needsExport (path : String) : Bool :=
  hasSuffix [".cpp", ".cc", ".h", ".hpp", ".cu", ".ts", ".rs", ".go", ".java", ".cs"] path

/-- The paths whose signature is missed. -/
def missed (path : String) : Bool := hasSuffix [".py", ".md", ".markdown", ".toml", ".json"] path

def unavailableSource (path : String) (e : Raised) : String :=
  "unavailable_source:" ++ path ++ ":" ++ e.name

/-- `relative_path` and `is_denied`, which raise a `ValueError`. -/
def checkedPath (path : String) : Except Raised String :=
  (relativePath path).mapError (fun _ => ⟨.value, "ValueError"⟩)

def denied (patterns : List String) (path : String) : Except Raised Bool :=
  (Security.isDenied (Security.PurePath.read path).parts
    (Security.defaultDenyPatterns ++ patterns)).mapError (fun _ => ⟨.value, "ValueError"⟩)

def decodeUtf8 (raw : ByteArray) : Except Raised String :=
  match String.fromUTF8? raw with
  | some text => .ok text
  | none => .error ⟨.value, "UnicodeDecodeError"⟩

-- `parse` stands for `_parse`, and `patterns` are the deny patterns of the workspace
variable (sha256 : ByteArray → String)
variable (parse : String → String → Except Raised Parsed) (patterns : List String) (maxFiles : ℕ)
variable (checkout : ℕ → Checkout)

/-- What is kept of a file's bytes. -/
def fragmentOf (path : String) (raw : ByteArray) : Except Raised Fragment := do
  let text ← decodeUtf8 raw
  let parsed ← parse path text
  pure { parsed with digest := sha256 raw }

/-- The files of a moment, parsed. -/
def parsedFiles (c : Checkout) : View String Signature Fragment Raised :=
  c.files.through (fragmentOf sha256 parse)

/-- The paths that are not denied. -/
def allowedPaths : List String → Except Raised (List String)
  | [] => .ok []
  | path :: rest => do
    let isDenied ← denied patterns path
    let allowed ← allowedPaths rest
    pure (if isDenied then allowed else path :: allowed)

def listedPaths (tracked others : List String) : Except Raised (List String) :=
  allowedPaths patterns ((tracked ++ others.filter (· ≠ "")).dedup.insertionSort (· ≤ ·))

/-- How far a refresh has come. -/
structure Scan where
  now : ℕ
  retained : List (String × Fragment)
  signatures : List (String × Signature)
  gaps : List String
  deriving DecidableEq

def signatureAt (c : Checkout) (path : String) : Except Raised Signature :=
  checkedPath path >>= c.files.stamp

/-- The fragment that need not be parsed again. -/
def previous (cache : RepositoryCache) (force : Bool) (path : String) (signature : Signature) :
    Option Fragment :=
  if !force ∧ cache.signatures.lookup path = some signature then cache.fragments.lookup path
  else none

def Scan.sign (s : Scan) (path : String) (signature : Signature) : Scan :=
  { s with now := s.now + 1, signatures := Keyed.assign s.signatures path signature }

def Scan.retain (s : Scan) (path : String) (fragment : Fragment) : Scan :=
  { s with retained := Keyed.assign s.retained path fragment }

def Scan.note (s : Scan) (gap : String) : Scan := { s with gaps := s.gaps ++ [gap] }

def Scan.wait (s : Scan) : Scan := { s with now := s.now + 1 }

/-- One path of a refresh. Between the look at the signature and the reading of the bytes the file
may change, as between any two accesses. -/
def visit (cache : RepositoryCache) (force : Bool) (s : Scan) (path : String) :
    Except Raised Scan :=
  match signatureAt (checkout s.now) path with
  | .error e =>
    if e.kind = .os ∨ e.kind = .value then
      .ok (if missed path then s.wait.note (unavailableSource path e) else s.wait)
    else .error e
  | .ok signature =>
    let s := s.sign path signature
    if !supported path then
      .ok (if needsExport path then s.note ("installed_semantic_export_required:" ++ path) else s)
    else match previous cache force path signature with
      | some fragment => .ok (s.retain path fragment)
      | none =>
        match (parsedFiles sha256 parse (checkout s.now)).value path with
        | .ok fragment => .ok (s.wait.retain path fragment)
        | .error e =>
          if e.kind = .other then .error e else .ok (s.wait.note (unavailableSource path e))

/-- What the calls of a refresh have found before the repository is named. -/
structure Survey where
  token : Token
  membership : List String
  scan : Scan
  stable : Bool
  deriving DecidableEq

def survey (now : ℕ) (cache : RepositoryCache) (force : Bool) : Except Raised Survey := do
  let token ← (checkout now).identity
  let tracked ← (checkout (now + 1)).trackedFiles
  let others ← (checkout (now + 2)).others
  let listed ← listedPaths patterns tracked others
  let paths := listed.take maxFiles
  let gaps := if maxFiles < listed.length then ["file_budget_unindexed_membership"] else []
  let scan ← paths.foldlM (visit sha256 parse checkout cache force) ⟨now + 3, [], [], gaps⟩
  let after ← (checkout scan.now).identity
  pure { token, membership := paths, stable := decide (token = after)
         scan := if token = after then scan else scan.note "repository_changed_during_refresh" }

/-- `ProviderInput`. -/
structure ProviderInput where
  kind : String
  key : String
  digest : String
  deriving DecidableEq

def ProviderInput.json (i : ProviderInput) : Json :=
  .obj [("digest", .str i.digest), ("key", .str i.key), ("kind", .str i.kind)]

/-- The fields of `_repository`'s answer that come from the repository. -/
structure Observation where
  projectUuid : String
  repository : String
  «alias» : String
  commit : String
  workingTreeFingerprint : String
  fragments : List (String × Fragment)
  membership : List String
  inputs : List ProviderInput
  freshness : String
  gaps : List String
  deriving DecidableEq

/-- `digest` of a document. -/
def digest (v : Json) : String :=
  sha256 (String.ofList (JsonText.render ⟨true, false⟩ (JsonText.sortKeys v))).toByteArray

def sortedFragments (fragments : List (String × Fragment)) : List (String × Fragment) :=
  fragments.insertionSort (fun a b => a.1 ≤ b.1)

def inputsOf («alias» : String) (membership : List String) (fragments : List (String × Fragment)) :
    List ProviderInput :=
  let rows (suffixes : List String) (row : Fragment → Json) : Json :=
    .arr (((sortedFragments fragments).filter (fun e => hasSuffix suffixes e.1)).map
      (fun e => .arr [.str e.1, row e.2]))
  [⟨"provider", "syntax/1", digest sha256 (.str "syntax/1")⟩,
    ⟨"directory_membership", «alias», digest sha256 (.arr (membership.map .str))⟩,
    ⟨"configuration", «alias», digest sha256 (rows [".toml", ".json"] (.str ·.digest))⟩,
    ⟨"exports", «alias», digest sha256 (rows [".py"] (fun f => .arr (f.definitions.map .str)))⟩]

def observe («alias» : String) (uuid : Option String) (s : Survey) :
    Except Raised Observation := do
  let commonDir ← (checkout (s.scan.now + 1)).commonDir
  match uuid.filter (· ≠ "") with
  | none => .error ⟨.value, "ValueError"⟩
  | some projectUuid =>
    .ok { projectUuid
          repository := «alias» ++ "@" ++ String.ofList ((digest sha256 (.str commonDir)).toList.take 24)
          «alias», commit := s.token.1, workingTreeFingerprint := s.token.2
          fragments := s.scan.retained, membership := s.membership
          inputs := inputsOf sha256 «alias» s.membership s.scan.retained
          freshness := if s.stable then "current" else "stale"
          gaps := s.scan.gaps }

structure Outcome where
  answer : Except Raised Observation
  cache : RepositoryCache
  /-- the first moment after the call; a call that raises leaves the cache as it was -/
  now : ℕ

/-- `_repository`. -/
def repository («alias» : String) (uuid : Option String) (now : ℕ) (cache : RepositoryCache) (force : Bool) :
    Outcome :=
  match survey sha256 parse patterns maxFiles checkout now cache force with
  | .error e => ⟨.error e, cache, now⟩
  | .ok s =>
    ⟨observe sha256 checkout «alias» uuid s,
      ⟨some s.token, s.membership, s.scan.retained, s.scan.signatures⟩, s.scan.now + 2⟩

/-- A call for the repository of a project under an alias. -/
structure Call where
  key : String × String
  uuid : Option String
  force : Bool

/-- `_repos`. -/
abbrev Service := List ((String × String) × RepositoryCache)

variable (workspaces : String → List String) (checkouts : String × String → ℕ → Checkout)

def refresh (service : Service) (now : ℕ) (call : Call) : Outcome :=
  repository sha256 parse (workspaces call.key.1) maxFiles (checkouts call.key) call.key.2
    call.uuid now ((service.lookup call.key).getD {}) call.force

/-- What a service has come to at a time: it was started, time went by, calls were answered. -/
inductive Reached : ℕ → Service → Prop
  | start (now : ℕ) : Reached now []
  | wait {now later : ℕ} {service : Service} (h : Reached now service) (hle : now ≤ later) :
      Reached later service
  | call {now : ℕ} {service : Service} (h : Reached now service) (call : Call) :
      Reached (refresh sha256 parse maxFiles workspaces checkouts service now call).now
        (Keyed.assign service call.key
          (refresh sha256 parse maxFiles workspaces checkouts service now call).cache)

end Refresh

section Paths

variable {patterns : List String} {paths allowed : List String}

theorem allowedPaths_spec (h : allowedPaths patterns paths = .ok allowed) :
    allowed.Sublist paths ∧ ∀ path ∈ allowed, denied patterns path = .ok false := by
  induction paths generalizing allowed with
  | nil =>
    cases h
    exact ⟨.slnil, fun _ hmem => nomatch hmem⟩
  | cons path rest ih =>
    unfold allowedPaths at h
    obtain ⟨isDenied, hdenied, h⟩ := Ensures.bind_eq_ok.mp h
    obtain ⟨kept, hrest, h⟩ := Ensures.bind_eq_ok.mp h
    obtain ⟨hsub, hkept⟩ := ih hrest
    cases isDenied with
    | true =>
      cases h
      exact ⟨hsub.cons path, hkept⟩
    | false =>
      cases h
      exact ⟨hsub.cons_cons path, List.forall_mem_cons.mpr ⟨hdenied, hkept⟩⟩

theorem listedPaths_spec {tracked others : List String}
    (h : listedPaths patterns tracked others = .ok allowed) :
    allowed.Nodup ∧ ∀ path ∈ allowed, denied patterns path = .ok false := by
  obtain ⟨hsub, hdenied⟩ := allowedPaths_spec h
  refine ⟨hsub.nodup ?_, hdenied⟩
  exact (List.perm_insertionSort _ _).nodup_iff.mpr (List.nodup_dedup _)

/-- Of no supported file it goes unsaid that it has no signature. -/
theorem missed_of_supported {path : String} (h : supported path = true) : missed path = true := by
  rw [supported, Bool.or_eq_true] at h
  rcases h with h | h
  · simp only [hasSuffix, List.any_cons, List.any_nil, Bool.or_false, Bool.or_eq_true] at h
    simp only [missed, hasSuffix, List.any_cons, List.any_nil, Bool.or_false, Bool.or_eq_true]
    tauto
  · have hmem : path ∈ manifests := List.contains_iff_mem.mp h
    have hall : ∀ name ∈ manifests, missed name = true := by decide
    exact hall path hmem

end Paths

section Visits

variable {sha256 : ByteArray → String} {parse : String → String → Except Raised Parsed}
  {checkout : ℕ → Checkout} {cache : RepositoryCache} {force : Bool} {s t : Scan} {path : String}
  {start : ℕ} {done : List String}

/-- Everything a visit can do. -/
theorem visit_cases (h : visit sha256 parse checkout cache force s path = .ok t) :
    (∃ e, signatureAt (checkout s.now) path = .error e ∧ (e.kind = .os ∨ e.kind = .value) ∧
      t = if missed path then s.wait.note (unavailableSource path e) else s.wait) ∨
    ∃ signature, signatureAt (checkout s.now) path = .ok signature ∧
      ((supported path = false ∧ t = if needsExport path then
          (s.sign path signature).note ("installed_semantic_export_required:" ++ path)
        else s.sign path signature) ∨
      (supported path = true ∧ ∃ fragment, previous cache force path signature = some fragment ∧
        t = (s.sign path signature).retain path fragment) ∨
      (supported path = true ∧ previous cache force path signature = none ∧
        ∃ fragment, (parsedFiles sha256 parse (checkout (s.now + 1))).value path = .ok fragment ∧
          t = (s.sign path signature).wait.retain path fragment) ∨
      (supported path = true ∧ previous cache force path signature = none ∧
        ∃ e, (parsedFiles sha256 parse (checkout (s.now + 1))).value path = .error e ∧
          e.kind ≠ .other ∧
          t = (s.sign path signature).wait.note (unavailableSource path e))) := by
  unfold visit at h
  cases hsign : signatureAt (checkout s.now) path with
  | error e =>
    simp only [hsign] at h
    by_cases hkind : e.kind = .os ∨ e.kind = .value
    · rw [if_pos hkind, Except.ok.injEq] at h
      exact Or.inl ⟨e, rfl, hkind, h.symm⟩
    · rw [if_neg hkind] at h
      cases h
  | ok signature =>
    refine Or.inr ⟨signature, rfl, ?_⟩
    simp only [hsign] at h
    cases hsupported : supported path with
    | false =>
      simp only [hsupported, Bool.not_false, if_true, Except.ok.injEq] at h
      exact Or.inl ⟨rfl, h.symm⟩
    | true =>
      right
      simp only [hsupported, Bool.not_true, Bool.false_eq_true, if_false] at h
      cases hprevious : previous cache force path signature with
      | some fragment =>
        simp only [hprevious, Except.ok.injEq] at h
        exact Or.inl ⟨rfl, fragment, rfl, h.symm⟩
      | none =>
        right
        have hnow : (s.sign path signature).now = s.now + 1 := rfl
        simp only [hprevious, hnow] at h
        cases hread : (parsedFiles sha256 parse (checkout (s.now + 1))).value path with
        | ok fragment =>
          simp only [hread, Except.ok.injEq] at h
          exact Or.inl ⟨rfl, rfl, fragment, rfl, h.symm⟩
        | error e =>
          simp only [hread] at h
          by_cases hkind : e.kind = .other
          · rw [if_pos hkind] at h
            cases h
          · rw [if_neg hkind, Except.ok.injEq] at h
            exact Or.inr ⟨rfl, rfl, e, rfl, hkind, h.symm⟩

/-- What may be reused of a cache: each fragment was parsed after its signature was taken. -/
def Sound (sha256 : ByteArray → String) (parse : String → String → Except Raised Parsed)
    (checkout : ℕ → Checkout) (now : ℕ) (cache : RepositoryCache) : Prop :=
  ∀ path fragment signature, cache.fragments.lookup path = some fragment →
    cache.signatures.lookup path = some signature →
    Kept (fun t => parsedFiles sha256 parse (checkout t)) 0 now path signature fragment

theorem checkedPath_eq {checked : String} (h : checkedPath path = .ok checked) : checked = path := by
  unfold checkedPath at h
  cases hpath : relativePath path with
  | error e => rw [hpath] at h; cases h
  | ok name =>
    rw [hpath] at h
    cases h
    unfold relativePath at hpath
    split_ifs at hpath
    exact (Except.ok.inj hpath).symm

theorem stamp_of_signatureAt {c : Checkout} {signature : Signature}
    (h : signatureAt c path = .ok signature) : c.files.stamp path = .ok signature := by
  unfold signatureAt at h
  obtain ⟨checked, hchecked, h⟩ := Ensures.bind_eq_ok.mp h
  rw [← checkedPath_eq hchecked]
  exact h

/-- The file could not be signed, or not be read or parsed. -/
def Unreadable (sha256 : ByteArray → String) (parse : String → String → Except Raised Parsed)
    (c : Checkout) (path : String) (e : Raised) : Prop :=
  signatureAt c path = .error e ∨ (parsedFiles sha256 parse c).value path = .error e

/-- What a scan that began at `start` has made of the paths it has visited. -/
structure Progress (sha256 : ByteArray → String)
    (parse : String → String → Except Raised Parsed) (checkout : ℕ → Checkout) (start : ℕ)
    (done : List String) (s : Scan) : Prop where
  time : start ≤ s.now
  retained : ∀ path fragment, s.retained.lookup path = some fragment →
    path ∈ done ∧ supported path = true ∧ ∃ signature, s.signatures.lookup path = some signature ∧
      Kept (fun t => parsedFiles sha256 parse (checkout t)) start s.now path signature fragment
  covered : ∀ path ∈ done, supported path = true →
    (∃ fragment, s.retained.lookup path = some fragment) ∨ ∃ u e, start ≤ u ∧ u < s.now ∧
      Unreadable sha256 parse (checkout u) path e ∧ unavailableSource path e ∈ s.gaps

theorem progress_start {gaps : List String} :
    Progress sha256 parse checkout start [] ⟨start, [], [], gaps⟩ where
  time := le_rfl
  retained := fun _ _ h => nomatch h
  covered := fun _ hmem => nomatch hmem

/-- A visit that retains nothing leaves what there is; where the file is supported, a gap says
why. -/
theorem Progress.skip (h : Progress sha256 parse checkout start done s) (hnow : s.now < t.now)
    (hretained : t.retained = s.retained)
    (hsignatures : ∀ other ∈ done, t.signatures.lookup other = s.signatures.lookup other)
    (hgaps : ∀ gap ∈ s.gaps, gap ∈ t.gaps)
    (hwhy : supported path = true → ∃ u e, start ≤ u ∧ u < t.now ∧
      Unreadable sha256 parse (checkout u) path e ∧ unavailableSource path e ∈ t.gaps) :
    Progress sha256 parse checkout start (done ++ [path]) t where
  time := h.time.trans hnow.le
  retained := by
    intro other fragment hlookup
    rw [hretained] at hlookup
    obtain ⟨hmem, hsupported, signature, hsignature, hkept⟩ := h.retained other fragment hlookup
    refine ⟨List.mem_append_left _ hmem, hsupported, signature, ?_, hkept.mono le_rfl hnow.le⟩
    rw [hsignatures other hmem, hsignature]
  covered := by
    intro other hmem hsupported
    rcases List.mem_append.mp hmem with hmem | hmem
    · rcases h.covered other hmem hsupported with ⟨fragment, hfound⟩ | ⟨u, e, hu, hlt, hwhy, hgap⟩
      · exact Or.inl ⟨fragment, by rw [hretained, hfound]⟩
      · exact Or.inr ⟨u, e, hu, hlt.trans hnow, hwhy, hgaps _ hgap⟩
    · obtain rfl := List.mem_singleton.mp hmem
      exact Or.inr (hwhy hsupported)

/-- A visit that retains a fragment of the file as it was while the scan went on. -/
theorem Progress.keep {signature : Signature} {fragment : Fragment}
    (h : Progress sha256 parse checkout start done s) (hnew : path ∉ done) (hnow : s.now < t.now)
    (hretained : t.retained = Keyed.assign s.retained path fragment)
    (hsignatures : t.signatures = Keyed.assign s.signatures path signature)
    (hgaps : t.gaps = s.gaps) (hsupported : supported path = true)
    (hkept : Kept (fun t => parsedFiles sha256 parse (checkout t)) start t.now path signature
      fragment) :
    Progress sha256 parse checkout start (done ++ [path]) t where
  time := h.time.trans hnow.le
  retained := by
    intro other found hlookup
    rw [hretained, Keyed.lookup_assign] at hlookup
    by_cases hother : other = path
    · subst hother
      rw [if_pos rfl, Option.some_inj] at hlookup
      subst hlookup
      refine ⟨by simp, hsupported, signature, ?_, hkept⟩
      rw [hsignatures, Keyed.lookup_assign, if_pos rfl]
    · rw [if_neg hother] at hlookup
      obtain ⟨hmem, hsup, old, hold, hkept'⟩ := h.retained other found hlookup
      refine ⟨List.mem_append_left _ hmem, hsup, old, ?_, hkept'.mono le_rfl hnow.le⟩
      rw [hsignatures, Keyed.lookup_assign, if_neg hother, hold]
  covered := by
    intro other hmem hsup
    by_cases hother : other = path
    · exact Or.inl ⟨fragment, by rw [hretained, Keyed.lookup_assign, if_pos hother]⟩
    · have hdone : other ∈ done := by simpa [hother] using hmem
      rcases h.covered other hdone hsup with ⟨found, hfound⟩ | ⟨u, e, hu, hlt, hwhy, hgap⟩
      · refine Or.inl ⟨found, ?_⟩
        rw [hretained, Keyed.lookup_assign, if_neg hother, hfound]
      · exact Or.inr ⟨u, e, hu, hlt.trans hnow, hwhy, hgaps ▸ hgap⟩

theorem previous_eq_some {signature : Signature} {fragment : Fragment}
    (h : previous cache force path signature = some fragment) :
    cache.signatures.lookup path = some signature ∧ cache.fragments.lookup path = some fragment := by
  unfold previous at h
  split_ifs at h with hsame
  exact ⟨hsame.2, h⟩

variable (hfiles : Telling fun t => (checkout t).files)
include hfiles

theorem telling_parsed : Telling fun t => parsedFiles sha256 parse (checkout t) :=
  hfiles.through (fragmentOf sha256 parse)

/-- A fragment that is not parsed again is that of the file as it is now. -/
theorem kept_of_previous {signature : Signature} {fragment : Fragment}
    (hsound : Sound sha256 parse checkout start cache) (hstart : start ≤ s.now)
    (hsign : signatureAt (checkout s.now) path = .ok signature)
    (h : previous cache force path signature = some fragment) :
    Kept (fun t => parsedFiles sha256 parse (checkout t)) s.now (s.now + 1) path signature
      fragment := by
  obtain ⟨hsignature, hfragment⟩ := previous_eq_some h
  have hstamp : (parsedFiles sha256 parse (checkout s.now)).stamp path = .ok signature :=
    stamp_of_signatureAt hsign
  exact (hsound path fragment signature hfragment hsignature).renew (telling_parsed hfiles) hstart
    hstamp

theorem visit_progress (hsound : Sound sha256 parse checkout start cache) (hnew : path ∉ done)
    (hs : Progress sha256 parse checkout start done s)
    (h : visit sha256 parse checkout cache force s path = .ok t) :
    Progress sha256 parse checkout start (done ++ [path]) t := by
  have hothers (signature : Signature) : ∀ other ∈ done,
      (s.sign path signature).signatures.lookup other = s.signatures.lookup other := by
    intro other hother
    have hne : other ≠ path := fun heq => hnew (heq ▸ hother)
    rw [Scan.sign, Keyed.lookup_assign, if_neg hne]
  have hnext : s.now < s.now + 1 := Nat.lt_succ_self _
  rcases visit_cases h with ⟨e, hsign, -, rfl⟩ | ⟨signature, hsign, hcase⟩
  · -- no signature: a supported file is one whose signature is missed
    by_cases hmissed : missed path = true
    · rw [if_pos hmissed]
      refine hs.skip hnext rfl (fun _ _ => rfl) (fun _ => List.mem_append_left _) fun _ => ?_
      exact ⟨s.now, e, hs.time, hnext, Or.inl hsign, List.mem_append_right _ (by simp)⟩
    · rw [if_neg hmissed]
      refine hs.skip hnext rfl (fun _ _ => rfl) (fun _ => id) fun hsupported => ?_
      exact absurd (missed_of_supported hsupported) hmissed
  · have hstamp : (checkout s.now).files.stamp path = .ok signature := stamp_of_signatureAt hsign
    rcases hcase with ⟨hsupported, rfl⟩ | ⟨hsupported, fragment, hprevious, rfl⟩ |
      ⟨hsupported, -, fragment, hread, rfl⟩ | ⟨-, -, e, hread, -, rfl⟩
    · have hnot : ¬ supported path = true := by rw [hsupported]; exact Bool.false_ne_true
      by_cases hexport : needsExport path = true
      · rw [if_pos hexport]
        exact hs.skip hnext rfl (hothers signature) (fun _ => List.mem_append_left _)
          fun hsup => absurd hsup hnot
      · rw [if_neg hexport]
        exact hs.skip hnext rfl (hothers signature) (fun _ => id) fun hsup => absurd hsup hnot
    · have hkept := kept_of_previous hfiles hsound hs.time hsign hprevious
      exact hs.keep hnew hnext rfl rfl rfl hsupported (hkept.mono hs.time le_rfl)
    · have hkept : Kept (fun t => parsedFiles sha256 parse (checkout t)) s.now (s.now + 2) path
          signature fragment := kept_of_read hstamp hread
      have hlater : s.now < s.now + 1 + 1 := by omega
      exact hs.keep hnew hlater rfl rfl rfl hsupported (hkept.mono hs.time le_rfl)
    · have hlater : s.now < s.now + 1 + 1 := by omega
      refine hs.skip hlater rfl (hothers signature) (fun _ => List.mem_append_left _) fun _ => ?_
      exact ⟨s.now + 1, e, Nat.le_succ_of_le hs.time, Nat.lt_succ_self _, Or.inr hread,
        List.mem_append_right _ (by simp)⟩

theorem scan_progress {paths : List String} (hsound : Sound sha256 parse checkout start cache)
    (hnodup : (done ++ paths).Nodup) (hs : Progress sha256 parse checkout start done s)
    (h : paths.foldlM (visit sha256 parse checkout cache force) s = .ok t) :
    Progress sha256 parse checkout start (done ++ paths) t := by
  induction paths generalizing done s with
  | nil =>
    cases h
    rwa [List.append_nil]
  | cons path rest ih =>
    rw [List.foldlM_cons] at h
    obtain ⟨s', hvisit, h⟩ := Ensures.bind_eq_ok.mp h
    have hsplit : done ++ path :: rest = (done ++ [path]) ++ rest := by simp
    have hnew : path ∉ done := by
      intro hmem
      exact (List.nodup_append.mp hnodup).2.2 path hmem path List.mem_cons_self rfl
    rw [hsplit] at hnodup ⊢
    exact ih hnodup (visit_progress hfiles hsound hnew hs hvisit) h

omit hfiles in
theorem visit_now (h : visit sha256 parse checkout cache force s path = .ok t) : s.now < t.now := by
  rcases visit_cases h with ⟨e, -, -, rfl⟩ | ⟨signature, -, ⟨-, rfl⟩ | ⟨-, fragment, -, rfl⟩ |
    ⟨-, -, fragment, -, rfl⟩ | ⟨-, -, e, -, -, rfl⟩⟩
  · split_ifs <;> exact Nat.lt_succ_self _
  · split_ifs <;> exact Nat.lt_succ_self _
  · exact Nat.lt_succ_self _
  · exact Nat.lt_succ_of_lt (Nat.lt_succ_self _)
  · exact Nat.lt_succ_of_lt (Nat.lt_succ_self _)

omit hfiles in
theorem scan_now {paths : List String}
    (h : paths.foldlM (visit sha256 parse checkout cache force) s = .ok t) : s.now ≤ t.now := by
  induction paths generalizing s with
  | nil =>
    cases h
    exact le_rfl
  | cons path rest ih =>
    rw [List.foldlM_cons] at h
    obtain ⟨s', hvisit, h⟩ := Ensures.bind_eq_ok.mp h
    exact (visit_now hvisit).le.trans (ih h)

end Visits

section Quiet

variable {sha256 : ByteArray → String} {parse : String → String → Except Raised Parsed}
  {checkout : ℕ → Checkout} {cache : RepositoryCache} {force : Bool} {s s' t : Scan}
  {path : String} {start : ℕ} {c : Checkout}

/-- Two scans have found the same. -/
def Same (s s' : Scan) : Prop :=
  s.retained = s'.retained ∧ s.signatures = s'.signatures ∧ s.gaps = s'.gaps

theorem Same.refl (s : Scan) : Same s s := ⟨rfl, rfl, rfl⟩

theorem Same.note (h : Same s s') (gap : String) : Same (s.note gap) (s'.note gap) :=
  ⟨h.1, h.2.1, congrArg (· ++ [gap]) h.2.2⟩

theorem Same.wait (h : Same s s') : Same s.wait s'.wait := h

theorem Same.sign (h : Same s s') (path : String) (signature : Signature) :
    Same (s.sign path signature) (s'.sign path signature) :=
  ⟨h.1, congrArg (Keyed.assign · path signature) h.2.1, h.2.2⟩

theorem Same.retain (h : Same s s') (path : String) (fragment : Fragment) :
    Same (s.retain path fragment) (s'.retain path fragment) :=
  ⟨congrArg (Keyed.assign · path fragment) h.1, h.2⟩

end Quiet

section Answers

variable {sha256 : ByteArray → String}
  {parse : String → String → Except Raised Parsed} {patterns : List String} {maxFiles : ℕ}
  {checkout : ℕ → Checkout} {cache : RepositoryCache} {force : Bool} {now : ℕ} {sv : Survey}

/-- Everything a survey asks for. -/
theorem survey_cases (h : survey sha256 parse patterns maxFiles checkout now cache force = .ok sv) :
    ∃ tracked others listed scan after, (checkout now).identity = .ok sv.token ∧
      (checkout (now + 1)).trackedFiles = .ok tracked ∧ (checkout (now + 2)).others = .ok others ∧
      listedPaths patterns tracked others = .ok listed ∧ sv.membership = listed.take maxFiles ∧
      sv.membership.foldlM (visit sha256 parse checkout cache force) ⟨now + 3, [], [],
        if maxFiles < listed.length then ["file_budget_unindexed_membership"] else []⟩ = .ok scan ∧
      (checkout scan.now).identity = .ok after ∧ sv.stable = decide (sv.token = after) ∧
      sv.scan = if sv.token = after then scan else scan.note "repository_changed_during_refresh" := by
  unfold survey at h
  obtain ⟨token, htoken, h⟩ := Ensures.bind_eq_ok.mp h
  obtain ⟨tracked, htracked, h⟩ := Ensures.bind_eq_ok.mp h
  obtain ⟨others, hothers, h⟩ := Ensures.bind_eq_ok.mp h
  obtain ⟨listed, hlisted, h⟩ := Ensures.bind_eq_ok.mp h
  obtain ⟨scan, hscan, h⟩ := Ensures.bind_eq_ok.mp h
  obtain ⟨after, hafter, h⟩ := Ensures.bind_eq_ok.mp h
  cases h
  exact ⟨tracked, others, listed, scan, after, htoken, htracked, hothers, hlisted, rfl, hscan,
    hafter, rfl, rfl⟩

/-- The files of a survey, whatever changed while it was made. -/
theorem survey_progress (hfiles : Telling fun t => (checkout t).files)
    (hsound : Sound sha256 parse checkout now cache)
    (h : survey sha256 parse patterns maxFiles checkout now cache force = .ok sv) :
    Progress sha256 parse checkout (now + 3) sv.membership sv.scan ∧
      ∀ path ∈ sv.membership, denied patterns path = .ok false := by
  obtain ⟨tracked, others, listed, scan, after, -, -, -, hlisted, hmembership, hscan, -, -, heq⟩ :=
    survey_cases h
  obtain ⟨hnodup, hdenied⟩ := listedPaths_spec hlisted
  have hsound' : Sound sha256 parse checkout (now + 3) cache := fun path fragment signature hf hs =>
    (hsound path fragment signature hf hs).mono le_rfl (by omega)
  have hnodup' : ([] ++ sv.membership).Nodup := by
    rw [List.nil_append, hmembership]
    exact hnodup.sublist (List.take_sublist _ _)
  have hprogress : Progress sha256 parse checkout (now + 3) sv.membership scan :=
    scan_progress hfiles hsound' hnodup' progress_start hscan
  constructor
  · rw [heq]
    split_ifs
    · exact hprogress
    · exact ⟨hprogress.time, hprogress.retained, fun path hmem hsupported =>
        (hprogress.covered path hmem hsupported).imp_right fun ⟨u, e, hu, hlt, hwhy, hgap⟩ =>
          ⟨u, e, hu, hlt, hwhy, List.mem_append_left _ hgap⟩⟩
  · intro path hmem
    rw [hmembership] at hmem
    exact hdenied path (List.mem_of_mem_take hmem)

variable {«alias» : String} {uuid : Option String}

theorem repository_now : now ≤
    (repository sha256 parse patterns maxFiles checkout «alias» uuid now cache force).now := by
  unfold repository
  cases h : survey sha256 parse patterns maxFiles checkout now cache force with
  | error e => exact le_rfl
  | ok sv =>
    obtain ⟨tracked, others, listed, scan, after, -, -, -, -, -, hscan, -, -, heq⟩ := survey_cases h
    have hle : now + 3 ≤ scan.now := scan_now hscan
    have hnow : sv.scan.now = scan.now := by
      rw [heq]
      split_ifs <;> rfl
    show now ≤ sv.scan.now + 2
    omega

/-- A call keeps the cache sound, also one that raises. -/
theorem repository_sound (hfiles : Telling fun t => (checkout t).files)
    (hsound : Sound sha256 parse checkout now cache) :
    Sound sha256 parse checkout
      (repository sha256 parse patterns maxFiles checkout «alias» uuid now cache force).now
      (repository sha256 parse patterns maxFiles checkout «alias» uuid now cache
        force).cache := by
  unfold repository
  cases h : survey sha256 parse patterns maxFiles checkout now cache force with
  | error e => exact hsound
  | ok sv =>
    obtain ⟨hprogress, -⟩ := survey_progress hfiles hsound h
    intro path fragment signature hfragment hsignature
    obtain ⟨-, -, signature', hsignature', hkept⟩ := hprogress.retained path fragment hfragment
    obtain rfl : signature' = signature := Option.some.inj (hsignature'.symm.trans hsignature)
    exact hkept.mono (Nat.zero_le _) (Nat.le_add_right _ 2)

end Answers

section Service

variable {sha256 : ByteArray → String}
  {parse : String → String → Except Raised Parsed} {maxFiles : ℕ}
  {workspaces : String → List String} {checkouts : String × String → ℕ → Checkout}
  {now : ℕ} {service : Service}

theorem reached_sound (hfiles : ∀ key, Telling fun t => (checkouts key t).files)
    (h : Reached sha256 parse maxFiles workspaces checkouts now service)
    (key : String × String) :
    Sound sha256 parse (checkouts key) now ((service.lookup key).getD {}) := by
  induction h with
  | start now => exact fun _ _ _ hfragment => nomatch hfragment
  | wait _ hle ih =>
    intro path fragment signature hfragment hsignature
    exact (ih path fragment signature hfragment hsignature).mono le_rfl hle
  | @call now service _ call ih =>
    rw [Keyed.lookup_assign]
    by_cases hkey : key = call.key
    · subst hkey
      rw [if_pos rfl]
      exact repository_sound (hfiles _) ih
    · rw [if_neg hkey]
      intro path fragment signature hfragment hsignature
      exact (ih path fragment signature hfragment hsignature).mono le_rfl repository_now

/-- An answer is of the repository as it was from `now` to `finish`: each fragment is of a file that
is not denied, as it was at some moment; each supported file has a fragment, or could not be read at
some moment and is named. -/
structure Current (sha256 : ByteArray → String) (parse : String → String → Except Raised Parsed)
    (patterns : List String) (checkout : ℕ → Checkout) (now finish : ℕ) (obs : Observation) :
    Prop where
  fresh : ∀ path fragment, obs.fragments.lookup path = some fragment →
    path ∈ obs.membership ∧ supported path = true ∧ denied patterns path = .ok false ∧
      ∃ u, now ≤ u ∧ u < finish ∧
        (parsedFiles sha256 parse (checkout u)).value path = .ok fragment
  covered : ∀ path ∈ obs.membership, supported path = true →
    (∃ fragment, obs.fragments.lookup path = some fragment) ∨ ∃ u e, now ≤ u ∧ u < finish ∧
      Unreadable sha256 parse (checkout u) path e ∧ unavailableSource path e ∈ obs.gaps

end Service

section Examples

def demoCall : Call := ⟨("atlas", "main"), some "uuid-1", false⟩

end Examples

end ProjectControl.TraceIndex
