import Mathlib
import ProjectControl.JsonText
import ProjectControl.ProcessStart

/-! Credentials for delegated children: the issuer hands them out for one bound request each,
and its authenticators take them back once. -/

set_option autoImplicit false

namespace ProjectControl.ChildIdentity

open JsonText

section Requests

/-- What one credential is bound to. -/
structure ChildRequest where
  projectId : String
  principal : String
  profile : String
  parentAttemptId : String
  executionId : String
  logicalId : String
  paths : List (String × String)
  locks : List (String × String)
  actions : List String
  idempotencyKey : String
  deriving DecidableEq

/-- `ChildCredentialUnavailable`. -/
structure Unavailable where
  message : String
  deriving DecidableEq

/-- Whether a text is not blank and has no blanks around it. -/
def stripped (value : String) : Bool :=
  value.toList.head?.any (!Processes.isSpace ·) && value.toList.getLast?.any (!Processes.isSpace ·)

def requiredText (value fieldName : String) (limit : ℕ) : Except Unavailable Unit :=
  if !stripped value then .error ⟨fieldName ++ " is invalid"⟩
  else if limit < value.utf8ByteSize then .error ⟨fieldName ++ " is too long"⟩
  else .ok ()

def scopeRows (value : List (String × String)) (label : String) : Except Unavailable Unit := do
  if 4096 < value.length then
    throw ⟨"child " ++ label ++ " are invalid"⟩
  value.forM (fun item => do
    requiredText item.1 label 512
    requiredText item.2 label 32)

def checkRequest (r : ChildRequest) : Except Unavailable Unit := do
  requiredText r.projectId "project_id" 512
  requiredText r.principal "principal" 512
  requiredText r.profile "profile" 512
  requiredText r.parentAttemptId "parent_attempt_id" 512
  requiredText r.executionId "execution_id" 512
  requiredText r.logicalId "logical_id" 512
  requiredText r.idempotencyKey "idempotency_key" 512
  scopeRows r.paths "paths"
  scopeRows r.locks "locks"
  if r.actions = [] ∨ 128 < r.actions.length then
    throw ⟨"child action set is invalid"⟩
  r.actions.forM (fun action => requiredText action "action" 512)
  if ¬ r.actions.Nodup then
    throw ⟨"child action set is not unique"⟩

def rows (value : List (String × String)) : Json :=
  .arr (value.map (fun item => .arr [.str item.1, .str item.2]))

def ChildRequest.binding (r : ChildRequest) : Json :=
  .obj [("actions", .arr (r.actions.map .str)), ("execution_id", .str r.executionId),
    ("idempotency_key", .str r.idempotencyKey), ("logical_id", .str r.logicalId),
    ("parent_attempt_id", .str r.parentAttemptId), ("principal", .str r.principal),
    ("profile", .str r.profile), ("project_id", .str r.projectId),
    ("scope", .obj [("locks", rows r.locks), ("paths", rows r.paths)])]

/-- The bytes whose digest names the binding. -/
def ChildRequest.encoded (r : ChildRequest) : ByteArray :=
  (String.ofList (render ⟨false, false⟩ r.binding)).toByteArray

end Requests

section Issuer

-- `D` are the digests of SHA-256
variable {D : Type} [DecidableEq D] (sha256 : ByteArray → D)

/-- `_OpaqueChildCredential`. -/
structure Credential (D : Type) where
  token : ByteArray
  projectId : String
  bindingDigest : D
  deriving DecidableEq

/-- `_PendingIdentity`. -/
structure PendingIdentity (D : Type) where
  projectId : String
  subjectId : String
  bindingDigest : D
  expiresAt : ℚ

structure Subject where
  subjectId : String
  expiresAt : ℚ

structure Issuer (D : Type) where
  pending : List (D × PendingIdentity D) := []
  subjects : List (D × Subject) := []

inductive ActorKind
  | automation
  deriving DecidableEq

/-- `AuthenticatedPrincipal`. -/
structure Principal where
  subjectId : String
  kind : ActorKind
  label : String
  deriving DecidableEq

def pendingTtlSeconds : ℚ := 60

def maxPendingCredentials : ℕ := 1024

def maxBoundIdentities : ℕ := 8192

def subjectTtlSeconds : ℚ := 24 * 60 * 60

/-- Assignment to a key of a dict, which keeps the place of a key that is there. -/
def put {V : Type} (key : D) (value : V) (d : List (D × V)) : List (D × V) :=
  if key ∈ d.map (·.1) then d.map (fun e => if e.1 = key then (key, value) else e)
  else d ++ [(key, value)]

def pop {V : Type} (key : D) (d : List (D × V)) : List (D × V) := d.filter (fun e => e.1 ≠ key)

def Issuer.prune (s : Issuer D) (now : ℚ) : Issuer D where
  pending := s.pending.filter (fun e => now < e.2.expiresAt)
  subjects := s.subjects.filter (fun e => now < e.2.expiresAt)

/-- The entry that `min` finds by its expiry, the first of several. -/
def oldest (subjects : List (D × Subject)) : Option (D × Subject) :=
  subjects.argmin (fun e => e.2.expiresAt)

def makeRoom (subjects : List (D × Subject)) : List (D × Subject) :=
  if maxBoundIdentities ≤ subjects.length then
    match oldest subjects with
    | some e => pop e.1 subjects
    | none => subjects
  else subjects

/-- The subject of a binding and the subjects after it was given. -/
def grant (subjects : List (D × Subject)) (bindingDigest : D) (now : ℚ) (tokenHex : String) :
    String × List (D × Subject) :=
  match subjects.lookup bindingDigest with
  | some retained =>
    if retained.expiresAt ≤ now then
      ("pc-child-" ++ tokenHex, put bindingDigest
        ⟨"pc-child-" ++ tokenHex, now + subjectTtlSeconds⟩ (makeRoom subjects))
    else (retained.subjectId, subjects)
  | none =>
    ("pc-child-" ++ tokenHex, put bindingDigest
      ⟨"pc-child-" ++ tokenHex, now + subjectTtlSeconds⟩ (makeRoom subjects))

/-- `token` and `tokenHex` are what `secrets` draws. -/
def issue (s : Issuer D) (r : ChildRequest) (now : ℚ) (token : ByteArray) (tokenHex : String) :
    Issuer D × Except Unavailable (Credential D) :=
  match checkRequest r with
  | .error e => (s, .error e)
  | .ok _ =>
    let s := s.prune now
    if maxPendingCredentials ≤ s.pending.length then
      (s, .error ⟨"too many pending child credentials"⟩)
    else
      let bindingDigest := sha256 r.encoded
      let granted := grant s.subjects bindingDigest now tokenHex
      (⟨put (sha256 token) ⟨r.projectId, granted.1, bindingDigest, now + pendingTtlSeconds⟩
        s.pending, granted.2⟩, .ok ⟨token, r.projectId, bindingDigest⟩)

/-- `contracts` tells whether the contracts of the authority can be imported. -/
def authenticate (s : Issuer D) (credential : Option (Credential D)) (expectedProjectId : String)
    (now : ℚ) (contracts : Bool) : Issuer D × Except Unavailable (Option Principal) :=
  match credential with
  | none => (s, .ok none)
  | some credential =>
    let tokenDigest := sha256 credential.token
    let s' := { s with pending := pop tokenDigest s.pending }
    match s.pending.lookup tokenDigest with
    | none => (s', .ok none)
    | some pending =>
      if pending.expiresAt ≤ now ∨ pending.projectId ≠ expectedProjectId ∨
          credential.projectId ≠ expectedProjectId ∨
          pending.bindingDigest ≠ credential.bindingDigest then (s', .ok none)
      else if contracts then
        (s', .ok (some ⟨pending.subjectId, .automation, "Project Control delegated child"⟩))
      else (s', .error ⟨"native Todo principal contracts are unavailable"⟩)

inductive Call (D : Type)
  | issue (r : ChildRequest) (now : ℚ) (token : ByteArray) (tokenHex : String)
  | authenticate (credential : Option (Credential D)) (projectId : String) (now : ℚ)
    (contracts : Bool)

inductive Outcome (D : Type)
  | issued (credential : Except Unavailable (Credential D))
  | authenticated (principal : Except Unavailable (Option Principal))

def step (s : Issuer D) : Call D → Issuer D × Outcome D
  | .issue r now token tokenHex =>
    ((issue sha256 s r now token tokenHex).1, .issued (issue sha256 s r now token tokenHex).2)
  | .authenticate credential projectId now contracts =>
    ((authenticate sha256 s credential projectId now contracts).1,
      .authenticated (authenticate sha256 s credential projectId now contracts).2)

/-- The issuer before the call with this number. -/
def stateAt (calls : List (Call D)) (n : ℕ) : Issuer D :=
  (calls.take n).foldl (fun s c => (step sha256 s c).1) {}

end Issuer

section Bindings

theorem canonical_rows (value : List (String × String)) : Canonical (rows value) := by
  unfold rows
  rw [Canonical]
  induction value with
  | nil => trivial
  | cons item value ih => exact ⟨⟨trivial, trivial, trivial⟩, ih⟩

theorem canonical_texts (texts : List String) : CanonicalItems (texts.map .str) := by
  induction texts with
  | nil => trivial
  | cons text texts ih => exact ⟨trivial, ih⟩

theorem canonical_binding (r : ChildRequest) : Canonical r.binding := by
  have hkeys : ["actions", "execution_id", "idempotency_key", "logical_id", "parent_attempt_id",
      "principal", "profile", "project_id", "scope"].Pairwise (· < ·) := by decide +kernel
  have hscope : ["locks", "paths"].Pairwise (· < ·) := by decide +kernel
  unfold ChildRequest.binding
  rw [Canonical]
  refine ⟨?_, canonical_texts r.actions, trivial, trivial, trivial, trivial, trivial, trivial,
    trivial, ?_, trivial⟩
  · exact List.pairwise_map.mp hkeys
  · exact ⟨List.pairwise_map.mp hscope, canonical_rows r.locks, canonical_rows r.paths, trivial⟩

theorem rows_injective {xs ys : List (String × String)} (h : rows xs = rows ys) : xs = ys := by
  have hitems := Json.arr.inj h
  refine List.map_injective_iff.mpr (fun x y hxy => ?_) hitems
  have hpair := Json.arr.inj hxy
  simp only [List.cons.injEq, Json.str.injEq, and_true] at hpair
  exact Prod.ext hpair.1 hpair.2

theorem binding_injective {r r' : ChildRequest} (h : r.binding = r'.binding) : r = r' := by
  unfold ChildRequest.binding at h
  simp only [Json.obj.injEq, List.cons.injEq, Prod.mk.injEq, true_and, and_true, Json.arr.injEq,
    Json.str.injEq] at h
  obtain ⟨hactions, hexecution, hkey, hlogical, hparent, hprincipal, hprofile, hproject, hlocks,
    hpaths⟩ := h
  have hactions' := List.map_injective_iff.mpr (fun a b hab => Json.str.inj hab) hactions
  cases r
  cases r'
  simp only [ChildRequest.mk.injEq]
  exact ⟨hproject, hprincipal, hprofile, hparent, hexecution, hlogical, rows_injective hpaths,
    rows_injective hlocks, hactions', hkey⟩

/-- Two requests have the same bytes only if they are the same. -/
theorem encoded_injective {r r' : ChildRequest} (h : r.encoded = r'.encoded) : r = r' := by
  have htext := String.ofList_injective (String.toByteArray_inj.mp h)
  exact binding_injective (render_injective (canonical_binding r) (canonical_binding r') htext)

end Bindings

section Dicts

theorem nodup_filter_keys {D V : Type} {d : List (D × V)} {p : D × V → Bool}
    (h : (d.map (·.1)).Nodup) : ((d.filter p).map (·.1)).Nodup :=
  h.sublist (List.filter_sublist.map _)

variable {D V : Type} [DecidableEq D] {k key : D} {v value : V} {d : List (D × V)}

theorem mem_put {e : D × V} (h : e ∈ put key value d) : e = (key, value) ∨ e ∈ d ∧ e.1 ≠ key := by
  unfold put at h
  split at h
  · obtain ⟨e', he', rfl⟩ := List.mem_map.mp h
    split
    · exact Or.inl rfl
    · next hne => exact Or.inr ⟨he', hne⟩
  · next hkey =>
    rcases List.mem_append.mp h with hmem | hmem
    · exact Or.inr ⟨hmem, fun heq => hkey (heq ▸ List.mem_map_of_mem hmem)⟩
    · exact Or.inl (List.mem_singleton.mp hmem)

theorem mem_put_self : (key, value) ∈ put key value d := by
  unfold put
  split
  · next hkey =>
    obtain ⟨e, he, heq⟩ := List.mem_map.mp hkey
    exact List.mem_map.mpr ⟨e, he, by rw [if_pos heq]⟩
  · exact List.mem_append_right _ (List.mem_singleton.mpr rfl)

theorem mem_put_of_ne (h : (k, v) ∈ d) (hne : k ≠ key) : (k, v) ∈ put key value d := by
  unfold put
  split
  · exact List.mem_map.mpr ⟨(k, v), h, if_neg hne⟩
  · exact List.mem_append_left _ h

theorem nodup_put (h : (d.map (·.1)).Nodup) : ((put key value d).map (·.1)).Nodup := by
  unfold put
  split
  · have hkeys : (d.map (fun e => if e.1 = key then (key, value) else e)).map (·.1) =
        d.map (·.1) := by
      rw [List.map_map]
      refine List.map_congr_left (fun e _ => ?_)
      by_cases he : e.1 = key
      · simp [he]
      · simp [he]
    rw [hkeys]
    exact h
  · next hkey =>
    rw [List.map_append, List.map_singleton]
    exact h.append (List.nodup_singleton key) (by simpa using hkey)

theorem length_put_le : (put key value d).length ≤ d.length + 1 := by
  unfold put
  split
  · rw [List.length_map]
    exact Nat.le_succ _
  · rw [List.length_append, List.length_singleton]

theorem mem_pop : (k, v) ∈ pop key d ↔ (k, v) ∈ d ∧ k ≠ key := by
  simp [pop]

theorem length_pop_lt (h : (key, v) ∈ d) : (pop key d).length < d.length := by
  refine List.length_filter_lt_length_iff_exists.mpr ⟨(key, v), h, ?_⟩
  simp

theorem lookup_eq_some (h : (d.map (·.1)).Nodup) : d.lookup k = some v ↔ (k, v) ∈ d := by
  induction d with
  | nil => simp
  | cons e d ih =>
    obtain ⟨k', v'⟩ := e
    rw [List.map_cons, List.nodup_cons] at h
    by_cases hk : k = k'
    · subst hk
      have hnot : (k, v) ∉ d := fun hmem => h.1 (List.mem_map.mpr ⟨(k, v), hmem, rfl⟩)
      simp [hnot, eq_comm]
    · have hbeq : (k == k') = false := by simpa using hk
      rw [List.lookup_cons, hbeq]
      simp only [ih h.2, List.mem_cons, Prod.mk.injEq, hk, false_and, false_or]

theorem lookup_eq_none : d.lookup k = none ↔ ∀ v, (k, v) ∉ d := by
  induction d with
  | nil => simp
  | cons e d ih =>
    obtain ⟨k', v'⟩ := e
    by_cases hk : k = k'
    · subst hk
      have hfound : ((k, v') :: d).lookup k = some v' := by simp
      rw [hfound]
      exact iff_of_false (by simp) (fun hnot => hnot v' List.mem_cons_self)
    · have hbeq : (k == k') = false := by simpa using hk
      rw [List.lookup_cons, hbeq]
      simp only [ih, List.mem_cons, Prod.mk.injEq, hk, false_and, false_or]

end Dicts

section Steps

/-- The keys of both tables stand for one entry each. -/
structure Keyed {D : Type} (s : Issuer D) : Prop where
  pending : (s.pending.map (·.1)).Nodup
  subjects : (s.subjects.map (·.1)).Nodup

theorem Keyed.prune {D : Type} {s : Issuer D} (h : Keyed s) (now : ℚ) : Keyed (s.prune now) :=
  ⟨nodup_filter_keys h.pending, nodup_filter_keys h.subjects⟩

/-- The two tables keep within their limits. -/
structure Bounded {D : Type} (s : Issuer D) : Prop where
  pending : s.pending.length ≤ maxPendingCredentials
  subjects : s.subjects.length ≤ maxBoundIdentities

theorem Bounded.prune {D : Type} {s : Issuer D} (h : Bounded s) (now : ℚ) : Bounded (s.prune now) :=
  ⟨(List.length_filter_le _ _).trans h.pending, (List.length_filter_le _ _).trans h.subjects⟩

variable {D : Type} [DecidableEq D] {sha256 : ByteArray → D} {s : Issuer D} {r : ChildRequest}
  {now : ℚ} {token : ByteArray} {tokenHex : String} {k : D}

theorem nodup_makeRoom {subjects : List (D × Subject)} (h : (subjects.map (·.1)).Nodup) :
    ((makeRoom subjects).map (·.1)).Nodup := by
  unfold makeRoom
  split
  · split
    · exact nodup_filter_keys h
    · exact h
  · exact h

theorem mem_of_makeRoom {subjects : List (D × Subject)} {e : D × Subject}
    (h : e ∈ makeRoom subjects) : e ∈ subjects := by
  unfold makeRoom at h
  split at h
  · split at h
    · exact (List.mem_filter.mp h).1
    · exact h
  · exact h

/-- An entry that has to make room is one that expires first. -/
theorem makeRoom_cases {subjects : List (D × Subject)} {e : D × Subject}
    (hkeys : (subjects.map (·.1)).Nodup) (h : e ∈ subjects) :
    e ∈ makeRoom subjects ∨ maxBoundIdentities ≤ subjects.length ∧
      ∀ e' ∈ subjects, e.2.expiresAt ≤ e'.2.expiresAt := by
  unfold makeRoom
  by_cases hfull : maxBoundIdentities ≤ subjects.length
  · rw [if_pos hfull]
    cases hleast : oldest subjects with
    | none => exact Or.inl h
    | some least =>
      by_cases hkey : e.1 = least.1
      · have hmem := List.argmin_mem hleast
        have heq : e = least := List.inj_on_of_nodup_map hkeys h hmem hkey
        refine Or.inr ⟨hfull, fun e' he' => ?_⟩
        rw [heq]
        exact List.le_of_mem_argmin (f := fun e : D × Subject => e.2.expiresAt) he' hleast
      · exact Or.inl (mem_pop.mpr ⟨h, hkey⟩)
  · rw [if_neg hfull]
    exact Or.inl h

theorem length_makeRoom {subjects : List (D × Subject)}
    (h : subjects.length ≤ maxBoundIdentities) :
    (makeRoom subjects).length + 1 ≤ maxBoundIdentities := by
  unfold makeRoom
  split
  · next hfull =>
    cases hleast : oldest subjects with
    | none =>
      have hempty : subjects = [] := List.argmin_eq_none.mp hleast
      rw [hempty] at hfull
      cases hfull
    | some least =>
      have hmem : (least.1, least.2) ∈ subjects := List.argmin_mem hleast
      have hlt := length_pop_lt hmem
      exact Nat.le_trans hlt h
  · next hfree => exact Nat.lt_of_not_le hfree

/-- The ways in which a binding is given a subject. -/
theorem grant_cases (k : D) (now : ℚ) (tokenHex : String) {subjects : List (D × Subject)}
    (hkeys : (subjects.map (·.1)).Nodup) :
    (∃ e, (k, e) ∈ subjects ∧ now < e.expiresAt ∧
      grant subjects k now tokenHex = (e.subjectId, subjects)) ∨
    (∀ e, (k, e) ∈ subjects → e.expiresAt ≤ now) ∧
      grant subjects k now tokenHex = ("pc-child-" ++ tokenHex,
        put k ⟨"pc-child-" ++ tokenHex, now + subjectTtlSeconds⟩ (makeRoom subjects)) := by
  unfold grant
  cases hfound : subjects.lookup k with
  | none =>
    have hnone := lookup_eq_none.mp hfound
    exact Or.inr ⟨fun e he => absurd he (hnone e), rfl⟩
  | some retained =>
    have hmem := (lookup_eq_some hkeys).mp hfound
    by_cases hexpired : retained.expiresAt ≤ now
    · refine Or.inr ⟨fun e he => ?_, if_pos hexpired⟩
      have heq := (lookup_eq_some hkeys).mpr he
      rw [hfound] at heq
      exact Option.some.inj heq ▸ hexpired
    · exact Or.inl ⟨retained, hmem, lt_of_not_ge hexpired, if_neg hexpired⟩

/-- What a call to `issue` does when it hands out a credential. -/
structure Issues (sha256 : ByteArray → D) (s : Issuer D) (r : ChildRequest) (now : ℚ)
    (token : ByteArray) (tokenHex : String) : Prop where
  room : (s.prune now).pending.length < maxPendingCredentials
  credential : (issue sha256 s r now token tokenHex).2 = .ok ⟨token, r.projectId, sha256 r.encoded⟩
  pending : (issue sha256 s r now token tokenHex).1.pending = put (sha256 token)
    ⟨r.projectId, (grant (s.prune now).subjects (sha256 r.encoded) now tokenHex).1,
      sha256 r.encoded, now + pendingTtlSeconds⟩ (s.prune now).pending
  subjects : (issue sha256 s r now token tokenHex).1.subjects =
    (grant (s.prune now).subjects (sha256 r.encoded) now tokenHex).2

theorem issue_cases (sha256 : ByteArray → D) (s : Issuer D) (r : ChildRequest) (now : ℚ)
    (token : ByteArray) (tokenHex : String) :
    Issues sha256 s r now token tokenHex ∨
    (∃ e, (issue sha256 s r now token tokenHex).2 = .error e) ∧
      ((issue sha256 s r now token tokenHex).1 = s ∨
        (issue sha256 s r now token tokenHex).1 = s.prune now) := by
  cases hcheck : checkRequest r with
  | error e =>
    have hissue : issue sha256 s r now token tokenHex = (s, .error e) := by simp [issue, hcheck]
    exact Or.inr ⟨⟨e, by rw [hissue]⟩, Or.inl (by rw [hissue])⟩
  | ok u =>
    by_cases hfull : maxPendingCredentials ≤ (s.prune now).pending.length
    · have hissue : issue sha256 s r now token tokenHex =
          (s.prune now, .error ⟨"too many pending child credentials"⟩) := by
        simp [issue, hcheck, hfull]
      exact Or.inr ⟨⟨_, by rw [hissue]⟩, Or.inr (by rw [hissue])⟩
    · refine Or.inl ⟨Nat.lt_of_not_le hfull, ?_, ?_, ?_⟩
      · simp [issue, hcheck, hfull]
      · simp [issue, hcheck, hfull]
      · simp [issue, hcheck, hfull]

theorem authenticate_state (s : Issuer D) (credential : Option (Credential D)) (projectId : String)
    (now : ℚ) (contracts : Bool) :
    (authenticate sha256 s credential projectId now contracts).1 =
      match credential with
      | none => s
      | some c => { s with pending := pop (sha256 c.token) s.pending } := by
  unfold authenticate
  cases credential with
  | none => rfl
  | some c =>
    dsimp only
    split
    · rfl
    · split
      · rfl
      · split
        · rfl
        · rfl

/-- What stands behind a credential that is accepted. -/
theorem authenticate_ok {credential : Credential D} {projectId : String} {contracts : Bool}
    {principal : Principal} (hs : Keyed s)
    (h : (authenticate sha256 s (some credential) projectId now contracts).2 =
      .ok (some principal)) :
    ∃ p, (sha256 credential.token, p) ∈ s.pending ∧ now < p.expiresAt ∧
      p.projectId = projectId ∧ credential.projectId = projectId ∧
      p.bindingDigest = credential.bindingDigest ∧ principal.subjectId = p.subjectId := by
  unfold authenticate at h
  dsimp only at h
  split at h
  · simp at h
  · next p hfound =>
    split at h
    · simp at h
    · next hvalid =>
      push Not at hvalid
      obtain ⟨hlive, hproject, hcredential, hdigest⟩ := hvalid
      split at h
      · simp only [Except.ok.injEq, Option.some.injEq] at h
        exact ⟨p, (lookup_eq_some hs.pending).mp hfound, hlive, hproject, hcredential, hdigest,
          by rw [← h]⟩
      · simp at h

theorem nodup_grant {subjects : List (D × Subject)} (h : (subjects.map (·.1)).Nodup) :
    ((grant subjects k now tokenHex).2.map (·.1)).Nodup := by
  obtain ⟨e, -, -, heq⟩ | ⟨-, heq⟩ := grant_cases k now tokenHex h
  · rw [heq]
    exact h
  · rw [heq]
    exact nodup_put (nodup_makeRoom h)

theorem length_grant {subjects : List (D × Subject)} (hkeys : (subjects.map (·.1)).Nodup)
    (h : subjects.length ≤ maxBoundIdentities) :
    (grant subjects k now tokenHex).2.length ≤ maxBoundIdentities := by
  obtain ⟨e, -, -, heq⟩ | ⟨-, heq⟩ := grant_cases k now tokenHex hkeys
  · rw [heq]
    exact h
  · rw [heq]
    exact length_put_le.trans (length_makeRoom h)

theorem keyed_step (hs : Keyed s) (c : Call D) : Keyed (step sha256 s c).1 := by
  cases c with
  | issue r now token tokenHex =>
    obtain h | ⟨-, h | h⟩ := issue_cases sha256 s r now token tokenHex
    · refine ⟨?_, ?_⟩
      · rw [step, h.pending]
        exact nodup_put (hs.prune now).pending
      · rw [step, h.subjects]
        exact nodup_grant (hs.prune now).subjects
    · rw [step, h]
      exact hs
    · rw [step, h]
      exact hs.prune now
  | authenticate credential projectId now contracts =>
    rw [step, authenticate_state]
    cases credential with
    | none => exact hs
    | some c => exact ⟨nodup_filter_keys hs.pending, hs.subjects⟩

theorem bounded_step (hkeys : Keyed s) (hs : Bounded s) (c : Call D) :
    Bounded (step sha256 s c).1 := by
  cases c with
  | issue r now token tokenHex =>
    obtain h | ⟨-, h | h⟩ := issue_cases sha256 s r now token tokenHex
    · refine ⟨?_, ?_⟩
      · rw [step, h.pending]
        exact length_put_le.trans h.room
      · rw [step, h.subjects]
        exact length_grant (hkeys.prune now).subjects (hs.prune now).subjects
    · rw [step, h]
      exact hs
    · rw [step, h]
      exact hs.prune now
  | authenticate credential projectId now contracts =>
    rw [step, authenticate_state]
    cases credential with
    | none => exact hs
    | some c => exact ⟨(List.length_filter_le _ _).trans hs.pending, hs.subjects⟩

/-- A pending identity that a call adds is the one of the credential it hands out. -/
theorem pending_step {c : Call D} {p : PendingIdentity D}
    (h : (k, p) ∈ (step sha256 s c).1.pending) : (k, p) ∈ s.pending ∨
      ∃ r now token tokenHex, c = .issue r now token tokenHex ∧
        Issues sha256 s r now token tokenHex ∧ k = sha256 token ∧
        p = ⟨r.projectId, (grant (s.prune now).subjects (sha256 r.encoded) now tokenHex).1,
          sha256 r.encoded, now + pendingTtlSeconds⟩ := by
  cases c with
  | issue r now token tokenHex =>
    obtain hissues | ⟨-, heq | heq⟩ := issue_cases sha256 s r now token tokenHex
    · rw [step, hissues.pending] at h
      rcases mem_put h with hnew | hold
      · obtain ⟨hk, hp⟩ := Prod.mk.inj hnew
        exact Or.inr ⟨r, now, token, tokenHex, rfl, hissues, hk, hp⟩
      · exact Or.inl (List.mem_filter.mp hold.1).1
    · rw [step, heq] at h
      exact Or.inl h
    · rw [step, heq] at h
      exact Or.inl (List.mem_filter.mp h).1
  | authenticate credential projectId now contracts =>
    rw [step, authenticate_state] at h
    cases credential with
    | none => exact Or.inl h
    | some c => exact Or.inl (mem_pop.mp h).1

/-- A subject that a call adds is the one it gives to its binding. -/
theorem subject_step {c : Call D} {e : Subject} (hs : Keyed s)
    (h : (k, e) ∈ (step sha256 s c).1.subjects) : (k, e) ∈ s.subjects ∨
      ∃ r now token tokenHex, c = .issue r now token tokenHex ∧
        Issues sha256 s r now token tokenHex ∧ k = sha256 r.encoded ∧
        e = ⟨"pc-child-" ++ tokenHex, now + subjectTtlSeconds⟩ ∧
        (grant (s.prune now).subjects (sha256 r.encoded) now tokenHex).1 = e.subjectId := by
  cases c with
  | issue r now token tokenHex =>
    obtain hissues | ⟨-, heq | heq⟩ := issue_cases sha256 s r now token tokenHex
    · rw [step, hissues.subjects] at h
      obtain ⟨e', -, -, hgrant⟩ | ⟨-, hgrant⟩ :=
        grant_cases (sha256 r.encoded) now tokenHex (hs.prune now).subjects
      · rw [hgrant] at h
        exact Or.inl (List.mem_filter.mp h).1
      · rw [hgrant] at h
        rcases mem_put h with hnew | hold
        · obtain ⟨hk, he⟩ := Prod.mk.inj hnew
          exact Or.inr ⟨r, now, token, tokenHex, rfl, hissues, hk, he, by rw [hgrant, he]⟩
        · exact Or.inl (List.mem_filter.mp (mem_of_makeRoom hold.1)).1
    · rw [step, heq] at h
      exact Or.inl h
    · rw [step, heq] at h
      exact Or.inl (List.mem_filter.mp h).1
  | authenticate credential projectId now contracts =>
    rw [step, authenticate_state] at h
    cases credential with
    | none => exact Or.inl h
    | some c => exact Or.inl h

/-- An entry makes room for the new one of another binding. -/
structure MakesRoom (sha256 : ByteArray → D) (s : Issuer D) (now : ℚ) (r : ChildRequest) (k : D)
    (e : Subject) : Prop where
  other : sha256 r.encoded ≠ k
  new : ∀ e', (sha256 r.encoded, e') ∉ (s.prune now).subjects
  full : maxBoundIdentities ≤ (s.prune now).subjects.length
  present : (k, e) ∈ (s.prune now).subjects
  oldest : ∀ e' ∈ (s.prune now).subjects, e.expiresAt ≤ e'.2.expiresAt

/-- A subject stays until its entry expires or makes room. -/
theorem keep_step (sha256 : ByteArray → D) (c : Call D) {e : Subject} (hs : Keyed s) (h : (k, e) ∈ s.subjects) :
    (k, e) ∈ (step sha256 s c).1.subjects ∨
      ∃ r now token tokenHex, c = .issue r now token tokenHex ∧
        (e.expiresAt ≤ now ∨ MakesRoom sha256 s now r k e) := by
  cases c with
  | issue r now token tokenHex =>
    by_cases hexpired : e.expiresAt ≤ now
    · exact Or.inr ⟨r, now, token, tokenHex, rfl, Or.inl hexpired⟩
    have hlive : (k, e) ∈ (s.prune now).subjects :=
      List.mem_filter.mpr ⟨h, by simpa using hexpired⟩
    obtain hissues | ⟨-, heq | heq⟩ := issue_cases sha256 s r now token tokenHex
    · rw [step, hissues.subjects]
      obtain ⟨e', -, -, hgrant⟩ | ⟨hold, hgrant⟩ :=
        grant_cases (sha256 r.encoded) now tokenHex (hs.prune now).subjects
      · rw [hgrant]
        exact Or.inl hlive
      · rw [hgrant]
        have hne : k ≠ sha256 r.encoded := by
          rintro rfl
          exact hexpired (hold e hlive)
        rcases makeRoom_cases (hs.prune now).subjects hlive with hstays | ⟨hfull, hleast⟩
        · exact Or.inl (mem_put_of_ne hstays hne)
        · refine Or.inr ⟨r, now, token, tokenHex, rfl, Or.inr ⟨hne.symm, ?_, hfull, hlive, hleast⟩⟩
          intro e' he'
          have hnot := hold e' he'
          have hlate := (List.mem_filter.mp he').2
          simp only [decide_eq_true_eq] at hlate
          exact absurd hnot (not_le_of_gt hlate)
    · rw [step, heq]
      exact Or.inl h
    · rw [step, heq]
      exact Or.inl hlive
  | authenticate credential projectId now contracts =>
    rw [step, authenticate_state]
    cases credential with
    | none => exact Or.inl h
    | some c => exact Or.inl h

end Steps

section Runs

/-- Two calls that draw the same value are one call. -/
theorem eq_of_drawn {D V : Type} {calls : List (Call D)} {draw : Call D → Option V}
    (h : calls.Pairwise (fun c c' => ∀ x, draw c = some x → draw c' ≠ some x)) {i j : ℕ}
    {c c' : Call D} {x : V} (hi : calls[i]? = some c) (hj : calls[j]? = some c')
    (hx : draw c = some x) (hx' : draw c' = some x) : i = j := by
  obtain ⟨hil, rfl⟩ := List.getElem?_eq_some_iff.mp hi
  obtain ⟨hjl, rfl⟩ := List.getElem?_eq_some_iff.mp hj
  rw [List.pairwise_iff_getElem] at h
  rcases Nat.lt_trichotomy i j with hlt | heq | hgt
  · exact absurd hx' (h i j hil hjl hlt x hx)
  · exact heq
  · exact absurd hx (h j i hjl hil hgt x hx')

variable {D : Type} [DecidableEq D] {sha256 : ByteArray → D} {calls : List (Call D)}

def Call.token? : Call D → Option ByteArray
  | .issue _ _ token _ => some token
  | .authenticate _ _ _ _ => none

def Call.tokenHex? : Call D → Option String
  | .issue _ _ _ tokenHex => some tokenHex
  | .authenticate _ _ _ _ => none

/-- No two calls draw the same random values. -/
structure FreshValues (calls : List (Call D)) : Prop where
  tokens : calls.Pairwise (fun c c' => ∀ t, c.token? = some t → c'.token? ≠ some t)
  subjects : calls.Pairwise (fun c c' => ∀ x, c.tokenHex? = some x → c'.tokenHex? ≠ some x)

/-- The call with number `i` issued the credential and gave the subject to its binding. -/
def Issued (sha256 : ByteArray → D) (calls : List (Call D)) (i : ℕ) (r : ChildRequest) (now : ℚ)
    (credential : Credential D) (subjectId : String) : Prop :=
  ∃ tokenHex, calls[i]? = some (.issue r now credential.token tokenHex) ∧
    (issue sha256 (stateAt sha256 calls i) r now credential.token tokenHex).2 = .ok credential ∧
    ((stateAt sha256 calls (i + 1)).pending.lookup (sha256 credential.token)).map (·.subjectId) =
      some subjectId

/-- The call with number `j` accepted the credential. -/
def Authenticated (sha256 : ByteArray → D) (calls : List (Call D)) (j : ℕ)
    (credential : Credential D) (projectId : String) (now : ℚ) (principal : Principal) : Prop :=
  ∃ contracts, calls[j]? = some (.authenticate (some credential) projectId now contracts) ∧
    (authenticate sha256 (stateAt sha256 calls j) (some credential) projectId now contracts).2 =
      .ok (some principal)

/-- A call with number `m` to issue reads a clock at which an entry has expired. -/
def Expires (calls : List (Call D)) (m : ℕ) (expiresAt : ℚ) : Prop :=
  ∃ r now token tokenHex, calls[m]? = some (.issue r now token tokenHex) ∧ expiresAt ≤ now

/-- A call with number `m` adds a new binding, and the entry of `r` is the oldest of all. -/
def Evicts (sha256 : ByteArray → D) (calls : List (Call D)) (m : ℕ) (r : ChildRequest) : Prop :=
  ∃ r' now token tokenHex e, calls[m]? = some (.issue r' now token tokenHex) ∧ r' ≠ r ∧
    (∀ e', (sha256 r'.encoded, e') ∉ ((stateAt sha256 calls m).prune now).subjects) ∧
    ((stateAt sha256 calls m).prune now).subjects.length = maxBoundIdentities ∧
    (sha256 r.encoded, e) ∈ ((stateAt sha256 calls m).prune now).subjects ∧
    ∀ e' ∈ ((stateAt sha256 calls m).prune now).subjects, e.expiresAt ≤ e'.2.expiresAt

theorem stateAt_zero : stateAt sha256 calls 0 = {} := by
  simp [stateAt]

theorem stateAt_succ {n : ℕ} {c : Call D} (h : calls[n]? = some c) :
    stateAt sha256 calls (n + 1) = (step sha256 (stateAt sha256 calls n) c).1 := by
  rw [stateAt, stateAt, List.take_add_one, h, Option.toList_some, List.foldl_append,
    List.foldl_cons, List.foldl_nil]

theorem stateAt_end {n : ℕ} (h : calls[n]? = none) :
    stateAt sha256 calls (n + 1) = stateAt sha256 calls n := by
  rw [stateAt, stateAt, List.take_add_one, h, Option.toList_none, List.append_nil]

theorem keyed_at (sha256 : ByteArray → D) (calls : List (Call D)) (n : ℕ) :
    Keyed (stateAt sha256 calls n) := by
  induction n with
  | zero =>
    rw [stateAt_zero]
    exact ⟨List.nodup_nil, List.nodup_nil⟩
  | succ n ih =>
    cases hc : calls[n]? with
    | none => exact stateAt_end hc ▸ ih
    | some c => exact stateAt_succ hc ▸ keyed_step ih c

theorem bounded_at (sha256 : ByteArray → D) (calls : List (Call D)) (n : ℕ) :
    Bounded (stateAt sha256 calls n) := by
  induction n with
  | zero =>
    rw [stateAt_zero]
    exact ⟨Nat.zero_le _, Nat.zero_le _⟩
  | succ n ih =>
    cases hc : calls[n]? with
    | none => exact stateAt_end hc ▸ ih
    | some c => exact stateAt_succ hc ▸ bounded_step (keyed_at sha256 calls n) ih c

theorem issued_of_issues {i : ℕ} {r : ChildRequest} {now : ℚ} {token : ByteArray}
    {tokenHex : String} (hc : calls[i]? = some (.issue r now token tokenHex))
    (h : Issues sha256 (stateAt sha256 calls i) r now token tokenHex) :
    Issued sha256 calls i r now ⟨token, r.projectId, sha256 r.encoded⟩
      (grant ((stateAt sha256 calls i).prune now).subjects (sha256 r.encoded) now tokenHex).1 := by
  refine ⟨tokenHex, hc, h.credential, ?_⟩
  have hkeys := (keyed_at sha256 calls (i + 1)).pending
  rw [stateAt_succ hc, step, h.pending] at hkeys ⊢
  rw [(lookup_eq_some hkeys).mpr mem_put_self]
  rfl

/-- The credential and the subject of a call that issued one. -/
theorem Issued.issues {i : ℕ} {r : ChildRequest} {now : ℚ} {credential : Credential D}
    {subjectId : String} (h : Issued sha256 calls i r now credential subjectId) :
    ∃ tokenHex, calls[i]? = some (.issue r now credential.token tokenHex) ∧
      Issues sha256 (stateAt sha256 calls i) r now credential.token tokenHex ∧
      credential = ⟨credential.token, r.projectId, sha256 r.encoded⟩ ∧ subjectId =
        (grant ((stateAt sha256 calls i).prune now).subjects (sha256 r.encoded) now tokenHex).1 := by
  obtain ⟨tokenHex, hc, hok, hsubject⟩ := h
  obtain hissues | ⟨⟨e, herror⟩, -⟩ :=
    issue_cases sha256 (stateAt sha256 calls i) r now credential.token tokenHex
  · refine ⟨tokenHex, hc, hissues, ?_, ?_⟩
    · exact Except.ok.inj (hok.symm.trans hissues.credential)
    · obtain ⟨_, hc', -, hsubject'⟩ := issued_of_issues hc hissues
      rw [hsubject] at hsubject'
      exact Option.some.inj hsubject'
  · rw [hok] at herror
    cases herror

/-- A pending identity was there before, or one of the calls since then issued its credential. -/
theorem pending_at {k : D} {p : PendingIdentity D} {m n : ℕ} (hmn : m ≤ n)
    (h : (k, p) ∈ (stateAt sha256 calls n).pending) :
    (k, p) ∈ (stateAt sha256 calls m).pending ∨ ∃ i r now credential, m ≤ i ∧ i < n ∧
      Issued sha256 calls i r now credential p.subjectId ∧ k = sha256 credential.token ∧
      p.projectId = r.projectId ∧ p.bindingDigest = sha256 r.encoded ∧
      p.expiresAt = now + pendingTtlSeconds := by
  induction hmn with
  | refl => exact Or.inl h
  | @step n hmn ih =>
    have hold : (k, p) ∈ (stateAt sha256 calls n).pending →
        (k, p) ∈ (stateAt sha256 calls m).pending ∨ ∃ i r now credential, m ≤ i ∧ i < n + 1 ∧
          Issued sha256 calls i r now credential p.subjectId ∧ k = sha256 credential.token ∧
          p.projectId = r.projectId ∧ p.bindingDigest = sha256 r.encoded ∧
          p.expiresAt = now + pendingTtlSeconds := by
      intro hn
      obtain hm | ⟨i, r, now, credential, hi, hin, hrest⟩ := ih hn
      · exact Or.inl hm
      · exact Or.inr ⟨i, r, now, credential, hi, Nat.lt_succ_of_lt hin, hrest⟩
    cases hc : calls[n]? with
    | none =>
      rw [stateAt_end hc] at h
      exact hold h
    | some c =>
      rw [stateAt_succ hc] at h
      obtain hn | ⟨r, now, token, tokenHex, rfl, hissues, rfl, rfl⟩ := pending_step h
      · exact hold hn
      · exact Or.inr ⟨n, r, now, _, hmn, Nat.lt_succ_self n, issued_of_issues hc hissues, rfl, rfl,
          rfl, rfl⟩

/-- An entry of a binding was added by a call for it, which gave it its subject. -/
theorem subject_at {k : D} {e : Subject} {n : ℕ} (h : (k, e) ∈ (stateAt sha256 calls n).subjects) :
    ∃ i < n, ∃ r now token tokenHex credential, calls[i]? = some (.issue r now token tokenHex) ∧
      Issued sha256 calls i r now credential e.subjectId ∧ k = sha256 r.encoded ∧
      e = ⟨"pc-child-" ++ tokenHex, now + subjectTtlSeconds⟩ := by
  induction n with
  | zero =>
    rw [stateAt_zero] at h
    cases h
  | succ n ih =>
    have hold : (k, e) ∈ (stateAt sha256 calls n).subjects →
        ∃ i < n + 1, ∃ r now token tokenHex credential,
          calls[i]? = some (.issue r now token tokenHex) ∧
          Issued sha256 calls i r now credential e.subjectId ∧ k = sha256 r.encoded ∧
          e = ⟨"pc-child-" ++ tokenHex, now + subjectTtlSeconds⟩ := by
      intro hn
      obtain ⟨i, hi, hrest⟩ := ih hn
      exact ⟨i, Nat.lt_succ_of_lt hi, hrest⟩
    cases hc : calls[n]? with
    | none =>
      rw [stateAt_end hc] at h
      exact hold h
    | some c =>
      rw [stateAt_succ hc] at h
      obtain hn | ⟨r, now, token, tokenHex, rfl, hissues, hk, he, hgiven⟩ :=
        subject_step (keyed_at sha256 calls n) h
      · exact hold hn
      · have hissued := issued_of_issues hc hissues
        rw [hgiven] at hissued
        exact ⟨n, Nat.lt_succ_self n, r, now, token, tokenHex, _, hc, hissued, hk, he⟩

/-- The call that gave the binding its subject first, and the entry it left. -/
theorem Issued.first (hsha : Function.Injective sha256) {i : ℕ} {r : ChildRequest} {now : ℚ}
    {credential : Credential D} {subjectId : String}
    (h : Issued sha256 calls i r now credential subjectId) :
    ∃ j ≤ i, ∃ now' token tokenHex credential', calls[j]? = some (.issue r now' token tokenHex) ∧
      Issued sha256 calls j r now' credential' subjectId ∧ subjectId = "pc-child-" ++ tokenHex ∧
      (sha256 r.encoded, ⟨subjectId, now' + subjectTtlSeconds⟩) ∈
        (stateAt sha256 calls (i + 1)).subjects := by
  obtain ⟨tokenHex, hc, hissues, -, hsubject⟩ := h.issues
  rw [stateAt_succ hc, step, hissues.subjects]
  obtain ⟨e, he, -, hgrant⟩ | ⟨-, hgrant⟩ := grant_cases (sha256 r.encoded) now tokenHex
    ((keyed_at sha256 calls i).prune now).subjects
  · rw [hgrant] at hsubject ⊢
    obtain ⟨j, hj, r', now', token, tokenHex', credential', hcall, hissued, hk, hentry⟩ :=
      subject_at (List.mem_filter.mp he).1
    obtain rfl : r = r' := encoded_injective (hsha hk)
    rw [hsubject]
    refine ⟨j, Nat.le_of_lt hj, now', token, tokenHex', credential', hcall, hissued, ?_, ?_⟩
    · rw [hentry]
    · rw [hentry] at he ⊢
      exact he
  · rw [hgrant] at hsubject ⊢
    refine ⟨i, Nat.le_refl i, now, credential.token, tokenHex, credential, hc, h, hsubject, ?_⟩
    rw [hsubject]
    exact mem_put_self

/-- An entry is kept by all calls up to one at which it expires or makes room. -/
theorem kept_until {r : ChildRequest} {e : Subject} {i n : ℕ}
    (hin : i ≤ n) (h : (sha256 r.encoded, e) ∈ (stateAt sha256 calls i).subjects) :
    (sha256 r.encoded, e) ∈ (stateAt sha256 calls n).subjects ∨
      ∃ m, i ≤ m ∧ m < n ∧ (Expires calls m e.expiresAt ∨ Evicts sha256 calls m r) := by
  induction hin with
  | refl => exact Or.inl h
  | @step n hin ih =>
    obtain hn | ⟨m, him, hmn, hlost⟩ := ih
    · cases hc : calls[n]? with
      | none => exact Or.inl (stateAt_end hc ▸ hn)
      | some c =>
        rw [stateAt_succ hc]
        obtain hkept | ⟨r', now, token, tokenHex, rfl, hexpired | hroom⟩ :=
          keep_step sha256 c (keyed_at sha256 calls n) hn
        · exact Or.inl hkept
        · exact Or.inr ⟨n, hin, Nat.lt_succ_self n,
            Or.inl ⟨r', now, token, tokenHex, hc, hexpired⟩⟩
        · have hlength := ((bounded_at sha256 calls n).prune now).subjects
          refine Or.inr ⟨n, hin, Nat.lt_succ_self n, Or.inr ⟨r', now, token, tokenHex, e, hc, ?_,
            hroom.new, Nat.le_antisymm hlength hroom.full, hroom.present, hroom.oldest⟩⟩
          rintro rfl
          exact hroom.other rfl
    · exact Or.inr ⟨m, him, Nat.lt_succ_of_lt hmn, hlost⟩

/-- An accepted credential was issued for its project less than 60 seconds before. -/
theorem Authenticated.issued {j : ℕ} {credential : Credential D} {projectId : String} {now : ℚ}
    {principal : Principal} (hsha : Function.Injective sha256)
    (h : Authenticated sha256 calls j credential projectId now principal) :
    ∃ i < j, ∃ r now', Issued sha256 calls i r now' credential principal.subjectId ∧
      projectId = r.projectId ∧ now < now' + pendingTtlSeconds := by
  obtain ⟨contracts, -, hok⟩ := h
  obtain ⟨p, hmem, hlive, hproject, hcredential, hdigest, hsubject⟩ :=
    authenticate_ok (keyed_at sha256 calls j) hok
  obtain hnone | ⟨i, r, now', issued, -, hij, hissued, htoken, hproject', hdigest', hexpires⟩ :=
    pending_at (Nat.zero_le j) hmem
  · rw [stateAt_zero] at hnone
    cases hnone
  · obtain ⟨_, -, -, hshape, -⟩ := hissued.issues
    have hsame : credential = issued := by
      rw [hshape]
      cases credential
      simp only [Credential.mk.injEq]
      exact ⟨hsha htoken, hcredential.trans (hproject.symm.trans hproject'),
        hdigest.symm.trans hdigest'⟩
    refine ⟨i, hij, r, now', ?_, hproject.symm.trans hproject', hexpires ▸ hlive⟩
    rw [hsubject, hsame]
    exact hissued

/-- An accepted credential is pending no more. -/
theorem Authenticated.spent {j : ℕ} {credential : Credential D} {projectId : String} {now : ℚ}
    {principal : Principal} (h : Authenticated sha256 calls j credential projectId now principal)
    (p : PendingIdentity D) :
    (sha256 credential.token, p) ∉ (stateAt sha256 calls (j + 1)).pending := by
  obtain ⟨contracts, hc, -⟩ := h
  rw [stateAt_succ hc, step, authenticate_state]
  exact fun hp => (mem_pop.mp hp).2 rfl

theorem Authenticated.once {j j' : ℕ} {credential credential' : Credential D}
    {projectId projectId' : String} {now now' : ℚ} {principal principal' : Principal}
    (hsha : Function.Injective sha256) (hfresh : FreshValues calls)
    (h : Authenticated sha256 calls j credential projectId now principal)
    (h' : Authenticated sha256 calls j' credential' projectId' now' principal')
    (htoken : credential.token = credential'.token) (hlt : j < j') : False := by
  obtain ⟨i, hij, r, t, ⟨_, hc, -, -⟩, -, -⟩ := h.issued hsha
  obtain ⟨contracts, -, hok⟩ := h'
  obtain ⟨p, hmem, -⟩ := authenticate_ok (keyed_at sha256 calls j') hok
  -- the token is taken out at the first acceptance, so a later call issued it again
  obtain hold | ⟨i', r', t', issued, hji, -, ⟨_, hc', -, -⟩, hk, -⟩ := pending_at hlt hmem
  · rw [← htoken] at hold
    exact h.spent p hold
  · have hsame : issued.token = credential.token := htoken ▸ (hsha hk).symm
    have heq : i = i' := eq_of_drawn hfresh.tokens hc hc' rfl (congrArg some hsame)
    omega

/-- Credentials are accepted once, by the authenticator of their project, within 60 seconds,
as the subject given at their issue; subjects belong to one binding each; a binding keeps its
subject until its entry expires or is the oldest of a full table; and the tables are bounded. -/
theorem credentials_are_single_use (hsha : Function.Injective sha256)
    (hfresh : FreshValues calls) :
    (∀ j credential projectId now principal,
      Authenticated sha256 calls j credential projectId now principal →
      ∃ i < j, ∃ r now', Issued sha256 calls i r now' credential principal.subjectId ∧
        projectId = r.projectId ∧ now < now' + pendingTtlSeconds) ∧
    (∀ j j' credential credential' projectId projectId' now now' principal principal',
      Authenticated sha256 calls j credential projectId now principal →
      Authenticated sha256 calls j' credential' projectId' now' principal' →
      credential.token = credential'.token → j = j') ∧
    (∀ i i' r r' now now' credential credential' subjectId,
      Issued sha256 calls i r now credential subjectId →
      Issued sha256 calls i' r' now' credential' subjectId → r = r') ∧
    (∀ i k r now now' credential credential' subjectId subjectId', i < k →
      Issued sha256 calls i r now credential subjectId →
      Issued sha256 calls k r now' credential' subjectId' → subjectId' = subjectId ∨
        ∃ j ≤ i, ∃ added first, Issued sha256 calls j r added first subjectId ∧
          ∃ m, i < m ∧ m ≤ k ∧
            (Expires calls m (added + subjectTtlSeconds) ∨ Evicts sha256 calls m r)) ∧
    ∀ n, (stateAt sha256 calls n).pending.length ≤ maxPendingCredentials ∧
      (stateAt sha256 calls n).subjects.length ≤ maxBoundIdentities := by
  refine ⟨fun j _ _ _ _ h => h.issued hsha, ?_, ?_, ?_, fun n => ?_⟩
  · intro j j' _ _ _ _ _ _ _ _ h h' htoken
    rcases Nat.lt_trichotomy j j' with hlt | heq | hgt
    · exact (h.once hsha hfresh h' htoken hlt).elim
    · exact heq
    · exact (h'.once hsha hfresh h htoken.symm hgt).elim
  · intro i i' r r' _ _ _ _ subjectId h h'
    obtain ⟨j, -, now, token, tokenHex, _, hc, -, hsubject, -⟩ := h.first hsha
    obtain ⟨j', -, now', token', tokenHex', _, hc', -, hsubject', -⟩ := h'.first hsha
    have hhex : tokenHex' = tokenHex := String.append_right_inj "pc-child-" |>.mp
      (hsubject'.symm.trans hsubject)
    have hcall : j = j' := eq_of_drawn hfresh.subjects hc hc' rfl (congrArg some hhex)
    subst hcall
    rw [hc] at hc'
    simp only [Option.some.injEq, Call.issue.injEq] at hc'
    exact hc'.1
  · intro i k r _ now' _ credential' subjectId subjectId' hik h h'
    obtain ⟨j, hji, added, _, _, first, -, hfirst, -, hentry⟩ := h.first hsha
    obtain hkept | ⟨m, him, hmk, hlost⟩ := kept_until hik hentry
    · obtain ⟨tokenHex, hc, hissues, -, hsubject⟩ := h'.issues
      by_cases hexpired : added + subjectTtlSeconds ≤ now'
      · exact Or.inr ⟨j, hji, added, first, hfirst, k, hik, Nat.le_refl k,
          Or.inl ⟨r, now', _, tokenHex, hc, hexpired⟩⟩
      · -- the entry is still there and gives the binding its subject again
        have hlive : (sha256 r.encoded, (⟨subjectId, added + subjectTtlSeconds⟩ : Subject)) ∈
            ((stateAt sha256 calls k).prune now').subjects :=
          List.mem_filter.mpr ⟨hkept, by simpa using hexpired⟩
        have hkeys := ((keyed_at sha256 calls k).prune now').subjects
        obtain ⟨e, he, -, hgrant⟩ | ⟨hold, -⟩ := grant_cases (sha256 r.encoded) now' tokenHex hkeys
        · have hsame := (lookup_eq_some hkeys).mpr he
          rw [(lookup_eq_some hkeys).mpr hlive] at hsame
          rw [hsubject, hgrant, ← Option.some.inj hsame]
          exact Or.inl rfl
        · exact absurd (hold _ hlive) hexpired
    · exact Or.inr ⟨j, hji, added, first, hfirst, m, him, Nat.le_of_lt hmk, hlost⟩
  · exact ⟨(bounded_at sha256 calls n).pending, (bounded_at sha256 calls n).subjects⟩

end Runs

section Examples

def demoRequest : ChildRequest :=
  ⟨"project-one", "host", "coder", "attempt-one", "execution-one", "logical-one",
    [("src/child", "read")], [], ["todo.child.read"], "child-start-one"⟩

def demoCredential : Credential ByteArray :=
  ⟨⟨#[7]⟩, "project-one", demoRequest.encoded⟩

/-- A child is started with its credential, and the credential is tried again. -/
def demoCalls : List (Call ByteArray) :=
  [.issue demoRequest 0 ⟨#[7]⟩ "0a", .authenticate (some demoCredential) "project-one" 5 true,
    .authenticate (some demoCredential) "project-one" 6 true]

theorem demoCalls_fresh : FreshValues demoCalls where
  tokens := by simp [demoCalls, Call.token?]
  subjects := by simp [demoCalls, Call.tokenHex?]

theorem demo_accepted : Authenticated id demoCalls 1 demoCredential "project-one" 5
    ⟨"pc-child-0a", .automation, "Project Control delegated child"⟩ := by
  have hcheck : checkRequest demoRequest = .ok () := by decide +kernel
  have hroom : ¬ maxPendingCredentials ≤ 0 := by decide
  have hfree : ¬ maxBoundIdentities ≤ 0 := by decide
  have hlive : ¬ (pendingTtlSeconds ≤ 5) := by decide +kernel
  refine ⟨true, rfl, ?_⟩
  simp [stateAt, demoCalls, step, issue, hcheck, Issuer.prune, hroom, grant, makeRoom, hfree, put,
    authenticate, demoCredential, hlive, show demoRequest.projectId = "project-one" from rfl]

theorem child_is_accepted_once :
    Authenticated id demoCalls 1 demoCredential "project-one" 5
      ⟨"pc-child-0a", .automation, "Project Control delegated child"⟩ ∧
    ∀ j now principal,
      Authenticated id demoCalls j demoCredential "project-one" now principal → 1 = j := by
  refine ⟨demo_accepted, fun j now principal h => ?_⟩
  have hrun := credentials_are_single_use Function.injective_id demoCalls_fresh
  exact hrun.2.1 1 j _ _ _ _ _ _ _ _ demo_accepted h rfl

end Examples

end ProjectControl.ChildIdentity
