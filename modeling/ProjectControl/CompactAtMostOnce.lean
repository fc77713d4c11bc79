import Mathlib.Order.Nat
import ProjectControl.CompactSteps

/-! Concurrent callers of one phase against an authority that replays known keys
and refuses stale revisions. -/

set_option autoImplicit false

namespace ProjectControl.Compact

open Resumption Resumption.Spec

/-- The result of a commit never looks like a refusal. -/
abbrev CommitResult := { d : Dict // isAttention d = false }

/-- The native authority by its revision and the results it stored under keys;
`commits` are the commits of the callers' requests, the newest first. -/
structure Authority where
  revision : ℕ
  results : Key → Option (Payload × CommitResult)
  commits : List (Key × Payload) := []

namespace Authority

/-- The result that a key is known with for this body. -/
def known (a : Authority) (key : Key) (body : Payload) : Option CommitResult :=
  (a.results key).bind (fun entry => if entry.1 = body then some entry.2 else none)

/-- The result of a commit: what the input offers, unless it asks for attention. -/
def offered (v : Input) : CommitResult :=
  match v.reply with
  | .ok data => if hd : isAttention data = false then ⟨data, hd⟩ else ⟨[], rfl⟩
  | _ => ⟨[], rfl⟩

def commit (a : Authority) (key : Key) (body : Payload) (v : Input) : Authority where
  revision := a.revision + 1 + v.jump
  results := Function.update a.results key (some (body, offered v))
  commits := (key, body) :: a.commits

def invoke (a : Authority) (key : Key) (body : Payload) (expectedRevision : ℕ) (v : Input) :
    Authority × Reply :=
  match a.known key body with
  | some result => (a, .ok result.1)
  | none =>
    if expectedRevision ≠ a.revision then (a, .attention "stale_authority_revision")
    else (a.commit key body v, .ok (offered v).1)

/-- Any reply may be lost. -/
def host : NativeHost Authority where
  serve := fun a call v =>
    let out := match call.idempotencyKey, call.expectedRevision with
      | some key, some revision => a.invoke key ⟨call.tool, call.arguments⟩ revision v
      | _, _ => (a, .ok [("semantic_revision", .num a.revision)])
    (out.1, if v.reply = .raised then .raised else out.2)

theorem invoke_cases (a : Authority) (key : Key) (body : Payload) (revision : ℕ) (v : Input) :
    (∃ d, a.known key body = some d ∧ a.invoke key body revision v = (a, .ok d.1)) ∨
    (a.known key body = none ∧ revision ≠ a.revision ∧
      a.invoke key body revision v = (a, .attention "stale_authority_revision")) ∨
    (a.known key body = none ∧ revision = a.revision ∧
      a.invoke key body revision v = (a.commit key body v, .ok (offered v).1)) := by
  unfold invoke
  cases hk : a.known key body with
  | some d => exact Or.inl ⟨d, rfl, rfl⟩
  | none =>
    by_cases hr : revision = a.revision
    · exact Or.inr (Or.inr ⟨rfl, hr, by simp [hr]⟩)
    · exact Or.inr (Or.inl ⟨rfl, hr, by simp [hr]⟩)

@[simp] theorem known_commit_self (a : Authority) (key : Key) (body : Payload) (v : Input) :
    (a.commit key body v).known key body = some (offered v) := by
  simp [known, commit]

theorem known_commit_of_ne (a : Authority) {key other : Key} (body body' : Payload) (v : Input)
    (hne : other ≠ key) : (a.commit key body v).known other body' = a.known other body' := by
  simp [known, commit, Function.update_of_ne hne]

theorem revision_le_invoke (a : Authority) (key : Key) (body : Payload) (revision : ℕ)
    (v : Input) : a.revision ≤ (a.invoke key body revision v).1.revision := by
  rcases invoke_cases a key body revision v with ⟨d, -, h⟩ | ⟨-, -, h⟩ | ⟨-, -, h⟩
  · rw [h]
  · rw [h]
  · rw [h]
    simp only [commit]
    omega

/-- A key that is known for one body stays known when another key is used. -/
theorem known_invoke_of_ne (a : Authority) {key other : Key} (body body' : Payload)
    (revision : ℕ) (v : Input) (hne : other ≠ key) :
    (a.invoke key body revision v).1.known other body' = a.known other body' := by
  rcases invoke_cases a key body revision v with ⟨d, -, h⟩ | ⟨-, -, h⟩ | ⟨-, -, h⟩
  · rw [h]
  · rw [h]
  · rw [h]
    exact known_commit_of_ne a body body' v hne

end Authority

/-- A call of the authority by another writer. -/
structure OtherWriter where
  key : Key
  body : Payload
  expectedRevision : ℕ
  input : Input

/-- Keys digest the handle, so no other writer holds a key that the phase has
committed. The commits of other writers are not the phase's. -/
def otherWrites (payload : Payload) (s : World Authority) (w : OtherWriter) :
    Option (World Authority) :=
  if (s.native.known w.key payload).isSome then none
  else
    let a := (s.native.invoke w.key w.body w.expectedRevision w.input).1
    some { s with native := { a with commits := s.native.commits } }

/-- The callers' own arguments of `_invoke_phase`. -/
structure PhaseCall where
  record : Record
  expectedRevision : Option ℕ
  idempotencyKey : Option Key

/-- Any number of callers of one phase of one handle with the same request. -/
def phaseSystem (c : Codec) (t : Target) (name : PhaseName) (payload : Payload) :
    System ℕ (World Authority) Input Label Err (Dict × Record) PhaseCall OtherWriter where
  program := fun _ call => invokePhase Authority.host c t call.record name payload
    call.expectedRevision call.idempotencyKey
  crash := fun _ s => s
  env := otherWrites payload

/-- A first intent takes a revision that the authority has reached, and a refresh
that changes the intent finds the request that was refused still in place. -/
def RefreshesOwnRejection (s : World Authority) : Label → Prop
  | .persist h name intent =>
    s.intent h name = none → intent.expectedRevision ≤ s.native.revision
  | .refresh h name rejected revision => ∀ i, s.intent h name = some i →
    i.expectedRevision = revision ∨ (i.idempotencyKey, i.expectedRevision) = rejected
  | _ => True

instance (s : World Authority) : (l : Label) → Decidable (RefreshesOwnRejection s l)
  | .persist h name intent =>
    inferInstanceAs (Decidable (s.intent h name = none → intent.expectedRevision ≤ _))
  | .refresh h name rejected revision =>
    inferInstanceAs (Decidable (∀ i ∈ s.intent h name, i.expectedRevision = revision ∨
      (i.idempotencyKey, i.expectedRevision) = rejected))
  | .read | .native _ | .update .. | .select _ | .reserve => isTrue trivial

section AtMostOnce

variable (h : Handle) (name : PhaseName) (payload : Payload)

/-- The stored intent is for the payload, is not ahead of the authority, and is
the only request that can have been committed. -/
structure CommitInv (s : World Authority) : Prop where
  unstarted : s.intent h name = none → s.native.commits = []
  stored : ∀ i, s.intent h name = some i →
    i.payload = payload ∧ i.expectedRevision ≤ s.native.revision ∧
      (s.native.commits = [] ∨ s.native.commits = [(i.idempotencyKey, payload)] ∧
        (s.native.known i.idempotencyKey payload).isSome ∧
        i.expectedRevision < s.native.revision)

/-- The revision and the stored revision only grow, and nothing is committed while
the stored request is behind the authority. -/
def Advances (s s' : World Authority) : Prop :=
  s.native.revision ≤ s'.native.revision ∧
  ∀ i, s.intent h name = some i → ∃ i', s'.intent h name = some i' ∧
    ((i'.idempotencyKey = i.idempotencyKey ∧ i'.expectedRevision = i.expectedRevision ∧
      (i.expectedRevision < s.native.revision → s'.native.commits = s.native.commits)) ∨
    i.expectedRevision < i'.expectedRevision)

/-- The request is the stored one or an earlier one. -/
def Issued (request : Key × ℕ) (s : World Authority) : Prop :=
  ∃ i, s.intent h name = some i ∧
    (request = (i.idempotencyKey, i.expectedRevision) ∨ request.2 < i.expectedRevision)

/-- What a record that was read tells about the phase's request. -/
def IntentIssued (record : Record) (s : World Authority) : Prop :=
  ∀ i, record.intent name = some i →
    Issued h name (i.idempotencyKey, i.expectedRevision) s

/-- The request was refused as stale: if it is still stored, nothing is committed. -/
def Rejected (request : Key × ℕ) (s : World Authority) : Prop :=
  Issued h name request s ∧ request.2 < s.native.revision ∧
  ∀ i, s.intent h name = some i → request = (i.idempotencyKey, i.expectedRevision) →
    s.native.commits = []

def commitSpec : Spec ℕ (World Authority) Label where
  inv := CommitInv h name payload
  cond := RefreshesOwnRejection
  guar := fun _ => Advances h name
  env := Advances h name

variable {h name payload}

theorem advances_of_eq {s s' : World Authority} (hr : s'.native.revision = s.native.revision)
    (hi : s'.intent h name = s.intent h name) (hc : s'.native.commits = s.native.commits) :
    Advances h name s s' :=
  ⟨hr.ge, fun i h' => ⟨i, hi.trans h', Or.inl ⟨rfl, rfl, fun _ => hc⟩⟩⟩

theorem stable_of_advances {i : ℕ} {B : World Authority → Prop}
    (hB : ∀ s s', Advances h name s s' → B s → B s') :
    (commitSpec h name payload).Stable i B := by
  rintro s s' ⟨-, -, ⟨j, -, hg⟩ | he⟩ hb
  · exact hB s s' hg hb
  · exact hB s s' he hb

theorem issued_advances {request : Key × ℕ} {s s' : World Authority}
    (ha : Advances h name s s') (hi : Issued h name request s) : Issued h name request s' := by
  obtain ⟨i, hs, hreq⟩ := hi
  obtain ⟨i', hs', ⟨hk, hr, -⟩ | hlt⟩ := ha.2 i hs
  · exact ⟨i', hs', by rw [hk, hr]; exact hreq⟩
  · refine ⟨i', hs', Or.inr ?_⟩
    rcases hreq with rfl | hreq
    · exact hlt
    · exact hreq.trans hlt

theorem intentIssued_stable {i : ℕ} (record : Record) :
    (commitSpec h name payload).Stable i (IntentIssued h name record) :=
  stable_of_advances (fun _ _ ha hi j hj => issued_advances ha (hi j hj))

theorem intentIssued_of_record {s : World Authority} {p r : String} {record : Record}
    (ho : s.journal.record h = some (p, r, record)) : IntentIssued h name record s :=
  fun i hi => ⟨i, (World.intent_eq ho name).trans hi, Or.inl rfl⟩

theorem rejected_advances {request : Key × ℕ} {s s' : World Authority}
    (ha : Advances h name s s') (hr : Rejected h name request s) :
    Rejected h name request s' := by
  obtain ⟨hi, hlt, hc⟩ := hr
  refine ⟨issued_advances ha hi, hlt.trans_le ha.1, fun i' hs' he => ?_⟩
  obtain ⟨i, hs, hreq⟩ := hi
  obtain ⟨i'', hs'', hcase⟩ := ha.2 i hs
  obtain rfl : i'' = i' := Option.some.inj (hs''.symm.trans hs')
  rcases hcase with ⟨hk, hrev, hkeep⟩ | hgt
  · -- the same request is still stored, and it is behind the authority
    have he' : request = (i.idempotencyKey, i.expectedRevision) := by rw [he, hk, hrev]
    rw [hkeep (by rw [he'] at hlt; exact hlt)]
    exact hc i hs he'
  · -- the stored revision has grown past the request
    exfalso
    rw [he] at hreq
    rcases hreq with hreq | hreq
    · exact absurd (Prod.ext_iff.mp hreq).2 (by simp only; omega)
    · exact absurd hreq (by simp only; omega)

theorem observed_stable {i : ℕ} (request : Key × ℕ) (revision : ℕ) :
    (commitSpec h name payload).Stable i (fun s => Rejected h name request s ∧
      request.2 < revision ∧ revision ≤ s.native.revision) :=
  stable_of_advances (fun _ _ ha hb =>
    ⟨rejected_advances ha hb.1, hb.2.1, hb.2.2.trans ha.1⟩)

variable {c : Codec} {t : Target} {i : ℕ}

theorem result_of_delivered {v : Input} {reply : Reply} {d : Dict}
    (hd : (if v.reply = .raised then Reply.raised else reply).result = .ok d) :
    reply.result = .ok d := by
  split at hd
  · cases hd
  · exact hd

theorem isStale_eq_false {d : Dict} (hd : isAttention d = false) : isStale d = false := by
  simp [isStale, hd]

/-- A request that was issued and is at the authority's revision is the stored one,
and nothing has been committed yet. -/
theorem stored_of_current {request : Key × ℕ} {s : World Authority}
    (hs : CommitInv h name payload s) (hb : Issued h name request s)
    (hr : request.2 = s.native.revision) :
    s.native.commits = [] ∧ ∃ i, s.intent h name = some i ∧
      request = (i.idempotencyKey, i.expectedRevision) := by
  obtain ⟨i, hi, hreq⟩ := hb
  obtain ⟨-, hle, hcom⟩ := hs.stored i hi
  rcases hreq with rfl | hlt
  · refine ⟨?_, i, hi, rfl⟩
    rcases hcom with hcom | ⟨-, -, hlt⟩
    · exact hcom
    · exact absurd hr hlt.ne
  · omega

theorem commitInv_commit {request : Key × ℕ} {s : World Authority} {v : Input} {sent : List Sent}
    (hs : CommitInv h name payload s) (hb : Issued h name request s)
    (hr : request.2 = s.native.revision) :
    let s' := { s with native := s.native.commit request.1 payload v, sent := sent }
    CommitInv h name payload s' ∧ Advances h name s s' := by
  obtain ⟨hnil, i, hi, rfl⟩ := stored_of_current hs hb hr
  refine ⟨⟨fun hn => ?_, fun i' hi' => ?_⟩, ?_, fun i' hi' => ⟨i', hi', Or.inl ⟨rfl, rfl, ?_⟩⟩⟩
  · exact absurd (hi.symm.trans hn) (by simp)
  · obtain rfl : i = i' := Option.some.inj (hi.symm.trans hi')
    obtain ⟨hp, hle, -⟩ := hs.stored i hi
    simp only at hr
    refine ⟨hp, ?_, Or.inr ⟨?_, ?_, ?_⟩⟩
    · simp only [Authority.commit]
      omega
    · simp [Authority.commit, hnil]
    · simp
    · simp only [Authority.commit]
      omega
  · simp only [Authority.commit]
    omega
  · obtain rfl : i = i' := Option.some.inj (hi.symm.trans hi')
    intro hlt
    exact absurd hr hlt.ne

theorem rejected_of_stale {request : Key × ℕ} {s : World Authority}
    (hs : CommitInv h name payload s) (hb : Issued h name request s)
    (hk : s.native.known request.1 payload = none) (hne : request.2 ≠ s.native.revision) :
    Rejected h name request s := by
  obtain ⟨i, hi, hreq⟩ := hb
  obtain ⟨-, hle, hcom⟩ := hs.stored i hi
  refine ⟨⟨i, hi, hreq⟩, ?_, fun i' hi' he => ?_⟩
  · rcases hreq with rfl | hlt
    · exact lt_of_le_of_ne hle hne
    · omega
  · obtain rfl : i = i' := Option.some.inj (hi.symm.trans hi')
    rcases hcom with hcom | ⟨-, hknown, -⟩
    · exact hcom
    · rw [he] at hk
      simp [hk] at hknown

theorem triple_sendPhase {project repository : String} {request : Key × ℕ} :
    (commitSpec t.handle name payload).Triple i (Issued t.handle name request)
      (serveMutation Authority.host project repository payload request.1 request.2)
      (fun d s => isStale d = true → Rejected t.handle name request s) := by
  refine triple_serveMutation (stable_of_advances (fun _ _ => issued_advances))
    (fun d => stable_of_advances (fun _ _ ha hr hd => rejected_advances ha (hr hd))) ?_
  intro s v hs hb _
  simp only [Authority.host]
  rcases Authority.invoke_cases s.native request.1 payload request.2 v with
    ⟨d, hk, he⟩ | ⟨hk, hne, he⟩ | ⟨hk, hr, he⟩
  · rw [he]
    refine ⟨⟨hs.unstarted, hs.stored⟩, advances_of_eq rfl rfl rfl, fun d' hd' hst => ?_⟩
    cases result_of_delivered hd'
    simp [isStale_eq_false d.2] at hst
  · rw [he]
    have hrej := rejected_of_stale hs hb hk hne
    exact ⟨⟨hs.unstarted, hs.stored⟩, advances_of_eq rfl rfl rfl,
      fun _ _ _ => rejected_advances (s := s) (advances_of_eq rfl rfl rfl) hrej⟩
  · rw [he]
    obtain ⟨h1, h2⟩ := commitInv_commit hs hb hr
    refine ⟨h1, h2, fun d' hd' hst => ?_⟩
    cases result_of_delivered hd'
    simp [isStale_eq_false (Authority.offered v).2] at hst

theorem triple_invokeMutation {record : Record} {request : Key × ℕ} :
    (commitSpec t.handle name payload).Triple i (Issued t.handle name request)
      (invokeMutation Authority.host record payload request.1 request.2)
      (fun d s => isStale d = true → Rejected t.handle name request s) :=
  triple_withScope (fun _ _ => triple_sendPhase)

theorem observed_nat (n : ℕ) :
    (Dict.get [("semantic_revision", Json.num n)] "semantic_revision").bind Json.nat? = some n := by
  rw [Dict.get_cons_self, Option.bind_some, Json.nat?_num]

/-- A revision read after a refusal is past the refused one. -/
theorem triple_observeRevision {request : Key × ℕ} :
    (commitSpec t.handle name payload).Triple i (Rejected t.handle name request)
      (observeRevision Authority.host t)
      (fun revision s => Rejected t.handle name request s ∧ request.2 < revision ∧
        revision ≤ s.native.revision) := by
  let M : Dict → World Authority → Prop := fun d s => ∃ n : ℕ,
    d = [("semantic_revision", Json.num n)] ∧ Rejected t.handle name request s ∧
      request.2 < n ∧ n ≤ s.native.revision
  refine triple_bind (M := M) (triple_serveRead
    (stable_of_advances (fun _ _ => rejected_advances)) (fun d => ?_) ?_) (fun d => ?_)
  · rintro s s' hr ⟨n, hd, hb⟩
    exact ⟨n, hd, observed_stable request n s s' hr hb⟩
  · intro s v hs hb
    refine ⟨⟨hs.unstarted, hs.stored⟩, advances_of_eq rfl rfl rfl, fun d hd => ?_⟩
    cases result_of_delivered hd
    exact ⟨s.native.revision, rfl, hb, hb.2.1, le_rfl⟩
  · intro s hs hm
    obtain ⟨n, rfl, hb⟩ := hm
    rw [if_neg (by rw [isAttention, Dict.get_cons_of_ne _ _ (by decide)]; simp [Dict.get]),
      observed_nat]
    exact triple_done (observed_stable request n) (fun _ _ h => h) s hs hb

theorem commitInv_issue {s : World Authority} {p r : String} {old : Record} {i : Intent}
    (ho : s.journal.record h = some (p, r, old)) (hp : i.payload = payload)
    (hle : i.expectedRevision ≤ s.native.revision) (hc : s.native.commits = []) :
    CommitInv h name payload (s.issue h name old i) := by
  refine ⟨fun _ => hc, fun i' hi' => ?_⟩
  obtain rfl : i = i' := Option.some.inj ((World.intent_issue ho name i).symm.trans hi')
  exact ⟨hp, hle, Or.inl hc⟩

theorem triple_persist {intent : Intent} (hp : intent.payload = payload) :
    (commitSpec t.handle name payload).Triple i (fun _ => True)
      (storeIntent c (.persist t.handle name intent) t name (persistIntent name intent))
      (IntentIssued t.handle name) := by
  refine triple_persistIntent (fun s => advances_of_eq rfl rfl rfl) stable_true
    intentIssued_stable (fun s old _ _ ho => intentIssued_of_record ho) ?_
  intro s old hs _ hcond ho hnone
  have hn : s.intent t.handle name = none := (World.intent_eq ho name).trans hnone
  refine ⟨commitInv_issue ho hp (hcond hn) (hs.unstarted hn), ⟨le_rfl, fun i h' => ?_⟩,
    intentIssued_of_record (World.record_put ho _)⟩
  exact absurd (hn.symm.trans h') (by simp)

theorem triple_storedRequest {record latest : Record} {intent : Intent} :
    (commitSpec t.handle name payload).Triple i
      (Issued t.handle name (intent.idempotencyKey, intent.expectedRevision))
      (storedRequest record latest payload intent) (fun out s => Issued t.handle name out.1 s) := by
  unfold storedRequest
  split
  · exact triple_raise
  · exact triple_done (stable_of_advances (fun _ _ => issued_advances)) (fun _ _ h => h)

theorem triple_refresh {request : Key × ℕ} {revision : ℕ} :
    (commitSpec t.handle name payload).Triple i
      (fun s => Rejected t.handle name request s ∧ request.2 < revision ∧
        revision ≤ s.native.revision)
      (storeIntent c (.refresh t.handle name request revision) t name
        (refreshIntent t.handle name payload revision)) (fun _ _ => True) := by
  refine triple_refreshIntent (fun s => advances_of_eq rfl rfl rfl)
    (observed_stable request revision) (fun _ => stable_true) (fun _ _ _ _ _ => trivial) ?_
  intro s old intent hs hb hcond ho hold hpay hrev
  obtain ⟨⟨hissued, hlt, hnil⟩, hlt', hle⟩ := hb
  have hi : s.intent t.handle name = some intent := (World.intent_eq ho name).trans hold
  have hreq := (hcond intent hi).resolve_left hrev
  subst hreq
  refine ⟨commitInv_issue ho hpay hle (hnil intent hi rfl), ⟨le_rfl, fun i h' => ?_⟩, trivial⟩
  obtain rfl : intent = i := Option.some.inj (hi.symm.trans h')
  exact ⟨_, World.intent_issue ho name _, Or.inr hlt'⟩

theorem triple_expectedOrObserved {revision : Option ℕ} :
    (commitSpec t.handle name payload).Triple i (fun _ => True)
      (expectedOrObserved Authority.host t revision) (fun _ _ => True) := by
  cases revision with
  | some n => exact triple_done stable_true (fun _ _ _ => trivial)
  | none =>
    refine triple_bind (M := fun _ _ => True) (triple_serveRead stable_true (fun _ => stable_true)
      (fun s v hs _ => ?_)) (fun d => ?_)
    · exact ⟨⟨hs.unstarted, hs.stored⟩, advances_of_eq rfl rfl rfl, fun _ _ => trivial⟩
    · split
      · exact triple_raise
      · split
        · exact triple_done stable_true (fun _ _ _ => trivial)
        · exact triple_raise

theorem triple_phaseIntent {record : Record} {revision : Option ℕ} {key : Option Key} :
    (commitSpec t.handle name payload).Triple i (fun _ => True)
      (phaseIntent Authority.host c t record name payload revision key)
      (fun out s => Issued t.handle name out.1 s) := by
  unfold phaseIntent
  split
  · exact triple_raise
  · refine triple_bind (triple_storeGet (fun s => advances_of_eq rfl rfl rfl) stable_true
      intentIssued_stable (fun s latest _ _ ho => intentIssued_of_record ho)) (fun latest => ?_)
    dsimp only
    split
    · rename_i prior hprior
      exact triple_pre triple_storedRequest (fun s _ hm => hm prior hprior)
    · refine triple_pre (triple_bind triple_expectedOrObserved (fun n => triple_bind
        (triple_persist rfl) (fun current => ?_))) (fun _ _ _ => trivial)
      split
      · rename_i stored hstored
        exact triple_pre triple_storedRequest (fun s _ hm => hm stored hstored)
      · exact triple_fail

theorem triple_invokePhase {record : Record} {revision : Option ℕ} {key : Option Key} :
    (commitSpec t.handle name payload).Triple i (fun _ => True)
      (invokePhase Authority.host c t record name payload revision key) (fun _ _ => True) := by
  unfold invokePhase
  refine triple_bind triple_phaseIntent (fun out => ?_)
  obtain ⟨request, record⟩ := out
  refine triple_bind triple_invokeMutation (fun result => ?_)
  dsimp only
  split
  · rename_i hstale
    refine triple_bind (M := fun _ _ => True) ?_ (fun record => ?_)
    · refine triple_bind (triple_pre triple_observeRevision (fun s _ h => h hstale))
        (fun revision => triple_bind triple_refresh (fun current => ?_))
      exact triple_done stable_true (fun _ _ _ => trivial)
    · refine triple_bind triple_phaseIntent (fun out => ?_)
      obtain ⟨request, record⟩ := out
      refine triple_bind triple_invokeMutation (fun result => ?_)
      exact triple_done stable_true (fun _ _ _ => trivial)
  · exact triple_done stable_true (fun _ _ _ => trivial)

theorem otherWrites_sound {s s' : World Authority} {w : OtherWriter}
    (hs : CommitInv h name payload s) (hw : otherWrites payload s w = some s') :
    CommitInv h name payload s' ∧ Advances h name s s' := by
  unfold otherWrites at hw
  split at hw
  · cases hw
  · rename_i hknown
    cases hw
    have hrev := Authority.revision_le_invoke s.native w.key w.body w.expectedRevision w.input
    refine ⟨⟨hs.unstarted, fun i hi => ?_⟩, hrev,
      fun i hi => ⟨i, hi, Or.inl ⟨rfl, rfl, fun _ => rfl⟩⟩⟩
    obtain ⟨hp, hle, hcom⟩ := hs.stored i hi
    refine ⟨hp, hle.trans hrev, hcom.imp_right (fun hc => ⟨hc.1, ?_, hc.2.2.trans_le hrev⟩)⟩
    have hne : i.idempotencyKey ≠ w.key := fun he => hknown (he ▸ hc.2.1)
    have hkeep := Authority.known_invoke_of_ne s.native w.body payload w.expectedRevision w.input hne
    exact (congrArg Option.isSome hkeep).trans hc.2.1

theorem phaseSystem_sound :
    (commitSpec t.handle name payload).Sound (phaseSystem c t name payload) where
  crash := fun _ _ hs => ⟨hs, advances_of_eq rfl rfl rfl⟩
  env := fun _ _ _ hs hw => otherWrites_sound hs hw
  program := fun _ _ => triple_post triple_invokePhase (fun _ _ _ => trivial)

theorem commitInv_length {s : World Authority} (hs : CommitInv h name payload s) :
    s.native.commits.length ≤ 1 := by
  cases hi : s.intent h name with
  | none => simp [hs.unstarted hi]
  | some i =>
    obtain ⟨-, -, hc | ⟨hc, -⟩⟩ := hs.stored i hi
    · simp [hc]
    · simp [hc]

end AtMostOnce

/-- As long as every refresh that changes the intent replaces the very request
that was refused, a phase that starts without an intent is committed at most once. -/
theorem phase_committed_at_most_once (c : Codec) (t : Target) (name : PhaseName)
    (payload : Payload) {p q : Pool ℕ (World Authority) Input Label Err (Dict × Record)}
    (hidle : ∀ i, p.threads i = none) (hnew : p.shared.intent t.handle name = none)
    (hcommits : p.shared.native.commits = [])
    (h : (phaseSystem c t name payload).Reach RefreshesOwnRejection p q) :
    q.shared.native.commits.length ≤ 1 := by
  have hinv : CommitInv t.handle name payload p.shared :=
    ⟨fun _ => hcommits, fun i hi => absurd (hnew.symm.trans hi) (by simp)⟩
  exact commitInv_length
    (poolSafe_reach phaseSystem_sound (poolSafe_of_idle hinv hidle) h).1

section Runs

def dispatchTarget : Target := ⟨"wf", "atlas", "main"⟩

def dispatchRequest : Payload := ⟨.dispatchAttempt, [("workspace_id", .str "ws")]⟩

/-- The workspace was created at revision 4. -/
def dispatchCall : PhaseCall where
  record := { project := some "atlas", repository := some "main" }
  expectedRevision := some 4
  idempotencyKey := none

/-- Another writer has advanced the authority to revision 5 since. -/
def dispatchPool : Pool ℕ (World Authority) Input Label Err (Dict × Record) where
  shared := { journal := [.workflow "wf" "atlas" "main" { phase := some .dispatchPending }],
              native := ⟨5, fun _ => none, []⟩ }
  threads := fun _ => none

def answered : Input := { reply := .ok [] }

/-- Two callers are refused the request they share; the first refreshes it and
commits, and the second then refreshes the refreshed request and commits again. -/
def doubleCommit : List (Action ℕ Input PhaseCall OtherWriter) :=
  [.start 0 dispatchCall, .start 1 dispatchCall,
    .act 0 answered, .act 0 answered, .act 0 answered, .act 1 answered, .act 1 answered,
    .act 0 answered, .act 0 answered, .act 0 answered, .act 0 answered,
    .act 1 answered, .act 1 answered, .act 1 answered, .act 1 answered]

/-- One caller is refused, refreshes its request and commits it. -/
def singleCommit : List (Action ℕ Input PhaseCall OtherWriter) :=
  .start 0 dispatchCall :: List.replicate 7 (.act 0 answered)

theorem phase_committed_twice :
    ∃ q, (phaseSystem .small dispatchTarget .dispatchAttempt dispatchRequest).Reach
      System.anyStep dispatchPool q ∧ q.shared.native.commits.length = 2 :=
  System.exists_reach _ System.anyStep doubleCommit (by decide +kernel)

theorem phase_committed_once :
    ∃ q, (phaseSystem .small dispatchTarget .dispatchAttempt dispatchRequest).Reach
        RefreshesOwnRejection dispatchPool q ∧
      q.shared.native.commits.length = 1 ∧ q.shared.native.commits.length ≤ 1 := by
  obtain ⟨q, hq, hlen⟩ := System.exists_reach
    (phaseSystem .small dispatchTarget .dispatchAttempt dispatchRequest)
    RefreshesOwnRejection singleCommit (p := dispatchPool)
    (f := fun q => q.shared.native.commits.length) (b := 1) (by decide +kernel)
  exact ⟨q, hq, hlen, phase_committed_at_most_once .small dispatchTarget .dispatchAttempt
    dispatchRequest (fun _ => rfl) (by decide) rfl hq⟩

end Runs

end ProjectControl.Compact
