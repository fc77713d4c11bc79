import ProjectControl.CompactAtMostOnce
import ProjectControl.CompactTools

/-! One client of one handle, against an authority that stores the result of a mutation
under its key and replays it. What the mutations look at and the authority's revision
change at any time, also between the steps of a call, and a call may be cut off. -/

set_option autoImplicit false

namespace ProjectControl.Compact

open Resumption Resumption.Spec

/-- A mutation that the authority executed. -/
structure Execution where
  key : Key
  payload : Payload
  present : ℕ
  result : Dict

/-- The calls of a client. -/
inductive SessionCall where
  | coordinate (action : CoordinateAction) (fields : Dict)
  | finish (action : FinishAction) (disposition note reason : Option String)
  | renew (project repository : String)

/-- A call that was answered, with the mutations executed before it and until its end. -/
structure Exchange where
  call : SessionCall
  response : Response
  began : List Execution
  ended : List Execution

/-- The native authority: `present` stands for what a mutation finds when it is executed
(the source of the workspace, the messages that are pending), `executed` are the executed
mutations and `log` the answered calls of the client, both the newest first. -/
structure ReplayAuthority where
  revision : ℕ
  present : ℕ
  results : Key → Option ((Payload × ℕ) × CommitResult) := fun _ => none
  executed : List Execution := []
  log : List Exchange := []

/-- A reply that reports this verdict of a requirement. -/
def Response.reports (response : Response) (requirement : String) (d : Dict) : Prop :=
  match response with
  | .verified results _ => (requirement, d) ∈ results
  | _ => False

/-- The call carried out this action with this result. -/
def Exchange.carried (e : Exchange) (actionId : ActionId) (d : Dict) : Prop :=
  e.call = .coordinate actionId.action actionId.fields ∧
    ∃ handle, e.response = .coordinated actionId.action handle (some d)

/-- The requirement that a request has the authority verify. -/
def Payload.verifies (payload : Payload) : Option String :=
  match payload.tool, payload.arguments.get "requirement_id" with
  | .verifyAttempt, some (.str requirement) => some requirement
  | _, _ => none

namespace ReplayAuthority

/-- The verifications of a requirement that were executed. -/
def verifications (a : ReplayAuthority) (requirement : String) : List Execution :=
  a.executed.filter (fun x => x.payload.verifies = some requirement)

def execute (a : ReplayAuthority) (key : Key) (payload : Payload) (revision : ℕ)
    (result : CommitResult) (v : Input) : ReplayAuthority :=
  { a with
    revision := a.revision + 1 + v.jump
    results := Function.update a.results key (some ((payload, revision), result))
    executed := ⟨key, payload, a.present, result.1⟩ :: a.executed }

/-- A known key is answered with the stored result. A new request that the authority does
not refuse is executed, and `finds` is what it finds at present. -/
def invoke (finds : ℕ → Payload → Input → CommitResult) (a : ReplayAuthority) (key : Key)
    (payload : Payload) (revision : ℕ) (v : Input) : ReplayAuthority × Reply :=
  match a.results key with
  | some (body, result) =>
    if body = (payload, revision) then (a, .ok result.1)
    else (a, .attention "idempotency_key_conflict")
  | none =>
    if revision ≠ a.revision then (a, .attention "stale_authority_revision")
    else match v.reply with
      | .attention reason => (a, .attention reason)
      | _ => (a.execute key payload revision (finds a.present payload v) v,
          .ok (finds a.present payload v).1)

/-- Any reply may be lost. -/
def host (finds : ℕ → Payload → Input → CommitResult) : NativeHost ReplayAuthority where
  serve := fun a call v =>
    let out := match call.idempotencyKey, call.expectedRevision with
      | some key, some revision => a.invoke finds key ⟨call.tool, call.arguments⟩ revision v
      | _, _ => (a, .ok [("semantic_revision", .num a.revision)])
    (out.1, if v.reply = .raised then .raised else out.2)

/-- A request finds its own stored result, is refused, or is executed under a new key. -/
theorem invoke_cases (finds : ℕ → Payload → Input → CommitResult) (a : ReplayAuthority)
    (key : Key) (payload : Payload) (revision : ℕ) (v : Input) :
    (∃ d, a.results key = some ((payload, revision), d) ∧
      a.invoke finds key payload revision v = (a, .ok d.1)) ∨
    (∃ reason, (a.results key = none ∨ reason ≠ "stale_authority_revision") ∧
      a.invoke finds key payload revision v = (a, .attention reason)) ∨
    (∃ d, a.results key = none ∧
      a.invoke finds key payload revision v = (a.execute key payload revision d v, .ok d.1)) := by
  unfold invoke
  cases hk : a.results key with
  | some entry =>
    obtain ⟨body, d⟩ := entry
    by_cases hb : body = (payload, revision)
    · exact Or.inl ⟨d, by rw [hb], by simp [hb]⟩
    · exact Or.inr (Or.inl ⟨"idempotency_key_conflict", Or.inr (by decide), if_neg hb⟩)
  | none =>
    by_cases hr : revision = a.revision
    · dsimp only
      rw [if_neg (not_not.mpr hr)]
      cases hv : v.reply with
      | attention reason => exact Or.inr (Or.inl ⟨reason, Or.inl rfl, rfl⟩)
      | raised | ok => exact Or.inr (Or.inr ⟨_, rfl, rfl⟩)
    · exact Or.inr (Or.inl ⟨"stale_authority_revision", Or.inl rfl, if_pos hr⟩)

@[simp] theorem results_execute_self (a : ReplayAuthority) (key : Key) (payload : Payload)
    (revision : ℕ) (result : CommitResult) (v : Input) :
    (a.execute key payload revision result v).results key = some ((payload, revision), result) := by
  simp [execute]

theorem results_execute_of_ne (a : ReplayAuthority) {key other : Key} (payload : Payload)
    (revision : ℕ) (result : CommitResult) (v : Input) (h : other ≠ key) :
    (a.execute key payload revision result v).results other = a.results other := by
  simp [execute, Function.update_of_ne h]

theorem verifications_execute_of_ne (a : ReplayAuthority) (key : Key) {payload : Payload}
    (revision : ℕ) (result : CommitResult) (v : Input) {requirement : String}
    (h : payload.verifies ≠ some requirement) :
    (a.execute key payload revision result v).verifications requirement =
      a.verifications requirement := by
  simp [verifications, execute, h]

end ReplayAuthority

/-- A key that `_phase_intent` or `_refresh_phase_intent` computes for a phase. -/
def PhaseKey (h : Handle) (name : PhaseName) (key : Key) : Prop :=
  key.handle = h ∧ (key.operation = .native name ∨ ∃ generation,
    key.operation = .retry name generation)

theorem phaseKey_default {h : Handle} {name other : PhaseName} {body : KeyBody} :
    PhaseKey h other (operationKey h (.native name) body) ↔ name = other := by
  simp [PhaseKey, operationKey]

theorem phaseKey_refreshed {h : Handle} {name other : PhaseName} {i : Intent}
    {payload : Payload} {revision : ℕ} :
    PhaseKey h other (i.refreshed h name payload revision).idempotencyKey ↔ name = other := by
  simp [PhaseKey, Intent.refreshed, operationKey]

section Recorded

variable (h : Handle)

/-- The stored intent of a phase has a key under which the authority knows this result. -/
def Recorded (name : PhaseName) (d : Dict) (s : World ReplayAuthority) : Prop :=
  ∃ i result, s.intent h name = some i ∧ result.1 = d ∧
    s.native.results i.idempotencyKey = some ((i.payload, i.expectedRevision), result)

/-- The stored intent of a phase stands for this request. -/
def Stands (name : PhaseName) (payload : Payload) (request : Key × ℕ)
    (s : World ReplayAuthority) : Prop :=
  ∃ i, s.intent h name = some i ∧ i.payload = payload ∧
    request = (i.idempotencyKey, i.expectedRevision)

/-- The stored intent of a phase has a key that the authority does not know. -/
def Unknown (name : PhaseName) (s : World ReplayAuthority) : Prop :=
  ∀ i, s.intent h name = some i → s.native.results i.idempotencyKey = none

variable {h} {name : PhaseName} {d d' : Dict} {s : World ReplayAuthority}

theorem Recorded.unique (hd : Recorded h name d s) (hd' : Recorded h name d' s) : d = d' := by
  obtain ⟨i, result, hi, hr, hs⟩ := hd
  obtain ⟨i', result', hi', hr', hs'⟩ := hd'
  cases hi.symm.trans hi'
  have he := Option.some.inj (hs.symm.trans hs')
  rw [← hr, ← hr', (Prod.mk.inj he).2]

theorem Recorded.not_unknown (hd : Recorded h name d s) : ¬ Unknown h name s := by
  intro hu
  obtain ⟨i, result, hi, -, hs⟩ := hd
  cases (hu i hi).symm.trans hs

end Recorded

/-- The phases of the requirements, and only these, ask for verifications. -/
def Fits (name : PhaseName) (payload : Payload) : Prop :=
  ∀ requirement, name = .verify requirement ↔ payload.verifies = some requirement

/-- A key of an intent is a key of a coordinate phase if the intent is one. -/
def KeyFits (h : Handle) (name : PhaseName) (key : Key) : Prop :=
  ∀ actionId, PhaseKey h (.coordinate actionId) key ↔ name = .coordinate actionId

/-- No finish key of a record is one of a coordinate phase. -/
def PlainKeys (h : Handle) (r : Record) : Prop :=
  ∀ key, r.handbackKey = some key ∨ r.reportKey = some key ∨ r.releaseKey = some key →
    ∀ actionId, ¬ PhaseKey h (.coordinate actionId) key

/-- The completed operations of a record have the results that are recorded. -/
def Settled (h : Handle) (operations : ActionId → Option OperationEntry)
    (s : World ReplayAuthority) : Prop :=
  ∀ actionId entry d, operations actionId = some entry → entry.result = some d →
    Recorded h (.coordinate actionId) d s

/-- The steps of a phase. Its intent is only issued while the authority does not know the
key it has, and only the request that stands is sent. -/
inductive PhaseStep (h : Handle) (tidy : Prop) (name : PhaseName) (payload : Payload)
    (s : World ReplayAuthority) : World ReplayAuthority → Prop where
  | issue {t : Target} {old : Record} {i : Intent} (ht : t.handle = h) (ho : s.Holds t old)
      (hu : Unknown h name s) (hk : tidy → KeyFits h name i.idempotencyKey) :
      PhaseStep h tidy name payload s (s.issue h name old i)
  | answered {m : Sent} (hm : m.payload = payload) (hfit : Fits name payload)
      (hr : ∀ d, m.reply = .ok d → Recorded h name d s) :
      PhaseStep h tidy name payload s { s with sent := m :: s.sent }
  | executed {m : Sent} {i : Intent} {result : CommitResult} {v : Input}
      (hi : s.intent h name = some i) (hp : i.payload = payload) (hm : m.payload = payload)
      (hfit : Fits name payload) (hu : s.native.results i.idempotencyKey = none)
      (hr : ∀ d, m.reply = .ok d → d = result.1) :
      PhaseStep h tidy name payload s { s with
        native := s.native.execute i.idempotencyKey payload i.expectedRevision result v
        sent := m :: s.sent }

/-- The executions from before a call and those until its end, for an action that was
carried out: nothing was executed if the authority had executed the action already, and
exactly this action otherwise. -/
def Carried (h : Handle) (actionId : ActionId) (began ended : List Execution) (d : Dict) : Prop :=
  ((∃ x ∈ began, PhaseKey h (.coordinate actionId) x.key) ∧ ended = began) ∨
    (∀ x ∈ began, ¬ PhaseKey h (.coordinate actionId) x.key) ∧
      ∃ x, ended = x :: began ∧ PhaseKey h (.coordinate actionId) x.key ∧ x.result = d ∧
        (actionId.action = .sync → x.payload.tool = .syncInbox)

/-- The steps of a session: those of its phases, changes of the record that leave its
intents alone, and the answers to its calls. -/
inductive SessionStep (h : Handle) (tidy : Prop) (s : World ReplayAuthority) :
    World ReplayAuthority → Prop where
  | phase {name : PhaseName} {payload : Payload} {s' : World ReplayAuthority}
      (hs : PhaseStep h tidy name payload s s') : SessionStep h tidy s s'
  | update {t : Target} {old changes : Record} (ht : t.handle = h) (ho : s.Holds t old)
      (hi : changes.phaseIntents = none) (hk : tidy → PlainKeys h changes)
      (hops : tidy → ∀ operations, changes.operations = some operations →
        Settled h operations s) :
      SessionStep h tidy s (s.put h (old.merge changes))
  | told {e : Exchange}
      (hv : ∀ requirement d, e.response.reports requirement d →
        Recorded h (.verify requirement) d s)
      (hc : tidy → ∀ actionId d, e.carried actionId d →
        Recorded h (.coordinate actionId) d s ∧ Carried h actionId e.began e.ended d) :
      SessionStep h tidy s { s with native := { s.native with log := e :: s.native.log } }

/-- What the coordinate requests of a session that made all of them have in common. -/
structure Proper (h : Handle) (s : World ReplayAuthority) : Prop where
  own : ∀ name i, s.intent h name = some i → KeyFits h name i.idempotencyKey
  known : ∀ actionId key, PhaseKey h (.coordinate actionId) key →
    s.native.results key ≠ none → ∃ x ∈ s.native.executed, x.key = key
  ran : ∀ actionId, ∀ x ∈ s.native.executed, PhaseKey h (.coordinate actionId) x.key →
    Recorded h (.coordinate actionId) x.result s
  plain : ∀ p r data, s.journal.record h = some (p, r, data) → PlainKeys h data
  settled : ∀ p r data operations, s.journal.record h = some (p, r, data) →
    data.operations = some operations → Settled h operations s
  carried : ∀ e ∈ s.native.log, ∀ actionId d, e.carried actionId d →
    Recorded h (.coordinate actionId) d s ∧ Carried h actionId e.began e.ended d

/-- Every verdict that the client got is recorded. -/
structure SessionInv (h : Handle) (tidy : Prop) (s : World ReplayAuthority) : Prop where
  answered : ∀ m ∈ s.sent, ∀ requirement d, m.payload.verifies = some requirement →
    m.reply = .ok d → Recorded h (.verify requirement) d s
  reported : ∀ e ∈ s.native.log, ∀ requirement d, e.response.reports requirement d →
    Recorded h (.verify requirement) d s
  proper : tidy → Proper h s

section Invariants

variable {h : Handle} {tidy : Prop} {name other : PhaseName} {payload : Payload} {d : Dict}
variable {s s' : World ReplayAuthority}

theorem recorded_of_intent (hd : Recorded h name d s)
    (hi : s'.intent h name = s.intent h name) (hr : s'.native.results = s.native.results) :
    Recorded h name d s' := by
  obtain ⟨i, result, hs, hd, hk⟩ := hd
  exact ⟨i, result, hi.trans hs, hd, hr ▸ hk⟩

theorem intent_issue_of_ne {t : Target} {old : Record} {i : Intent} (ht : t.handle = h)
    (ho : s.Holds t old) (hne : other ≠ name) :
    (s.issue h name old i).intent h other = s.intent h other := by
  subst ht
  calc (s.issue t.handle name old i).intent t.handle other
      = (old.setIntent name i).intent other := World.intent_eq (World.record_put ho _) _
    _ = old.intent other := Record.setIntent_intent_of_ne old i hne
    _ = s.intent t.handle other := (World.intent_eq ho _).symm

theorem intent_update {t : Target} {old changes : Record} (ht : t.handle = h)
    (ho : s.Holds t old) (hi : changes.phaseIntents = none) :
    (s.put h (old.merge changes)).intent h name = s.intent h name := by
  subst ht
  calc (s.put t.handle (old.merge changes)).intent t.handle name
      = (old.merge changes).intent name := World.intent_eq (World.record_put ho _) _
    _ = old.intent name := Record.merge_intent_of_none old changes hi _
    _ = s.intent t.handle name := (World.intent_eq ho _).symm

/-- A phase keeps what is recorded, and a recorded requirement is not verified again. -/
theorem PhaseStep.keeps (hs : PhaseStep h tidy name payload s s')
    (hd : Recorded h other d s) : Recorded h other d s' ∧ ∀ requirement,
      other = .verify requirement →
        s'.native.verifications requirement = s.native.verifications requirement := by
  cases hs with
  | issue ht ho hu hk =>
    have hne : other ≠ name := by
      rintro rfl
      exact hd.not_unknown hu
    exact ⟨recorded_of_intent hd (intent_issue_of_ne ht ho hne) rfl, fun _ _ => rfl⟩
  | answered => exact ⟨hd, fun _ _ => rfl⟩
  | @executed m i result v hi hp hm hfit hu hr =>
    obtain ⟨i', result', hi', hd, hk⟩ := hd
    have hne : i'.idempotencyKey ≠ i.idempotencyKey := by
      intro he
      cases hu.symm.trans (he ▸ hk)
    refine ⟨⟨i', result', hi', hd, (s.native.results_execute_of_ne _ _ _ v hne).trans hk⟩, ?_⟩
    rintro requirement rfl
    apply ReplayAuthority.verifications_execute_of_ne
    intro hv
    rw [(hfit requirement).mpr hv] at hi
    exact hne (congrArg Intent.idempotencyKey (Option.some.inj (hi'.symm.trans hi)))

theorem SessionStep.keeps (hs : SessionStep h tidy s s') (hd : Recorded h name d s) :
    Recorded h name d s' ∧ ∀ requirement, name = .verify requirement →
      s'.native.verifications requirement = s.native.verifications requirement := by
  cases hs with
  | phase hp => exact hp.keeps hd
  | update ht ho hi => exact ⟨recorded_of_intent hd (intent_update ht ho hi) rfl, fun _ _ => rfl⟩
  | told => exact ⟨hd, fun _ _ => rfl⟩

theorem Settled.step {operations : ActionId → Option OperationEntry}
    (hops : Settled h operations s) (hs : SessionStep h tidy s s') : Settled h operations s' :=
  fun actionId entry d he hr => (hs.keeps (hops actionId entry d he hr)).1

theorem holds_put {t : Target} {old data : Record} (ht : t.handle = h) (ho : s.Holds t old)
    {p r : String} {new : Record} (hn : (s.put h data).journal.record h = some (p, r, new)) :
    new = data := by
  subst ht
  have hrow := Option.some.inj ((World.record_put ho data).symm.trans hn)
  exact (congrArg (fun row => row.2.2) hrow).symm

theorem plainKeys_merge {old changes : Record} (ho : PlainKeys h old) (hc : PlainKeys h changes) :
    PlainKeys h (old.merge changes) := by
  have hor : ∀ {x y : Option Key} {key : Key}, x.or y = some key → x = some key ∨ y = some key := by
    intro x y key hk
    cases x with
    | some k => exact Or.inl hk
    | none => exact Or.inr hk
  rintro key (hk | hk | hk)
  · exact (hor hk).elim (fun hx => hc key (Or.inl hx)) (fun hx => ho key (Or.inl hx))
  · exact (hor hk).elim (fun hx => hc key (Or.inr (Or.inl hx)))
      (fun hx => ho key (Or.inr (Or.inl hx)))
  · exact (hor hk).elim (fun hx => hc key (Or.inr (Or.inr hx)))
      (fun hx => ho key (Or.inr (Or.inr hx)))

theorem PhaseStep.proper (ht : tidy) (hp : Proper h s) (hs : PhaseStep h tidy name payload s s') :
    Proper h s' := by
  have hkeep : ∀ {other : PhaseName} {d : Dict}, Recorded h other d s → Recorded h other d s' :=
    fun hd => (hs.keeps hd).1
  cases hs with
  | @issue t old i hth ho hu hk =>
    refine ⟨fun other i' hi' => ?_, hp.known, fun actionId x hx hxk => hkeep (hp.ran actionId x hx hxk),
      fun p r data hd => ?_, fun p r data operations hd hops => ?_, fun e he actionId d hc => ?_⟩
    · by_cases hne : other = name
      · subst hne
        have hnew : (s.issue h other old i).intent h other = some i := by
          subst hth
          exact World.intent_issue ho other i
        cases hnew.symm.trans hi'
        exact hk ht
      · exact hp.own other i' ((intent_issue_of_ne hth ho hne).symm.trans hi')
    · rw [holds_put hth ho hd]
      subst hth
      exact hp.plain _ _ old ho
    · rw [holds_put hth ho hd] at hops
      subst hth
      exact fun actionId entry d he hr =>
        hkeep (hp.settled _ _ old operations ho hops actionId entry d he hr)
    · exact ⟨hkeep (hp.carried e he actionId d hc).1, (hp.carried e he actionId d hc).2⟩
  | answered => exact ⟨hp.own, hp.known, hp.ran, hp.plain, hp.settled, hp.carried⟩
  | @executed m i result v hi hpay hm hfit hu hr =>
    have hrec : Recorded h name result.1 { s with
        native := s.native.execute i.idempotencyKey payload i.expectedRevision result v
        sent := m :: s.sent } :=
      ⟨i, result, hi, rfl, hpay ▸ s.native.results_execute_self _ _ _ result v⟩
    refine ⟨hp.own, fun actionId key hk hne => ?_, fun actionId x hx hxk => ?_, hp.plain,
      fun p r data operations hd hops actionId entry d he hr =>
        hkeep (hp.settled p r data operations hd hops actionId entry d he hr),
      fun e he actionId d hc => ?_⟩
    · by_cases he : key = i.idempotencyKey
      · exact ⟨_, List.mem_cons_self, he.symm⟩
      · rw [s.native.results_execute_of_ne _ _ _ v he] at hne
        obtain ⟨x, hx, hxk⟩ := hp.known actionId key hk hne
        exact ⟨x, List.mem_cons_of_mem _ hx, hxk⟩
    · rcases List.mem_cons.mp hx with rfl | hx
      · rw [← (hp.own name i hi actionId).mp hxk]
        exact hrec
      · exact hkeep (hp.ran actionId x hx hxk)
    · exact ⟨hkeep (hp.carried e he actionId d hc).1, (hp.carried e he actionId d hc).2⟩

theorem SessionStep.proper (ht : tidy) (hp : Proper h s) (hs : SessionStep h tidy s s') :
    Proper h s' := by
  have hkeep : ∀ {other : PhaseName} {d : Dict}, Recorded h other d s → Recorded h other d s' :=
    fun hd => (hs.keeps hd).1
  cases hs with
  | phase hs => exact hs.proper ht hp
  | @update t old changes hth ho hi hk hops =>
    refine ⟨fun other i' hi' => hp.own other i' ((intent_update hth ho hi).symm.trans hi'),
      hp.known, fun actionId x hx hxk => hkeep (hp.ran actionId x hx hxk), fun p r data hd => ?_,
      fun p r data operations hd ho' => ?_, fun e he actionId d hc => ?_⟩
    · rw [holds_put hth ho hd]
      refine plainKeys_merge ?_ (hk ht)
      subst hth
      exact hp.plain _ _ old ho
    · rw [holds_put hth ho hd] at ho'
      have hs : Settled h operations s := by
        cases hc : changes.operations with
        | some operations' =>
          have heq : operations' = operations := by
            simpa [Record.merge, hc] using ho'
          exact heq ▸ hops ht operations' hc
        | none =>
          have heq : old.operations = some operations := by
            simpa [Record.merge, hc] using ho'
          subst hth
          exact hp.settled _ _ old operations ho heq
      exact fun actionId entry d he hr => hkeep (hs actionId entry d he hr)
    · exact ⟨hkeep (hp.carried e he actionId d hc).1, (hp.carried e he actionId d hc).2⟩
  | @told e hv hc =>
    refine ⟨hp.own, hp.known, hp.ran, hp.plain, hp.settled, fun e' he' actionId d hd => ?_⟩
    rcases List.mem_cons.mp he' with rfl | he'
    · exact hc ht actionId d hd
    · exact hp.carried e' he' actionId d hd

/-- A phase adds a request at most, and a verdict that answers it is recorded. -/
theorem PhaseStep.sent (hs : PhaseStep h tidy name payload s s') {m : Sent} (hm : m ∈ s'.sent) :
    m ∈ s.sent ∨ m.payload = payload ∧ Fits name payload ∧
      ∀ d, m.reply = .ok d → Recorded h name d s' := by
  cases hs with
  | issue => exact Or.inl hm
  | answered hp hfit hr =>
    rcases List.mem_cons.mp hm with rfl | hm
    · exact Or.inr ⟨hp, hfit, hr⟩
    · exact Or.inl hm
  | @executed m' i result v hi hp hmp hfit hu hr =>
    rcases List.mem_cons.mp hm with rfl | hm
    · refine Or.inr ⟨hmp, hfit, fun d hd => ?_⟩
      rw [hr d hd]
      exact ⟨i, result, hi, rfl, hp ▸ s.native.results_execute_self _ _ _ result v⟩
    · exact Or.inl hm

theorem SessionStep.inv (hi : SessionInv h tidy s) (hs : SessionStep h tidy s s') :
    SessionInv h tidy s' := by
  have hkeep : ∀ {other : PhaseName} {d : Dict}, Recorded h other d s → Recorded h other d s' :=
    fun hd => (hs.keeps hd).1
  refine ⟨fun m hm requirement d hv hr => ?_, fun e he requirement d hr => ?_,
    fun ht => hs.proper ht (hi.proper ht)⟩
  · have hsent : m ∈ s.sent ∨ Recorded h (.verify requirement) d s' := by
      cases hs with
      | phase hs =>
        refine (hs.sent hm).imp_right (fun ⟨hp, hfit, hrec⟩ => ?_)
        rw [← (hfit requirement).mpr (hp ▸ hv)]
        exact hrec d hr
      | update => exact Or.inl hm
      | told => exact Or.inl hm
    exact hsent.elim (fun hm => hkeep (hi.answered m hm requirement d hv hr)) id
  · have hlog : e ∈ s.native.log ∨ Recorded h (.verify requirement) d s' := by
      cases hs with
      | phase hs => cases hs <;> exact Or.inl he
      | update => exact Or.inl he
      | told hv =>
        rcases List.mem_cons.mp he with rfl | he
        · exact Or.inr (hkeep (hv requirement d hr))
        · exact Or.inl he
    exact hlog.elim (fun he => hkeep (hi.reported e he requirement d hr)) id

end Invariants

/-- Only what the authority finds at present and its revision differ. -/
def Edits (s s' : World ReplayAuthority) : Prop :=
  ∃ present revision, s' = { s with native := { s.native with
    present := present, revision := revision } }

def sessionSpec (h : Handle) (tidy : Prop) : Spec Unit (World ReplayAuthority) Label where
  inv := SessionInv h tidy
  cond := System.anyStep
  guar := fun _ s s' => s' = s ∨ SessionStep h tidy s s'
  env := Edits

section Stability

variable {h : Handle} {tidy : Prop} {name : PhaseName} {payload : Payload}
variable {B : World ReplayAuthority → Prop}

theorem edits_inv {s s' : World ReplayAuthority} (hi : SessionInv h tidy s) (he : Edits s s') :
    SessionInv h tidy s' := by
  obtain ⟨present, revision, rfl⟩ := he
  exact ⟨hi.answered, hi.reported, fun ht => ⟨(hi.proper ht).own, (hi.proper ht).known,
    (hi.proper ht).ran, (hi.proper ht).plain, (hi.proper ht).settled, (hi.proper ht).carried⟩⟩

theorem session_refl (s : World ReplayAuthority) : (sessionSpec h tidy).guar () s s :=
  Or.inl rfl

/-- No other thread runs, so an assertion has to survive the edits only. -/
theorem stable_edits (hB : ∀ s s', Edits s s' → B s → B s') :
    (sessionSpec h tidy).Stable () B := by
  rintro s s' ⟨-, -, ⟨j, hj, -⟩ | he⟩ hb
  · exact absurd rfl hj
  · exact hB s s' he hb

theorem stable_stands (request : Key × ℕ) :
    (sessionSpec h tidy).Stable () (Stands h name payload request) := by
  apply stable_edits
  rintro s s' ⟨present, revision, rfl⟩ hb
  exact hb

theorem stable_unknown : (sessionSpec h tidy).Stable () (Unknown h name) := by
  apply stable_edits
  rintro s s' ⟨present, revision, rfl⟩ hb
  exact hb

/-- An assertion that the edits and the steps of a phase keep. -/
structure Lasting (h : Handle) (tidy : Prop) (name : PhaseName) (payload : Payload)
    (B : World ReplayAuthority → Prop) : Prop where
  edits : ∀ s s', Edits s s' → B s → B s'
  phase : ∀ s s', SessionInv h tidy s → PhaseStep h tidy name payload s s' → B s → B s'

theorem Lasting.stable (hB : Lasting h tidy name payload B) :
    (sessionSpec h tidy).Stable () B :=
  stable_edits hB.edits

end Stability

end ProjectControl.Compact
