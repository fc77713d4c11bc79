import ProjectControl.CompactReplay

/-! Every call of a client is a sequence of listed steps, and what a call learns from the
authority is recorded. -/

set_option autoImplicit false

namespace ProjectControl.Compact

open Resumption Resumption.Spec

section Phases

variable {finds : ℕ → Payload → Input → CommitResult} {c : Codec} {t : Target} {tidy : Prop}
variable {record : Record} {name : PhaseName} {payload : Payload} {request : Key × ℕ}
variable {B : World ReplayAuthority → Prop}

/-- A session takes this step. -/
theorem session_step {h : Handle} {s s' : World ReplayAuthority} (hi : SessionInv h tidy s)
    (hs : SessionStep h tidy s s') :
    (sessionSpec h tidy).inv s' ∧ (sessionSpec h tidy).guar () s s' :=
  ⟨hs.inv hi, Or.inr hs⟩

theorem triple_sessionObserve (hB : (sessionSpec t.handle tidy).Stable () B) :
    (sessionSpec t.handle tidy).Triple () B (observeRevision (ReplayAuthority.host finds) t)
      (fun _ => B) := by
  refine triple_bind (triple_serveRead hB (fun _ => hB) (fun s v hs hb => ?_)) (fun d => ?_)
  · exact ⟨hs, session_refl s, fun _ _ => hb⟩
  · split
    · exact triple_raise
    · split
      · exact triple_done hB (fun _ _ hb => hb)
      · exact triple_raise

/-- The intent of the phase, if this record has one, is the one that is stored. -/
def Shows (h : Handle) (tidy : Prop) (name : PhaseName) (latest : Record)
    (s : World ReplayAuthority) : Prop :=
  (∀ i, latest.intent name = some i → s.intent h name = some i) ∧ (tidy → PlainKeys h latest)

theorem stable_shows {h : Handle} (latest : Record) :
    (sessionSpec h tidy).Stable () (Shows h tidy name latest) := by
  apply stable_edits
  rintro s s' ⟨present, revision, rfl⟩ hb
  exact hb

theorem shows_of_holds {s : World ReplayAuthority} {latest : Record}
    (hi : SessionInv t.handle tidy s) (ho : s.Holds t latest) :
    Shows t.handle tidy name latest s :=
  ⟨fun _ hs => (World.intent_eq ho name).trans hs, fun ht => (hi.proper ht).plain _ _ _ ho⟩

/-- The request that stands, and a copy that is as plain as the one it was asked with. -/
def Requested (h : Handle) (tidy : Prop) (record : Record) (name : PhaseName)
    (payload : Payload) (out : (Key × ℕ) × Record) (s : World ReplayAuthority) : Prop :=
  Stands h name payload out.1 s ∧ (tidy → PlainKeys h record → PlainKeys h out.2)

theorem stable_requested {h : Handle} (out : (Key × ℕ) × Record) :
    (sessionSpec h tidy).Stable () (Requested h tidy record name payload out) :=
  (stable_stands out.1).and (stable_const _)

theorem triple_sessionStored {latest : Record} {i : Intent}
    (hB : Lasting t.handle tidy name payload B) (hi : latest.intent name = some i) :
    (sessionSpec t.handle tidy).Triple () (fun s => B s ∧ Shows t.handle tidy name latest s)
      (storedRequest record latest payload i)
      (fun out s => B s ∧ Requested t.handle tidy record name payload out s) := by
  unfold storedRequest
  split
  · exact triple_raise
  · rename_i hp
    refine triple_done (hB.stable.and (stable_requested _)) (fun s _ hb => ⟨hb.1, ?_, ?_⟩)
    · exact ⟨i, hb.2.1 i hi, not_ne_iff.mp hp, rfl⟩
    · exact fun ht hr => plainKeys_merge hr (hb.2.2 ht)

theorem triple_sessionPersist {i : Intent} (hB : Lasting t.handle tidy name payload B)
    (hk : tidy → KeyFits t.handle name i.idempotencyKey) :
    (sessionSpec t.handle tidy).Triple () B
      (storeIntent c (.persist t.handle name i) t name (persistIntent name i))
      (fun current s => B s ∧ Shows t.handle tidy name current s) := by
  refine triple_persistIntent session_refl hB.stable
    (fun current => hB.stable.and (stable_shows current))
    (fun s old hs hb ho => ⟨hb, shows_of_holds hs ho⟩) (fun s old hs hb _ ho hn => ?_)
  have hu : Unknown t.handle name s := by
    intro i' hi'
    cases hn.symm.trans ((World.intent_eq ho name).symm.trans hi')
  have hstep : PhaseStep t.handle tidy name payload s (s.issue t.handle name old i) :=
    .issue rfl ho hu hk
  obtain ⟨hinv, hguar⟩ := session_step hs (.phase hstep)
  exact ⟨hinv, hguar, hB.phase _ _ hs hstep hb, shows_of_holds hinv (World.record_put ho _)⟩

theorem triple_sessionIntent {revision : Option ℕ} {key : Option Key}
    (hB : Lasting t.handle tidy name payload B)
    (hk : ∀ k, key = some k → tidy → KeyFits t.handle name k) :
    (sessionSpec t.handle tidy).Triple () B
      (phaseIntent (ReplayAuthority.host finds) c t record name payload revision key)
      (fun out s => B s ∧ Requested t.handle tidy record name payload out s) := by
  unfold phaseIntent
  split
  · exact triple_raise
  · refine triple_bind (M := fun latest s => B s ∧ Shows t.handle tidy name latest s)
      (triple_storeGet session_refl hB.stable
        (fun latest => hB.stable.and (stable_shows latest))
        (fun s latest hs hb ho => ⟨hb, shows_of_holds hs ho⟩)) (fun latest => ?_)
    dsimp only
    split
    · rename_i prior hprior
      exact triple_sessionStored hB hprior
    · refine triple_pre (B := B) ?_ (fun s _ hb => hb.1)
      refine triple_bind (M := fun _ => B) ?_ (fun n => ?_)
      · cases revision with
        | some n => exact triple_done hB.stable (fun _ _ hb => hb)
        | none => exact triple_sessionObserve hB.stable
      · refine triple_bind (triple_sessionPersist hB ?_) (fun current => ?_)
        · cases key with
          | none => exact fun _ _ => phaseKey_default
          | some k => exact hk k rfl
        · split
          · rename_i stored hstored
            exact triple_sessionStored hB hstored
          · exact triple_fail

/-- What the answer to a request tells: a result is recorded, and the key of a stale
request is unknown. -/
def Heard (h : Handle) (name : PhaseName) (d : Dict) (s : World ReplayAuthority) : Prop :=
  (isAttention d = false → Recorded h name d s) ∧ (isStale d = true → Unknown h name s)

theorem stable_heard {h : Handle} (d : Dict) :
    (sessionSpec h tidy).Stable () (Heard h name d) := by
  apply stable_edits
  rintro s s' ⟨present, revision, rfl⟩ hb
  exact hb

theorem heard_of_recorded {h : Handle} {s : World ReplayAuthority} {d : CommitResult}
    (hd : Recorded h name d.1 s) : Heard h name d.1 s := by
  refine ⟨fun _ => hd, fun hs => ?_⟩
  simp [isStale, d.2] at hs

theorem heard_of_refused {h : Handle} {s : World ReplayAuthority} {reason : String}
    {d : Dict} (hd : (Reply.attention reason).result = .ok d)
    (hu : reason = "stale_authority_revision" → Unknown h name s) : Heard h name d s := by
  cases hd
  have hatt : isAttention [("reason", .str reason), ("status", .str "attention_required")] =
      true := rfl
  refine ⟨fun ha => (by cases hatt.symm.trans ha), fun hs => hu ?_⟩
  have hreason := (Bool.and_eq_true_iff.mp hs).2
  simpa [Dict.get] using hreason

/-- Whether the reply arrives or is lost, an invocation of the request that stands is a
step of its phase. -/
theorem invoke_step {h : Handle} {s : World ReplayAuthority} {i : Intent} {m : Sent} (v : Input)
    (hfit : Fits name i.payload) (hi : s.intent h name = some i) (hm : m.payload = i.payload) :
    let out := s.native.invoke finds i.idempotencyKey i.payload i.expectedRevision v
    let s' := { s with native := out.1, sent := m :: s.sent }
    (∀ reply, m.reply = reply → reply = .raised ∨ reply = out.2) →
      PhaseStep h tidy name i.payload s s' ∧ ∀ d, m.reply.result = .ok d → Heard h name d s' := by
  intro out s' hreply
  have hok : ∀ {d : Dict}, m.reply = .ok d → out.2 = .ok d := by
    intro d hd
    exact (hreply _ hd).elim (fun hr => by cases hr) Eq.symm
  have hresult : ∀ {d : Dict}, m.reply.result = .ok d → out.2.result = .ok d := by
    intro d hd
    rcases hreply _ rfl with hr | hr
    · rw [hr] at hd
      cases hd
    · rwa [hr] at hd
  rcases s.native.invoke_cases finds i.idempotencyKey i.payload i.expectedRevision v with
    ⟨d, hk, ho⟩ | ⟨reason, hreason, ho⟩ | ⟨d, hk, ho⟩
  · simp only [s', out, ho] at hok hresult ⊢
    have hrec : Recorded h name d.1 s := ⟨i, d, hi, rfl, hk⟩
    refine ⟨.answered hm hfit (fun d' hd => Reply.ok.inj (hok hd) ▸ hrec), fun d' hd => ?_⟩
    cases hresult hd
    exact heard_of_recorded hrec
  · simp only [s', out, ho] at hok hresult ⊢
    refine ⟨.answered hm hfit (fun d' hd => (by cases hok hd)), fun d' hd => ?_⟩
    refine heard_of_refused (hresult hd) (fun he i' hi' => ?_)
    cases hi.symm.trans hi'
    exact hreason.resolve_right (fun hne => hne he)
  · simp only [s', out, ho] at hok hresult ⊢
    refine ⟨.executed hi rfl hm hfit hk (fun d' hd => (Reply.ok.inj (hok hd)).symm),
      fun d' hd => ?_⟩
    cases hresult hd
    exact heard_of_recorded ⟨i, d, hi, rfl, s.native.results_execute_self _ _ _ d v⟩

theorem triple_sessionSend (hB : Lasting t.handle tidy name payload B)
    (hfit : Fits name payload) :
    (sessionSpec t.handle tidy).Triple ()
      (fun s => B s ∧ Stands t.handle name payload request s)
      (invokeMutation (ReplayAuthority.host finds) record payload request.1 request.2)
      (fun d s => B s ∧ Heard t.handle name d s) := by
  refine triple_withScope (fun project repository => ?_)
  refine triple_serveMutation (hB.stable.and (stable_stands request))
    (fun d => hB.stable.and (stable_heard d)) (fun s v hs hb _ => ?_)
  obtain ⟨hb, i, hi, rfl, rfl⟩ := hb
  obtain ⟨hstep, hheard⟩ := invoke_step v hfit hi
    (m := ⟨i.payload, i.idempotencyKey, i.expectedRevision, _⟩) rfl (fun reply hr => by
      subst hr
      exact (ite_eq_or_eq (v.reply = .raised) Reply.raised _))
  obtain ⟨hinv, hguar⟩ := session_step hs (.phase hstep)
  exact ⟨hinv, hguar, fun d hd => ⟨hB.phase _ _ hs hstep hb, hheard d hd⟩⟩

theorem triple_sessionRefresh (hB : Lasting t.handle tidy name payload B) :
    (sessionSpec t.handle tidy).Triple () (fun s => B s ∧ Unknown t.handle name s)
      (refreshPhaseIntent (ReplayAuthority.host finds) c t record name payload request)
      (fun out s => B s ∧ (tidy → PlainKeys t.handle record → PlainKeys t.handle out)) := by
  have hstable : (sessionSpec t.handle tidy).Stable () (fun s => B s ∧ Unknown t.handle name s) :=
    hB.stable.and stable_unknown
  refine triple_bind (triple_sessionObserve hstable) (fun revision => ?_)
  refine triple_bind (M := fun current s => B s ∧ (tidy → PlainKeys t.handle current))
    (triple_refreshIntent session_refl hstable (fun _ => hB.stable.and (stable_const _))
      (fun s old hs hb ho => ⟨hb.1, fun ht => (hs.proper ht).plain _ _ _ ho⟩) ?_)
    (fun current => triple_done (hB.stable.and (stable_const _))
      (fun s _ hb => ⟨hb.1, fun ht hr => plainKeys_merge hr (hb.2 ht)⟩))
  intro s old i hs hb _ ho hi hp hne
  have hstep : PhaseStep t.handle tidy name payload s
      (s.issue t.handle name old (i.refreshed t.handle name payload revision)) :=
    .issue rfl ho hb.2 (fun _ _ => phaseKey_refreshed)
  obtain ⟨hinv, hguar⟩ := session_step hs (.phase hstep)
  exact ⟨hinv, hguar, hB.phase _ _ hs hstep hb.1,
    fun ht => (hinv.proper ht).plain _ _ _ (World.record_put ho _)⟩

/-- What a call knows once a phase was answered. -/
def PhaseDone (h : Handle) (tidy : Prop) (name : PhaseName) (record : Record)
    (out : Dict × Record) (s : World ReplayAuthority) : Prop :=
  (isAttention out.1 = false → Recorded h name out.1 s) ∧
    (tidy → PlainKeys h record → PlainKeys h out.2)

theorem stable_phaseDone {h : Handle} (out : Dict × Record) :
    (sessionSpec h tidy).Stable () (PhaseDone h tidy name record out) := by
  apply stable_edits
  rintro s s' ⟨present, revision, rfl⟩ hb
  exact hb

/-- `_invoke_phase`: the result that it returns is recorded. -/
theorem triple_sessionPhase {revision : Option ℕ} {key : Option Key}
    (hB : Lasting t.handle tidy name payload B) (hfit : Fits name payload)
    (hk : ∀ k, key = some k → tidy → KeyFits t.handle name k) :
    (sessionSpec t.handle tidy).Triple () B
      (invokePhase (ReplayAuthority.host finds) c t record name payload revision key)
      (fun out s => B s ∧ PhaseDone t.handle tidy name record out s) := by
  have hdone : ∀ {result : Dict} {u : Record}, (tidy → PlainKeys t.handle record →
      PlainKeys t.handle u) → (sessionSpec t.handle tidy).Triple ()
        (fun s => B s ∧ Heard t.handle name result s)
        (.done (result, u) : Host ReplayAuthority (Dict × Record))
        (fun out s => B s ∧ PhaseDone t.handle tidy name record out s) :=
    fun hu => triple_done (hB.stable.and (stable_phaseDone _))
      (fun _ _ hb => ⟨hb.1, hb.2.1, hu⟩)
  unfold invokePhase
  refine triple_bind (triple_sessionIntent hB hk) (fun out => ?_)
  rintro s hs ⟨hb, hst, hplain⟩
  refine triple_bind (triple_sessionSend hB hfit) (fun result => ?_) s hs ⟨hb, hst⟩
  dsimp only
  split
  · rename_i hstale
    -- the refused key is unknown, so the refresh loses no result
    refine triple_pre (B := fun s => B s ∧ Unknown t.handle name s) ?_
      (fun _ _ hb => ⟨hb.1, hb.2.2 hstale⟩)
    refine triple_bind (triple_sessionRefresh hB) (fun u => ?_)
    rintro s hs ⟨hb, hu⟩
    refine triple_bind (triple_sessionIntent hB (fun k (hk : none = some k) => by cases hk))
      (fun out' => ?_) s hs hb
    rintro s hs ⟨hb, hst, hplain'⟩
    refine triple_bind (triple_sessionSend hB hfit) (fun result => ?_) s hs ⟨hb, hst⟩
    exact hdone (fun ht hr => hplain' ht (hu ht (hplain ht hr)))
  · exact hdone hplain

end Phases

section Tools

variable {payload : Payload} {other : Tool}

theorem tool_of_ok {tool : Tool} {arguments : Dict} (hp : tool ≠ other)
    (h : (.ok ⟨tool, arguments⟩ : Except Err Payload) = .ok payload) : payload.tool ≠ other := by
  cases h
  exact hp

theorem tool_of_bind {α : Type} {x : Except Err α} {f : α → Except Err Payload}
    (hf : ∀ a, f a = .ok payload → payload.tool ≠ other) (h : (x >>= f) = .ok payload) :
    payload.tool ≠ other := by
  cases x with
  | ok a => exact hf a h
  | error e => cases h

theorem declaration_tool {fields : Dict} {r : Record} {tool : Tool} {names : List String}
    (hp : tool ≠ other) (h : declarationArguments fields r tool names = .ok payload) :
    payload.tool ≠ other := by
  unfold declarationArguments at h
  split at h
  · cases h
  · exact tool_of_bind (fun _ => tool_of_bind (fun _ => tool_of_ok hp)) h

theorem candidate_tool {r : Record} {tool : Tool} (hp : tool ≠ other)
    (h : coordinateArguments.candidateArguments r tool = .ok payload) : payload.tool ≠ other := by
  unfold coordinateArguments.candidateArguments at h
  split at h
  · exact tool_of_ok hp h
  · cases h

theorem resource_tool {fields : Dict} {tool : Tool} (hp : tool ≠ other)
    (h : coordinateArguments.resourceArguments fields tool = .ok payload) : payload.tool ≠ other :=
  tool_of_bind (fun _ => tool_of_ok hp) h

theorem coordinateArguments_not_verify {h : Handle} {action : CoordinateAction} {fields : Dict}
    {r : Record} (hp : coordinateArguments h action fields r = .ok payload) :
    payload.tool ≠ .verifyAttempt := by
  cases action with
  | sync => exact tool_of_ok (by decide) hp
  | message | answer | fork | startChild | acceptChild | rejectChild | reviewChildCandidate
  | submitChildCandidate | cancelChild | reconcileChild | recover | integrate =>
    exact tool_of_bind (fun _ => tool_of_ok (by decide)) hp
  | publishContext | publishFinding | invalidateFinding | reserveResource =>
    exact tool_of_bind (fun _ => tool_of_bind (fun _ => tool_of_ok (by decide))) hp
  | acceptOutcome | rejectOutcome => exact candidate_tool (by decide) hp
  | reconcileResource | retryResource | releaseResource => exact resource_tool (by decide) hp
  | arrive | arriveRendezvous | publishInterface | resolveDecision | acceptCheckpoint
  | releaseBarrier | openBlocker | clearBlocker => exact declaration_tool (by decide) hp
  | runGates | bindRequiredGates | requestIntegration | verify | heartbeat | resume
  | releaseAttempt | reportOutcome => cases hp

theorem coordinateArguments_sync {h : Handle} {fields : Dict} {r : Record}
    (hp : coordinateArguments h .sync fields r = .ok payload) : payload.tool = .syncInbox := by
  cases hp
  rfl

theorem fits_verify (record : Record) (requirement : String) :
    Fits (.verify requirement) (verifyPayload record requirement) := by
  intro other
  have hv : (verifyPayload record requirement).verifies = some requirement := rfl
  rw [hv]
  simp

/-- A phase of another kind that sends another tool. -/
theorem fits_other {name : PhaseName} (hn : ∀ requirement, name ≠ .verify requirement)
    (hp : payload.tool ≠ .verifyAttempt) : Fits name payload := by
  intro requirement
  refine iff_of_false (hn requirement) (fun hv => ?_)
  unfold Payload.verifies at hv
  split at hv
  · exact hp (by assumption)
  · cases hv

end Tools

section Gates

variable {finds : ℕ → Payload → Input → CommitResult} {c : Codec} {t : Target} {h : Handle}
variable {tidy : Prop} {record : Record}

/-- An assertion that the edits and every step of the session keep. -/
structure Kept (h : Handle) (tidy : Prop) (B : World ReplayAuthority → Prop) : Prop where
  edits : ∀ s s', Edits s s' → B s → B s'
  step : ∀ s s', SessionStep h tidy s s' → B s → B s'

variable {B : World ReplayAuthority → Prop}

theorem Kept.lasting (hB : Kept h tidy B) (name : PhaseName) (payload : Payload) :
    Lasting h tidy name payload B :=
  ⟨hB.edits, fun s s' _ hs hb => hB.step s s' (.phase hs) hb⟩

theorem Kept.stable (hB : Kept h tidy B) : (sessionSpec h tidy).Stable () B :=
  stable_edits hB.edits

theorem kept_true : Kept h tidy (fun _ => True) := ⟨fun _ _ _ _ => trivial, fun _ _ _ _ => trivial⟩

theorem kept_recorded (name : PhaseName) (d : Dict) : Kept h tidy (Recorded h name d) where
  edits := by
    rintro s s' ⟨present, revision, rfl⟩ hb
    exact hb
  step := fun s s' hs hb => (hs.keeps hb).1

/-- A reply that carries the result of an action. -/
def Response.carries : Response → Bool
  | .coordinated _ _ (some _) => true
  | _ => false

/-- A reply without verdicts and results. -/
def Response.silent : Response → Bool
  | .verified .. | .coordinated _ _ (some _) => false
  | _ => true

theorem Response.not_reports {response : Response} (hr : response.silent = true)
    (requirement : String) (d : Dict) : ¬ response.reports requirement d := by
  cases response with
  | verified results handle => cases hr
  | _ => exact id

theorem Response.not_carries {response : Response} (hr : response.silent = true) :
    response.carries = false := by
  cases response with
  | coordinated action handle result =>
    cases result with
    | some d => cases hr
    | none => rfl
  | _ => rfl

/-- The verdicts that a reply reports are recorded, and it carries no result. -/
def Faithful (h : Handle) (response : Response) (s : World ReplayAuthority) : Prop :=
  (∀ requirement d, response.reports requirement d → Recorded h (.verify requirement) d s) ∧
    response.carries = false

theorem kept_faithful (response : Response) : Kept h tidy (Faithful h response) where
  edits := fun s s' he hb => ⟨fun requirement d hd =>
    (@kept_recorded h tidy _ d).edits s s' he (hb.1 requirement d hd), hb.2⟩
  step := fun _ _ hs hb =>
    ⟨fun requirement d hd => (hs.keeps (hb.1 requirement d hd)).1, hb.2⟩

theorem faithful_of_silent {response : Response} (hr : response.silent = true)
    (s : World ReplayAuthority) : Faithful h response s :=
  ⟨fun requirement d hd => absurd hd (Response.not_reports hr requirement d),
    Response.not_carries hr⟩

theorem triple_silent {response : Response} (hr : response.silent = true) :
    (sessionSpec h tidy).Triple () B (.done response : Host ReplayAuthority Response)
      (Faithful h) :=
  triple_done (kept_faithful response).stable (fun s _ _ => faithful_of_silent hr s)

theorem triple_respondSilent {response : Response} (hr : response.silent = true) :
    (sessionSpec h tidy).Triple () B (respond c response) (Faithful h) :=
  triple_respond (kept_faithful response).stable (fun s _ => faithful_of_silent hr s)

/-- The verdicts of a list are recorded. -/
def AllRecorded (h : Handle) (results : List (String × Dict)) (s : World ReplayAuthority) :
    Prop :=
  ∀ requirement d, (requirement, d) ∈ results → Recorded h (.verify requirement) d s

theorem kept_allRecorded (results : List (String × Dict)) :
    Kept h tidy (AllRecorded h results) where
  edits := fun s s' he hb requirement d hd =>
    (@kept_recorded h tidy _ d).edits s s' he (hb requirement d hd)
  step := fun _ _ hs hb requirement d hd => (hs.keeps (hb requirement d hd)).1

theorem triple_sessionAll (requirements : List String) (results : List (String × Dict)) :
    (sessionSpec t.handle tidy).Triple () (AllRecorded t.handle results)
      (verifyAll (ReplayAuthority.host finds) c t record requirements results)
      (Faithful t.handle) := by
  induction requirements generalizing results with
  | nil =>
    refine triple_respond (kept_faithful _).stable (fun s hb => ⟨fun requirement d hd => ?_, rfl⟩)
    exact hb requirement d (List.mem_reverse.mp hd)
  | cons requirementId rest ih =>
    refine triple_bind (triple_sessionPhase ((kept_allRecorded results).lasting _ _)
      (fits_verify record requirementId) (fun k hk => by cases hk)) (fun out => ?_)
    dsimp only
    split
    · exact triple_silent rfl
    · rename_i hatt
      refine triple_pre (ih _) (fun s _ hb requirement d hd => ?_)
      rcases List.mem_cons.mp hd with he | hd
      · cases he
        exact hb.2.1 (by simpa using hatt)
      · exact hb.1 requirement d hd

theorem triple_sessionGates {requested : Option (List String)} :
    (sessionSpec t.handle tidy).Triple () (fun _ => True)
      (runGates (ReplayAuthority.host finds) c t record requested) (Faithful t.handle) := by
  unfold runGates
  dsimp only
  split
  · refine triple_pre (triple_sessionAll _ []) (fun s _ _ => ?_)
    intro requirement d hd
    cases hd
  · exact triple_raise

/-- A change of the record that leaves its intents and operations alone. -/
theorem triple_sessionUpdate {entered : Option Phase} {changes : Record}
    (hB : Kept t.handle tidy B) (hi : changes.phaseIntents = none)
    (ho : changes.operations = none) (hk : tidy → PlainKeys t.handle changes) :
    (sessionSpec t.handle tidy).Triple () B (storeUpdate c t entered changes) (fun _ => B) := by
  refine triple_storeUpdate session_refl hB.stable (fun _ => hB.stable)
    (fun s old hs hb _ hold => ?_)
  have hstep : SessionStep t.handle tidy s (s.put t.handle (old.merge changes)) :=
    .update rfl hold hi hk (fun _ operations he => by rw [ho] at he; cases he)
  obtain ⟨hinv, hguar⟩ := session_step hs hstep
  exact ⟨hinv, hguar, hB.step _ _ hstep hb⟩

end Gates

end ProjectControl.Compact
