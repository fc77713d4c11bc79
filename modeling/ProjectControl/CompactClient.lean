import ProjectControl.CompactSession

/-! The calls of a client one by one: finishing, resuming, renewing and the coordinate
actions, and the session in which they follow each other. -/

set_option autoImplicit false

namespace ProjectControl.Compact

open Resumption Resumption.Spec

section Finish

variable {finds : ℕ → Payload → Input → CommitResult} {c : Codec} {t : Target} {h : Handle}
variable {tidy : Prop} {record : Record} {B : World ReplayAuthority → Prop}

/-- A stage answers with recorded verdicts only, or goes on with a plain record. -/
def StageFaithful (h : Handle) (tidy : Prop) (out : Response ⊕ Record)
    (s : World ReplayAuthority) : Prop :=
  (∀ response, out = .inl response → Faithful h response s) ∧
    ∀ record, out = .inr record → tidy → PlainKeys h record

theorem kept_stage (out : Response ⊕ Record) : Kept h tidy (StageFaithful h tidy out) where
  edits := fun s s' he hb => ⟨fun response hr =>
    (@kept_faithful h tidy response).edits s s' he (hb.1 response hr), hb.2⟩
  step := fun s s' hs hb => ⟨fun response hr =>
    (@kept_faithful h tidy response).step s s' hs (hb.1 response hr), hb.2⟩

theorem triple_goOn (hp : tidy → PlainKeys h record) :
    (sessionSpec h tidy).Triple () B (.done (.inr record) : Host ReplayAuthority _)
      (StageFaithful h tidy) := by
  refine triple_done (kept_stage _).stable (fun s _ _ => ⟨fun _ hr => (by cases hr), ?_⟩)
  intro r hr
  cases hr
  exact hp

theorem triple_stop {response : Response} :
    (sessionSpec h tidy).Triple () (Faithful h response)
      (.done (.inl response) : Host ReplayAuthority _) (StageFaithful h tidy) := by
  refine triple_done (kept_stage _).stable (fun s _ hb => ⟨?_, fun _ hr => (by cases hr)⟩)
  intro r hr
  cases hr
  exact hb

theorem triple_stopSilent {response : Response} (hr : response.silent = true) :
    (sessionSpec h tidy).Triple () B (.done (.inl response) : Host ReplayAuthority _)
      (StageFaithful h tidy) :=
  triple_pre triple_stop (fun s _ _ => faithful_of_silent hr s)

theorem triple_respondStop {response : Response} (hr : response.silent = true) :
    (sessionSpec h tidy).Triple () B (do
      let response ← respond c response
      .done (.inl response) : Host ReplayAuthority _) (StageFaithful h tidy) :=
  triple_bind (triple_respondSilent hr) (fun _ => triple_stop)

theorem triple_sessionStage {stage : Host ReplayAuthority (Response ⊕ Record)}
    {rest : Record → Host ReplayAuthority Response}
    (hs : (sessionSpec h tidy).Triple () B stage (StageFaithful h tidy))
    (hr : ∀ record, (tidy → PlainKeys h record) →
      (sessionSpec h tidy).Triple () (fun _ => True) (rest record) (Faithful h)) :
    (sessionSpec h tidy).Triple () B (andStage stage rest) (Faithful h) := by
  refine triple_bind hs (fun out => ?_)
  cases out with
  | inl response =>
    exact triple_done (@kept_faithful h tidy response).stable (fun _ _ hb => hb.1 response rfl)
  | inr record =>
    intro s hs hb
    exact hr record (hb.2 record rfl) s hs trivial

theorem triple_sessionWhen {phase : Phase}
    {stage : Record → Host ReplayAuthority (Response ⊕ Record)} (hp : tidy → PlainKeys h record)
    (hs : (sessionSpec h tidy).Triple () (fun _ => True) (stage record)
      (StageFaithful h tidy)) :
    (sessionSpec h tidy).Triple () (fun _ => True) (whenPhase phase stage record)
      (StageFaithful h tidy) := by
  unfold whenPhase
  split
  · exact hs
  · exact triple_goOn hp

/-- A key of a plain record fits every phase that is no coordinate phase. -/
theorem keyFits_of_plain {name : PhaseName} {key : Key} (hp : PlainKeys h record)
    (hn : ∀ actionId, name ≠ .coordinate actionId)
    (hk : record.handbackKey = some key ∨ record.reportKey = some key ∨
      record.releaseKey = some key) : KeyFits h name key :=
  fun actionId => iff_of_false (hp key hk actionId) (hn actionId)

theorem triple_sessionHandBack (hp : tidy → PlainKeys t.handle record) :
    (sessionSpec t.handle tidy).Triple () (fun _ => True)
      (handBack (ReplayAuthority.host finds) c t record) (StageFaithful t.handle tidy) := by
  unfold handBack
  refine triple_bind (triple_sessionPhase (kept_true.lasting _ _)
    (fits_other (fun _ => by simp) (by simp [handbackPayload])) ?_) (fun out => ?_)
  · exact fun k hk ht => keyFits_of_plain (hp ht) (fun _ => by simp) (Or.inl hk)
  · rintro s hs ⟨-, -, hplain⟩
    dsimp only
    split
    · exact triple_stopSilent (B := fun _ => True) rfl s hs trivial
    · refine triple_bind (M := fun _ _ => True) (triple_ofExcept (B := fun _ => True)
        (fun _ => stable_true) (fun _ _ _ _ _ => trivial)) (fun proof => ?_) s hs trivial
      refine triple_bind (triple_sessionUpdate kept_true rfl rfl (fun _ key hk => ?_))
        (fun _ => triple_goOn (fun ht => hplain ht (hp ht)))
      simp at hk

theorem triple_sessionReport (hp : tidy → PlainKeys t.handle record) :
    (sessionSpec t.handle tidy).Triple () (fun _ => True)
      (reportOutcome (ReplayAuthority.host finds) c t record) (StageFaithful t.handle tidy) := by
  unfold reportOutcome
  refine triple_bind (triple_sessionPhase (kept_true.lasting _ _)
    (fits_other (fun _ => by simp) (by simp [reportPayload])) ?_) (fun out => ?_)
  · exact fun k hk ht => keyFits_of_plain (hp ht) (fun _ => by simp) (Or.inr (Or.inl hk))
  · dsimp only
    split
    · exact triple_stopSilent rfl
    · split
      · exact triple_stopSilent rfl
      · refine triple_pre (B := fun _ => True) ?_ (fun _ _ _ => trivial)
        refine triple_bind (triple_sessionUpdate kept_true rfl rfl (fun _ key hk => ?_))
          (fun _ => triple_respondStop rfl)
        simp at hk

theorem triple_sessionRelease (hp : tidy → PlainKeys t.handle record) :
    (sessionSpec t.handle tidy).Triple () (fun _ => True)
      (releaseAttempt (ReplayAuthority.host finds) c t record)
      (StageFaithful t.handle tidy) := by
  unfold releaseAttempt
  refine triple_bind (triple_sessionPhase (kept_true.lasting _ _)
    (fits_other (fun _ => by simp) (by simp [releasePayload])) ?_) (fun out => ?_)
  · exact fun k hk ht => keyFits_of_plain (hp ht) (fun _ => by simp) (Or.inr (Or.inr hk))
  · dsimp only
    split
    · exact triple_stopSilent rfl
    · refine triple_pre (B := fun _ => True) ?_ (fun _ _ _ => trivial)
      refine triple_bind (triple_sessionUpdate kept_true rfl rfl (fun _ key hk => ?_))
        (fun _ => triple_respondStop rfl)
      simp at hk

/-- The keys that a finish records are no keys of coordinate phases. -/
theorem plainKeys_finish (action : FinishAction) (note reason : Option String) (token : Handle) :
    PlainKeys h (finishRecord h action note reason token) := by
  rintro key (hk | hk | hk) actionId ⟨-, hop⟩
  · cases hk
    simp [operationKey] at hop
  · cases hk
    simp [operationKey] at hop
  · cases hk
    simp [operationKey] at hop

theorem triple_sessionRecord {action : FinishAction} {disposition note reason : Option String} :
    (sessionSpec t.handle tidy).Triple () (fun _ => True)
      (recordFinish (ReplayAuthority.host finds) c t record action disposition note reason)
      (StageFaithful t.handle tidy) := by
  unfold recordFinish
  split
  · exact triple_raise
  · refine triple_bind (M := Faithful t.handle) ?_ (fun gates => ?_)
    · unfold finishGates
      split
      · exact triple_sessionGates
      · exact triple_done (kept_faithful _).stable (fun _ _ _ =>
        ⟨fun _ _ hd => (by cases hd), rfl⟩)
    · split
      · exact triple_stop
      · refine triple_bind (M := fun data _ => tidy → PlainKeys t.handle data)
          (triple_storeGet session_refl (kept_faithful gates).stable
            (fun _ => stable_const _)
            (fun s data hs _ ho ht => (hs.proper ht).plain _ _ _ ho)) (fun data => ?_)
        intro s hs hplain
        refine triple_bind (M := fun _ _ => True) (triple_read (B := fun _ => True) session_refl
          stable_true (fun _ => stable_true) (fun _ _ _ _ _ _ => trivial)) (fun token => ?_)
          s hs trivial
        refine triple_bind (triple_sessionUpdate kept_true rfl rfl
          (fun _ => plainKeys_finish action note reason token)) (fun _ => triple_goOn ?_)
        exact fun ht => plainKeys_merge (hplain ht) (plainKeys_finish action note reason token)

theorem triple_sessionFinish {recorded : Host ReplayAuthority (Response ⊕ Record)}
    (hr : (sessionSpec t.handle tidy).Triple () (fun _ => True) recorded
      (StageFaithful t.handle tidy)) :
    (sessionSpec t.handle tidy).Triple () (fun _ => True)
      (finishRecorded.finish (ReplayAuthority.host finds) c t recorded) (Faithful t.handle) := by
  refine triple_sessionStage hr (fun record hp => ?_)
  refine triple_sessionStage (triple_sessionWhen hp (triple_sessionHandBack hp))
    (fun record hp => ?_)
  refine triple_sessionStage (triple_sessionWhen hp (triple_sessionReport hp))
    (fun record hp => ?_)
  exact triple_sessionStage (triple_sessionWhen hp (triple_sessionRelease hp))
    (fun record hp => triple_silent rfl)

theorem triple_sessionRecorded {action : FinishAction} {disposition note reason : Option String}
    (hp : tidy → PlainKeys t.handle record) :
    (sessionSpec t.handle tidy).Triple () (fun _ => True)
      (finishRecorded (ReplayAuthority.host finds) c t record action disposition note reason)
      (Faithful t.handle) := by
  have hcheck : (sessionSpec t.handle tidy).Triple () (fun _ => True)
      (checkFinish record action note reason : Host ReplayAuthority _)
      (StageFaithful t.handle tidy) := by
    rcases checkFinish_cases record action note reason with ⟨code, hr⟩ | hr
    · rw [hr]
      exact triple_raise
    · rw [hr]
      exact triple_goOn hp
  unfold finishRecorded
  split
  · exact triple_raise
  · split
    · exact triple_respondSilent rfl
    · exact triple_respondSilent rfl
    · exact triple_respondSilent rfl
    · exact triple_respondSilent rfl
    · exact triple_respondSilent rfl
    · exact triple_sessionFinish triple_sessionRecord
    · exact triple_sessionFinish hcheck
    · exact triple_sessionFinish hcheck
    · exact triple_sessionFinish hcheck
    · exact triple_raise

theorem triple_sessionAttention {handle : Option Handle} {failed : String}
    {body : Host ReplayAuthority Response} {Q : Response → World ReplayAuthority → Prop}
    (hQ : ∀ response, (sessionSpec h tidy).Stable () (Q response))
    (hattention : ∀ reason s, Q (.attention reason handle) s)
    (hb : (sessionSpec h tidy).Triple () B body Q) :
    (sessionSpec h tidy).Triple () B (orAttention handle failed body) Q := by
  refine triple_tryCatch hb (fun e => ?_)
  cases e with
  | workflow code => exact triple_done (hQ _) (fun s _ _ => hattention code s)
  | other => exact triple_done (hQ _) (fun s _ _ => hattention failed s)

/-- The record of the handle, of which the operations are settled. -/
def Copied (h : Handle) (tidy : Prop) (out : Target × Record) (s : World ReplayAuthority) :
    Prop :=
  out.1.handle = h ∧ (tidy → PlainKeys h out.2 ∧
    ∀ operations, out.2.operations = some operations → Settled h operations s)

theorem kept_settled (operations : ActionId → Option OperationEntry) :
    Kept h tidy (Settled h operations) where
  edits := fun s s' he hb actionId entry d ho hr =>
    (@kept_recorded h tidy _ d).edits s s' he (hb actionId entry d ho hr)
  step := fun _ _ hs hb => hb.step hs

theorem kept_copied (out : Target × Record) : Kept h tidy (Copied h tidy out) where
  edits := fun s s' he hb => ⟨hb.1, fun ht => ⟨(hb.2 ht).1, fun operations ho =>
    (@kept_settled h tidy operations).edits s s' he ((hb.2 ht).2 operations ho)⟩⟩
  step := fun s s' hs hb => ⟨hb.1, fun ht => ⟨(hb.2 ht).1, fun operations ho =>
    (@kept_settled h tidy operations).step s s' hs ((hb.2 ht).2 operations ho)⟩⟩

theorem triple_sessionResolve (hB : (sessionSpec h tidy).Stable () B) :
    (sessionSpec h tidy).Triple () B (resolveHandle c h)
      (fun out s => B s ∧ Copied h tidy out s) := by
  refine triple_resolveHandle session_refl hB
    (fun out => hB.and (kept_copied out).stable) (fun s p r data hs hb ho => ⟨hb, rfl, ?_⟩)
  exact fun ht => ⟨(hs.proper ht).plain p r data ho,
    fun operations hops => (hs.proper ht).settled p r data operations ho hops⟩

theorem triple_sessionAuthoring {action : FinishAction}
    {disposition note reason : Option String} :
    (sessionSpec h tidy).Triple () B
      (finishAuthoring (ReplayAuthority.host finds) c h action disposition note reason)
      (Faithful h) := by
  refine triple_sessionAttention (fun _ => (kept_faithful _).stable)
    (fun _ s => faithful_of_silent rfl s) (triple_bind triple_checkTexts (fun _ => ?_))
  refine triple_bind (triple_sessionResolve stable_true) (fun out => ?_)
  rintro s hs ⟨-, rfl, hcopy⟩
  exact triple_sessionRecorded (fun ht => (hcopy ht).1) s hs trivial

end Finish

section Renewal

variable {finds : ℕ → Payload → Input → CommitResult} {c : Codec} {t : Target} {h : Handle}
variable {tidy : Prop} {record : Record} {B : World ReplayAuthority → Prop}

theorem triple_sessionNative {tool : Tool} {project repository : String} {arguments : Dict}
    (hB : (sessionSpec h tidy).Stable () B) :
    (sessionSpec h tidy).Triple () B
      (serveRead (ReplayAuthority.host finds) project repository tool arguments)
      (fun _ => B) :=
  triple_serveRead hB (fun _ => hB) (fun s _ hs hb => ⟨hs, session_refl s, fun _ _ => hb⟩)

theorem triple_sessionResume :
    (sessionSpec t.handle tidy).Triple () (fun _ => True)
      (resumeActive (ReplayAuthority.host finds) c t record)
      (fun out _ => ∀ response, out = some response → response.silent = true) := by
  have hquiet : ∀ {B : World ReplayAuthority → Prop} {out : Option Response},
      (∀ response, out = some response → response.silent = true) →
      (sessionSpec t.handle tidy).Triple () B (.done out : Host ReplayAuthority _)
        (fun out _ => ∀ response, out = some response → response.silent = true) :=
    fun ho => triple_done (stable_const _) (fun _ _ _ => ho)
  unfold resumeActive
  split
  · split
    · exact hquiet (fun _ hr => by cases hr; rfl)
    · refine triple_bind (triple_sessionNative stable_true) (fun inspected => ?_)
      dsimp only
      split
      · exact hquiet (fun _ hr => by cases hr; rfl)
      · refine triple_bind (triple_sessionPhase (kept_true.lasting _ _)
          (fits_other (fun _ => by simp) (by simp [resumePayload])) (fun k hk => by cases hk))
          (fun out => ?_)
        split
        · exact hquiet (fun _ hr => by cases hr; rfl)
        · split
          · exact hquiet (fun _ hr => by cases hr; rfl)
          · refine triple_pre (B := fun _ => True) ?_ (fun _ _ _ => trivial)
            refine triple_bind (triple_sessionUpdate kept_true rfl rfl (fun _ key hk => ?_))
              (fun _ => hquiet (fun _ hr => by cases hr))
            simp at hk
  · exact hquiet (fun _ hr => by cases hr; rfl)

theorem triple_sessionHeartbeat :
    (sessionSpec t.handle tidy).Triple () (fun _ => True)
      (heartbeatActive (ReplayAuthority.host finds) c t record) (fun _ _ => True) := by
  unfold heartbeatActive
  split
  · refine triple_bind (triple_sessionPhase (kept_true.lasting _ _)
      (fits_other (fun _ => by simp) (by simp [heartbeatPayload])) (fun k hk => by cases hk))
      (fun out => ?_)
    dsimp only
    split
    · exact triple_finished
    · split
      · exact triple_finished
      · refine triple_pre (B := fun _ => True) ?_ (fun _ _ _ => trivial)
        refine triple_bind (triple_sessionUpdate kept_true rfl rfl (fun _ key hk => ?_))
          (fun _ => triple_finished)
        simp at hk
  · exact triple_finished

theorem triple_sessionNote {reason : String} :
    (sessionSpec t.handle tidy).Triple () (fun _ => True)
      (noteRenewal c t reason : Host ReplayAuthority Unit) (fun _ _ => True) := by
  refine triple_bind (triple_sessionUpdate kept_true rfl rfl (fun _ key hk => ?_))
    (fun _ => triple_finished)
  simp at hk

theorem triple_sessionRenew :
    (sessionSpec t.handle tidy).Triple () (fun _ => True)
      (renewalPass (ReplayAuthority.host finds) c t) (fun _ _ => True) := by
  refine triple_tryCatch ?_ (fun _ => triple_tryCatch triple_sessionNote
    (fun _ => triple_finished))
  refine triple_bind (M := fun _ _ => True) (triple_storeGet session_refl stable_true
    (fun _ => stable_true) (fun _ _ _ _ _ => trivial)) (fun data => ?_)
  split
  · refine triple_bind triple_sessionHeartbeat (fun out => ?_)
    split
    · exact triple_sessionNote
    · exact triple_finished
  · exact triple_finished

end Renewal

section Coordinate

variable {finds : ℕ → Payload → Input → CommitResult} {c : Codec} {t : Target} {h : Handle}
variable {tidy : Prop} {record : Record} {actionId : ActionId} {began : List Execution}

/-- While an action is carried out, the authority executes nothing if it has executed the
action before, and at most the action otherwise. -/
def Ongoing (h : Handle) (tidy : Prop) (actionId : ActionId) (began : List Execution)
    (s : World ReplayAuthority) : Prop :=
  tidy → ((∃ x ∈ began, PhaseKey h (.coordinate actionId) x.key) → s.native.executed = began) ∧
    ((∀ x ∈ began, ¬ PhaseKey h (.coordinate actionId) x.key) →
      s.native.executed = began ∨ ∃ x, s.native.executed = x :: began ∧
        PhaseKey h (.coordinate actionId) x.key ∧
        (actionId.action = .sync → x.payload.tool = .syncInbox))

theorem Ongoing.edits {s s' : World ReplayAuthority} (he : Edits s s')
    (hb : Ongoing h tidy actionId began s) : Ongoing h tidy actionId began s' := by
  obtain ⟨present, revision, rfl⟩ := he
  exact hb

theorem lasting_ongoing {payload : Payload}
    (hpay : actionId.action = .sync → payload.tool = .syncInbox) :
    Lasting h tidy (.coordinate actionId) payload (Ongoing h tidy actionId began) where
  edits := fun _ _ he hb => hb.edits he
  phase := by
    intro s s' hs hstep hb ht
    obtain ⟨hknown, hnew⟩ := hb ht
    cases hstep with
    | issue | answered => exact ⟨hknown, hnew⟩
    | @executed m i result v hi hp hm hfit hu hr =>
      -- an execution of the action would have left its key known
      have hfresh : ∀ x ∈ s.native.executed, ¬ PhaseKey h (.coordinate actionId) x.key := by
        intro x hx hk
        refine ((hs.proper ht).ran actionId x hx hk).not_unknown (fun i' hi' => ?_)
        cases hi.symm.trans hi'
        exact hu
      constructor
      · rintro ⟨x, hx, hk⟩
        exact absurd hk (hfresh x (by rw [hknown ⟨x, hx, hk⟩]; exact hx))
      · intro hn
        rcases hnew hn with he | ⟨x, he, hk, -⟩
        · refine Or.inr ⟨⟨i.idempotencyKey, payload, s.native.present, result.1⟩, ?_, ?_, hpay⟩
          · exact congrArg (List.cons _) he
          · exact ((hs.proper ht).own _ i hi actionId).mpr rfl
        · exact absurd hk (hfresh x (by rw [he]; exact List.mem_cons_self))

/-- The result of an action is the one of its only execution. -/
theorem carried_of_ongoing {s : World ReplayAuthority} {d : Dict} (hp : Proper h s)
    (ht : tidy) (hb : Ongoing h tidy actionId began s)
    (hd : Recorded h (.coordinate actionId) d s) :
    Carried h actionId began s.native.executed d := by
  obtain ⟨hknown, hnew⟩ := hb ht
  by_cases hk : ∃ x ∈ began, PhaseKey h (.coordinate actionId) x.key
  · exact Or.inl ⟨hk, hknown hk⟩
  · have hn : ∀ x ∈ began, ¬ PhaseKey h (.coordinate actionId) x.key :=
      fun x hx hx' => hk ⟨x, hx, hx'⟩
    refine Or.inr ⟨hn, ?_⟩
    rcases hnew hn with he | ⟨x, he, hxk, hx⟩
    · obtain ⟨i, result, hi, -, hres⟩ := hd
      have hkey := (hp.own _ i hi actionId).mpr rfl
      obtain ⟨x, hx, hxk⟩ := hp.known actionId i.idempotencyKey hkey
        (by rw [hres]; exact Option.some_ne_none _)
      exact absurd (hxk ▸ hkey) (hn x (he ▸ hx))
    · have hran := hp.ran actionId x (he ▸ List.mem_cons_self) hxk
      exact ⟨x, he, hxk, hran.unique hd, hx⟩

/-- The reply to a coordinate call tells what is recorded and was carried out. -/
def Truthful (h : Handle) (tidy : Prop) (call : SessionCall) (began : List Execution)
    (response : Response) (s : World ReplayAuthority) : Prop :=
  (∀ requirement d, response.reports requirement d → Recorded h (.verify requirement) d s) ∧
    (tidy → ∀ actionId d, (call = .coordinate actionId.action actionId.fields ∧
      ∃ handle, response = .coordinated actionId.action handle (some d)) →
      Recorded h (.coordinate actionId) d s ∧ Carried h actionId began s.native.executed d)

theorem stable_truthful (call : SessionCall) (response : Response) :
    (sessionSpec h tidy).Stable () (Truthful h tidy call began response) := by
  apply stable_edits
  rintro s s' ⟨present, revision, rfl⟩ hb
  exact hb

theorem Faithful.truthful {call : SessionCall} {response : Response}
    {s : World ReplayAuthority} (hf : Faithful h response s) :
    Truthful h tidy call began response s := by
  refine ⟨hf.1, fun _ actionId d hc => ?_⟩
  obtain ⟨-, handle, rfl⟩ := hc
  cases hf.2

/-- What holds while the operations of an action are written. -/
def Completed (h : Handle) (tidy : Prop) (actionId : ActionId) (began : List Execution)
    (record : Record) (d : Dict) (s : World ReplayAuthority) : Prop :=
  Ongoing h tidy actionId began s ∧ (tidy → ∀ operations, record.operations = some operations →
    Settled h operations s) ∧ (tidy → Recorded h (.coordinate actionId) d s)

theorem stable_completed (d : Dict) :
    (sessionSpec h tidy).Stable () (Completed h tidy actionId began record d) := by
  apply stable_edits
  rintro s s' ⟨present, revision, rfl⟩ hb
  exact hb

theorem triple_sessionOperations {entered : Option Phase} {changes : Record} {d : Dict}
    (hi : changes.phaseIntents = none) (hk : PlainKeys t.handle changes)
    (hops : ∀ s, Completed t.handle tidy actionId began record d s → tidy →
      ∀ operations, changes.operations = some operations → Settled t.handle operations s) :
    (sessionSpec t.handle tidy).Triple () (Completed t.handle tidy actionId began record d)
      (storeUpdate c t entered changes)
      (fun _ => Completed t.handle tidy actionId began record d) := by
  refine triple_storeUpdate session_refl (stable_completed d) (fun _ => stable_completed d)
    (fun s old hs hb _ hold => ?_)
  have hstep : SessionStep t.handle tidy s (s.put t.handle (old.merge changes)) :=
    .update rfl hold hi (fun _ => hk) (hops s hb)
  obtain ⟨hinv, hguar⟩ := session_step hs hstep
  refine ⟨hinv, hguar, hb.1, fun ht operations ho => ?_, fun ht => (hstep.keeps (hb.2.2 ht)).1⟩
  exact (hb.2.1 ht operations ho).step hstep

theorem truthful_of_completed {s : World ReplayAuthority} {d : Dict}
    (hs : SessionInv h tidy s) (hb : Completed h tidy actionId began record d s)
    (handle : Handle) :
    Truthful h tidy (.coordinate actionId.action actionId.fields) began
      (.coordinated actionId.action handle (some d)) s := by
  refine ⟨fun _ _ hd => (by cases hd), fun ht other d' hc => ?_⟩
  obtain ⟨hcall, handle', hr⟩ := hc
  obtain ⟨action, fields⟩ := actionId
  obtain ⟨action', fields'⟩ := other
  cases hcall
  cases hr
  exact ⟨hb.2.2 ht, carried_of_ongoing (hs.proper ht) ht hb.1 (hb.2.2 ht)⟩

/-- The action of a call is answered with its result. -/
theorem triple_carried {action : CoordinateAction} {fields : Dict} {d : Dict} :
    (sessionSpec h tidy).Triple () (Completed h tidy ⟨action, fields⟩ began record d)
      (respond c (.coordinated action t.handle (some d)))
      (Truthful h tidy (.coordinate action fields) began) := by
  unfold respond
  split
  · exact triple_raise
  · exact triple_done (stable_truthful _ _)
      (fun s hs hb => truthful_of_completed hs hb t.handle)

theorem triple_quiet {B : World ReplayAuthority → Prop} {call : SessionCall}
    {response : Response} (hr : response.silent = true) :
    (sessionSpec h tidy).Triple () B (.done response : Host ReplayAuthority Response)
      (Truthful h tidy call began) :=
  triple_done (stable_truthful _ _) (fun s _ _ => (faithful_of_silent hr s).truthful)

theorem triple_respondQuiet {B : World ReplayAuthority → Prop} {call : SessionCall}
    {response : Response} (hr : response.silent = true) :
    (sessionSpec h tidy).Triple () B (respond c response : Host ReplayAuthority Response)
      (Truthful h tidy call began) :=
  triple_respond (stable_truthful _ _) (fun s _ => (faithful_of_silent hr s).truthful)

theorem triple_sessionAnswer {action : CoordinateAction} {fields : Dict} {d : Dict}
    {u : Record} :
    (sessionSpec h tidy).Triple () (Completed h tidy ⟨action, fields⟩ began record d)
      (coordinateAnswer c t action u d) (Truthful h tidy (.coordinate action fields) began) := by
  unfold coordinateAnswer
  split
  · exact triple_respondQuiet rfl
  · split
    · exact triple_quiet rfl
    · exact triple_carried

/-- The changes of an action are its operations and no intents or finish keys. -/
theorem coordinateChanges_fields (action : CoordinateAction) (r : Record) (d : Dict)
    (operations : ActionId → Option OperationEntry) :
    (coordinateChanges action r d operations).phaseIntents = none ∧
      (coordinateChanges action r d operations).operations = some operations ∧
      PlainKeys h (coordinateChanges action r d operations) := by
  have hplain : ∀ changes : Record, changes.handbackKey = none → changes.reportKey = none →
      changes.releaseKey = none → PlainKeys h changes := by
    intro changes h1 h2 h3 key hk
    simp [h1, h2, h3] at hk
  unfold coordinateChanges
  split
  · split
    · exact ⟨rfl, rfl, hplain _ rfl rfl rfl⟩
    · exact ⟨rfl, rfl, hplain _ rfl rfl rfl⟩
  · exact ⟨rfl, rfl, hplain _ rfl rfl rfl⟩
  · exact ⟨rfl, rfl, hplain _ rfl rfl rfl⟩
  · dsimp only
    split
    · exact ⟨rfl, rfl, hplain _ rfl rfl rfl⟩
    · exact ⟨rfl, rfl, hplain _ rfl rfl rfl⟩
  · exact ⟨rfl, rfl, hplain _ rfl rfl rfl⟩
  · exact ⟨rfl, rfl, hplain _ rfl rfl rfl⟩
  · exact ⟨rfl, rfl, hplain _ rfl rfl rfl⟩

/-- The operations stay settled when an action's entry has no result or its own. -/
theorem settled_update {s : World ReplayAuthority} {entry : OperationEntry}
    {operations : ActionId → Option OperationEntry} (ho : Settled h operations s)
    (he : ∀ d, entry.result = some d → Recorded h (.coordinate actionId) d s) :
    Settled h (Function.update operations actionId (some entry)) s := by
  intro other entry' d hother hd
  by_cases hne : other = actionId
  · subst hne
    rw [Function.update_self] at hother
    cases hother
    exact he d hd
  · rw [Function.update_of_ne hne] at hother
    exact ho other entry' d hother hd

theorem settled_getD {s : World ReplayAuthority}
    (ho : ∀ operations, record.operations = some operations → Settled h operations s) :
    Settled h (record.operations.getD (fun _ => none)) s := by
  cases hr : record.operations with
  | some operations => exact ho operations hr
  | none => exact fun _ _ _ he => by cases he

theorem triple_sessionSendOperation {action : CoordinateAction} {fields : Dict}
    {payload : Payload} (hp : coordinateArguments t.handle action fields record = .ok payload) :
    (sessionSpec t.handle tidy).Triple ()
      (fun s => Ongoing t.handle tidy ⟨action, fields⟩ began s ∧ Copied t.handle tidy (t, record) s)
      (sendOperation (ReplayAuthority.host finds) c t action fields record payload)
      (Truthful t.handle tidy (.coordinate action fields) began) := by
  have hlast : Lasting t.handle tidy (.coordinate ⟨action, fields⟩) payload (fun s =>
      Ongoing t.handle tidy ⟨action, fields⟩ began s ∧ Copied t.handle tidy (t, record) s) := by
    have ho : Lasting t.handle tidy (.coordinate ⟨action, fields⟩) payload
        (Ongoing t.handle tidy ⟨action, fields⟩ began) :=
      lasting_ongoing (fun ha => coordinateArguments_sync (by cases ha; exact hp))
    have hc : Lasting t.handle tidy (.coordinate ⟨action, fields⟩) payload
        (Copied t.handle tidy (t, record)) := (kept_copied (t, record)).lasting _ _
    exact ⟨fun s s' he hb => ⟨ho.edits s s' he hb.1, hc.edits s s' he hb.2⟩,
      fun s s' hi hs hb => ⟨ho.phase s s' hi hs hb.1, hc.phase s s' hi hs hb.2⟩⟩
  unfold sendOperation
  refine triple_bind (triple_sessionPhase hlast
    (fits_other (fun _ => by simp) (coordinateArguments_not_verify hp))
    (fun k hk => by cases hk)) (fun out => ?_)
  dsimp only
  split
  · exact triple_quiet rfl
  · rename_i hatt
    refine triple_pre (B := Completed t.handle tidy ⟨action, fields⟩ began record out.1) ?_
      (fun s _ hb => ⟨hb.1.1, fun ht => (hb.1.2.2 ht).2,
        fun _ => hb.2.1 (by simpa using hatt)⟩)
    refine triple_bind (M := fun _ => Completed t.handle tidy ⟨action, fields⟩ began record out.1)
      (triple_storeGet session_refl (stable_completed _) (fun _ => stable_completed _)
        (fun _ _ _ hb _ => hb)) (fun current => ?_)
    split
    · exact triple_raise
    · refine triple_bind (triple_sessionOperations rfl (fun key hk => by simp at hk) ?_)
        (fun _ => ?_)
      · intro s hb ht operations ho
        cases ho
        exact settled_update (settled_getD (hb.2.1 ht)) (fun d hd => by cases hd)
      · split
        · exact triple_raise
        · refine triple_bind (triple_sessionOperations
            (coordinateChanges_fields (h := t.handle) action record out.1 _).1
            (coordinateChanges_fields action record out.1 _).2.2 ?_)
            (fun _ => triple_sessionAnswer)
          intro s hb ht operations ho
          rw [(coordinateChanges_fields (h := t.handle) action record out.1 _).2.1] at ho
          cases ho
          refine settled_update (settled_update (settled_getD (hb.2.1 ht))
            (fun d hd => by cases hd)) (fun d hd => ?_)
          cases hd
          exact hb.2.2 ht

theorem triple_sessionReplay {action : CoordinateAction} {fields : Dict} {d : Dict} :
    (sessionSpec t.handle tidy).Triple ()
      (Completed t.handle tidy ⟨action, fields⟩ began record d)
      (replayOperation c t action record d)
      (Truthful t.handle tidy (.coordinate action fields) began) := by
  have hupdate : ∀ {changes : Record}, changes.phaseIntents = none → changes.operations = none →
      changes.handbackKey = none ∧ changes.reportKey = none ∧ changes.releaseKey = none →
      (sessionSpec t.handle tidy).Triple ()
        (Completed t.handle tidy ⟨action, fields⟩ began record d)
        (storeUpdate c t record.phase changes)
        (fun _ => Completed t.handle tidy ⟨action, fields⟩ began record d) := by
    intro changes hi ho hk
    refine triple_sessionOperations hi (fun key hkey => ?_) (fun _ _ _ operations he => ?_)
    · simp [hk.1, hk.2.1, hk.2.2] at hkey
    · cases ho.symm.trans he
  unfold replayOperation
  split
  · exact triple_bind (hupdate rfl rfl ⟨rfl, rfl, rfl⟩) (fun _ => triple_carried)
  · split
    · dsimp only
      split
      · exact triple_bind (hupdate rfl rfl ⟨rfl, rfl, rfl⟩) (fun _ => triple_carried)
      · exact triple_respondQuiet rfl
    · exact triple_carried

theorem triple_sessionExecute {action : CoordinateAction} {fields : Dict} :
    (sessionSpec t.handle tidy).Triple ()
      (fun s => s.native.executed = began ∧ Copied t.handle tidy (t, record) s)
      (executeCoordinateAction (ReplayAuthority.host finds) c t action fields record)
      (Truthful t.handle tidy (.coordinate action fields) began) := by
  have hongoing : ∀ s : World ReplayAuthority, s.native.executed = began →
      Ongoing t.handle tidy ⟨action, fields⟩ began s :=
    fun s he _ => ⟨fun _ => he, fun _ => Or.inl he⟩
  intro s hs hb
  unfold executeCoordinateAction
  cases hp : coordinateArguments t.handle action fields record with
  | error e => trivial
  | ok payload =>
    rw [Prog.ofExcept, Prog.done_bind]
    split
    · rename_i d hd
      refine triple_sessionReplay s hs ⟨hongoing s hb.1, fun ht => (hb.2.2 ht).2, fun ht => ?_⟩
      -- a completed operation of the copy is recorded
      obtain ⟨entry, he, hr⟩ := Option.bind_eq_some_iff.mp hd
      obtain ⟨operations, ho, hentry⟩ := Option.bind_eq_some_iff.mp he
      exact (hb.2.2 ht).2 operations ho ⟨action, fields⟩ entry d hentry hr
    · exact triple_sessionSendOperation hp s hs ⟨hongoing s hb.1, hb.2⟩

theorem triple_sessionFields {action : FinishAction} {fields : Dict}
    {B : World ReplayAuthority → Prop} :
    (sessionSpec h tidy).Triple () B
      (finishFromFields (ReplayAuthority.host finds) c h action fields) (Faithful h) := by
  refine triple_sessionAttention (fun _ => (kept_faithful _).stable)
    (fun _ s => faithful_of_silent rfl s) ?_
  refine triple_bind (M := fun _ _ => True)
    (triple_ofExcept (fun _ => stable_true) (fun _ _ _ _ _ => trivial)) (fun note => ?_)
  refine triple_bind (M := fun _ _ => True)
    (triple_ofExcept (fun _ => stable_true) (fun _ _ _ _ _ => trivial)) (fun reason => ?_)
  exact triple_sessionAuthoring

theorem triple_sessionBind {fields : Dict} {B : World ReplayAuthority → Prop} {call : SessionCall}
    (hB : (sessionSpec h tidy).Stable () B) :
    (sessionSpec h tidy).Triple () B
      (bindRequiredGates c h fields record : Host ReplayAuthority Response)
      (Truthful h tidy call began) := by
  refine triple_bind (triple_ofExcept (fun _ => hB) (fun _ _ _ _ hb => hb)) (fun requested => ?_)
  dsimp only
  split
  · exact triple_respondQuiet rfl
  · exact triple_respondQuiet rfl

/-- `coordinate_task` on the record that was read, whichever action is asked for. -/
theorem triple_sessionAction {action : CoordinateAction} {fields : Dict} :
    (sessionSpec t.handle tidy).Triple ()
      (fun s => s.native.executed = began ∧ Copied t.handle tidy (t, record) s)
      (coordinateRecorded (ReplayAuthority.host finds) c t action fields record)
      (Truthful t.handle tidy (.coordinate action fields) began) := by
  have hstable : (sessionSpec t.handle tidy).Stable ()
      (fun s => s.native.executed = began ∧ Copied t.handle tidy (t, record) s) := by
    refine Stable.and (stable_edits ?_) (kept_copied _).stable
    rintro s s' ⟨present, revision, rfl⟩ hb
    exact hb
  have hpost : ∀ {B : World ReplayAuthority → Prop} {p : Host ReplayAuthority Response},
      (sessionSpec t.handle tidy).Triple () (fun _ => True) p (Faithful t.handle) →
      (sessionSpec t.handle tidy).Triple () B p
        (Truthful t.handle tidy (.coordinate action fields) began) :=
    fun hp => triple_post (triple_pre hp (fun _ _ _ => trivial)) (fun _ _ hf => hf.truthful)
  have hexec : (sessionSpec t.handle tidy).Triple ()
      (fun s => s.native.executed = began ∧ Copied t.handle tidy (t, record) s) (do
        Prog.ofExcept (checkCoordinate action record)
        executeCoordinateAction (ReplayAuthority.host finds) c t action fields record)
      (Truthful t.handle tidy (.coordinate action fields) began) :=
    triple_bind (triple_ofExcept (fun _ => hstable) (fun _ _ _ _ hb => hb))
      (fun _ => triple_sessionExecute)
  cases action with
  | bindRequiredGates => exact triple_sessionBind hstable
  | requestIntegration => exact triple_quiet rfl
  | runGates =>
    simp only [coordinateRecorded]
    split
    · exact hpost triple_sessionGates
    · exact triple_bind (triple_ofExcept (fun _ => hstable) (fun _ _ _ _ hb => hb))
        (fun _ => hpost triple_sessionGates)
  | verify =>
    exact triple_bind (triple_ofExcept (fun _ => hstable) (fun _ _ _ _ hb => hb))
      (fun _ => hpost triple_sessionGates)
  | heartbeat | resume =>
    simp only [coordinateRecorded]
    split
    · exact triple_raise
    · refine triple_bind (triple_pre triple_sessionResume (fun _ _ _ => trivial)) (fun out => ?_)
      split
      · rename_i response
        intro s hs hb
        exact triple_quiet (B := fun _ => True) (hb response rfl) s hs trivial
      · exact triple_respondQuiet rfl
  | releaseAttempt => exact hpost triple_sessionFields
  | reportOutcome =>
    exact triple_bind (triple_ofExcept (fun _ => hstable) (fun _ _ _ _ hb => hb))
      (fun _ => hpost triple_sessionFields)
  | sync | fork | message | answer | arrive | arriveRendezvous | publishInterface
  | publishContext | integrate | acceptChild | rejectChild | resolveDecision
  | acceptCheckpoint | releaseBarrier | openBlocker | clearBlocker | publishFinding
  | invalidateFinding | startChild | submitChildCandidate | reviewChildCandidate
  | cancelChild | reconcileChild | recover | acceptOutcome | rejectOutcome | reserveResource
  | reconcileResource | retryResource | releaseResource => exact hexec

theorem stable_began : (sessionSpec h tidy).Stable () (fun s => s.native.executed = began) := by
  apply stable_edits
  rintro s s' ⟨present, revision, rfl⟩ hb
  exact hb

theorem triple_sessionCoordinate {action : CoordinateAction} {fields : Dict} :
    (sessionSpec h tidy).Triple () (fun s => s.native.executed = began)
      (coordinateTask (ReplayAuthority.host finds) c h action fields)
      (Truthful h tidy (.coordinate action fields) began) := by
  refine triple_sessionAttention (fun _ => stable_truthful _ _)
    (fun _ s => (faithful_of_silent rfl s).truthful) ?_
  split
  · exact triple_raise
  · refine triple_bind (triple_sessionResolve stable_began) (fun out => ?_)
    rintro s hs ⟨hb, hcopy⟩
    obtain ⟨t, record⟩ := out
    obtain rfl : t.handle = h := hcopy.1
    exact triple_sessionAction s hs ⟨hb, hcopy⟩

theorem triple_sessionTask {action : FinishAction} {disposition note reason : Option String} :
    (sessionSpec h tidy).Triple () (fun _ => True)
      (finishTask (ReplayAuthority.host finds) c h action disposition note reason)
      (fun response s => ∀ requirement d, response.reports requirement d →
        Recorded h (.verify requirement) d s) := by
  have hreports : ∀ response : Response, (sessionSpec h tidy).Stable () (fun s => ∀ requirement d,
      response.reports requirement d → Recorded h (.verify requirement) d s) := by
    intro response
    apply stable_edits
    rintro s s' ⟨present, revision, rfl⟩ hb
    exact hb
  unfold finishTask
  split
  · refine triple_sessionAttention hreports (fun _ _ _ _ hd => by cases hd)
      (triple_bind triple_checkTexts (fun _ => ?_))
    refine triple_bind (triple_sessionResolve stable_true) (fun out => ?_)
    dsimp only
    split
    · exact triple_raise
    · refine triple_bind (M := fun response s => ∀ requirement d,
        response.reports requirement d → Recorded h (.verify requirement) d s) ?_
        (fun response => ?_)
      · intro s hs _
        exact (triple_sessionCoordinate s hs rfl).mono
          (fun _ _ hb => hb.1)
      · split
        · exact triple_respond (hreports _) (fun _ _ _ _ hd => by cases hd)
        · exact triple_done (hreports _) (fun _ _ hb => hb)
  · exact triple_post triple_sessionAuthoring (fun _ _ hb => hb.1)

end Coordinate

section Session

variable (finds : ℕ → Payload → Input → CommitResult) (c : Codec) (h : Handle)

/-- The reply to a call reaches the client. -/
def tell (call : SessionCall) (began : List Execution) (response : Response) :
    Host ReplayAuthority Unit :=
  .atomic .read (fun s _ => ({ s with native := { s.native with
    log := ⟨call, response, began, s.native.executed⟩ :: s.native.log } }, .ok ()))

def SessionCall.program (call : SessionCall) : Host ReplayAuthority Unit := do
  let began ← Prog.atomic .read (fun s _ => (s, .ok s.native.executed))
  match call with
  | .coordinate action fields => do
    let response ← coordinateTask (ReplayAuthority.host finds) c h action fields
    tell call began response
  | .finish action disposition note reason => do
    let response ← finishTask (ReplayAuthority.host finds) c h action disposition note reason
    tell call began response
  | .renew project repository =>
    renewalPass (ReplayAuthority.host finds) c ⟨h, project, repository⟩

/-- What changes around the calls. -/
inductive Change where
  | edit (present : ℕ)
  | revise (revision : ℕ)

def change (s : World ReplayAuthority) : Change → World ReplayAuthority
  | .edit present => { s with native := { s.native with present := present } }
  | .revise revision => { s with native := { s.native with revision := revision } }

/-- The calls of one client for a handle, one after the other. -/
def sessionSystem : System Unit (World ReplayAuthority) Input Label Err Unit SessionCall Change where
  program := fun _ call => call.program finds c h
  crash := fun _ s => s
  env := fun s e => some (change s e)

variable {finds c h} {tidy : Prop}

theorem triple_tell {call : SessionCall} {began : List Execution} (response : Response) :
    (sessionSpec h tidy).Triple () (Truthful h tidy call began response)
      (tell call began response) (fun _ _ => True) := by
  refine triple_atomic (stable_truthful _ _) (fun _ => stable_true) (fun s _ hs hb _ => ?_)
  obtain ⟨hinv, hguar⟩ := session_step hs
    (.told (e := ⟨call, response, began, s.native.executed⟩) hb.1 hb.2)
  exact ⟨hinv, hguar, fun _ _ => trivial⟩

theorem triple_sessionProgram (call : SessionCall) :
    (sessionSpec h tidy).Triple () (fun _ => True) (call.program finds c h)
      (fun _ _ => True) := by
  refine triple_bind (M := fun began s => s.native.executed = began)
    (triple_read session_refl stable_true (fun _ => stable_began)
      (fun s _ began _ _ he => Except.ok.inj he)) (fun began => ?_)
  cases call with
  | coordinate action fields => exact triple_bind triple_sessionCoordinate triple_tell
  | finish action disposition note reason =>
    refine triple_bind (triple_pre triple_sessionTask (fun _ _ _ => trivial)) (fun response => ?_)
    refine triple_pre (triple_tell response) (fun s _ hb => ⟨hb, fun _ actionId d hc => ?_⟩)
    cases hc.1
  | renew project repository =>
    exact triple_pre (triple_sessionRenew (t := ⟨h, project, repository⟩)) (fun _ _ _ => trivial)

theorem sessionSystem_sound : (sessionSpec h tidy).Sound (sessionSystem finds c h) where
  crash := fun _ s hs => ⟨hs, session_refl s⟩
  env := by
    intro s e s' hs he
    cases he
    cases e with
    | edit present =>
      have hedit : Edits s (change s (.edit present)) := ⟨present, s.native.revision, rfl⟩
      exact ⟨edits_inv hs hedit, hedit⟩
    | revise revision =>
      have hedit : Edits s (change s (.revise revision)) := ⟨s.native.present, revision, rfl⟩
      exact ⟨edits_inv hs hedit, hedit⟩
  program := fun _ call => triple_sessionProgram call

end Session

end ProjectControl.Compact
