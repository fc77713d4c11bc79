import ProjectControl.NativeWorkflow
import ProjectControl.CompactProgress
import ProjectControl.CompactRenewal

/-! `next_task` on a scope that waits for its workspace, over the native host: when
a quiescent authority lets it go on, and when it asks for the same workspace with
the same revision for ever. -/

set_option autoImplicit false

namespace ProjectControl.Compact

open Resumption Resumption.Spec Resumption.Prog

/-- The request that is sent while a record waits for its workspace: that of the
stored intent, or else the one that was chosen with the work. -/
def pendingRequest (d : Record) : Option (Payload × Key × ℕ) :=
  match d.taskId, d.planRevisionId, d.workspaceId with
  | some taskId, some planRevisionId, some workspaceId =>
    let payload := workspacePayload d taskId planRevisionId workspaceId
    match d.intent .createWorkspace, d.createWorkspaceKey, d.authorityRevision with
    | some i, _, _ => some (payload, i.idempotencyKey, i.expectedRevision)
    | none, some key, some revision => some (payload, key, revision)
    | none, _, _ => none
  | _, _, _ => none

/-- The scope's current record waits for its workspace with this request. -/
structure AwaitsWorkspace {A : Type} (t : Target) (payload : Payload) (key : Key) (revision : ℕ)
    (d : Record) (s : World A) : Prop where
  holds : s.Holds t d
  current : s.journal.pointers t.project t.repository = [t.handle]
  phase : d.phase = some .workspacePending
  request : pendingRequest d = some (payload, key, revision)
  agrees : Agrees d .createWorkspace payload

/-- The authority would accept the request as it is. -/
def Acceptable (a : Authority) (payload : Payload) (key : Key) (revision : ℕ) : Prop :=
  revision = a.revision ∨ (a.known key payload).isSome = true

/-- The record of a handle is in the phase `workspace_pending`. -/
def StillPending {A : Type} (h : Handle) (s : World A) : Prop :=
  ∃ p q d, s.journal.record h = some (p, q, d) ∧ d.phase = some .workspacePending

/-- `n` calls of `next_task`, one after the other. -/
def nextTasks {A : Type} (N : NativeHost A) (c : Codec) (mutator : Bool)
    (project repository : String) (requested : Request) : ℕ → Host A Unit
  | 0 => .done ()
  | n + 1 => do
    let _ ← nextTask N c mutator project repository requested
    nextTasks N c mutator project repository requested n

theorem ready_nextTasks {A : Type} {N : NativeHost A} {c : Codec} {mutator : Bool}
    {project repository : String} {requested : Request} (n : ℕ) :
    (nextTasks N c mutator project repository requested n).Ready := by
  induction n with
  | zero => trivial
  | succ n ih => exact ready_bind ready_nextTask (fun _ => ih)

/-- Some number of calls, with nobody else at work, always takes the record out of
the phase. -/
def LeavesPending {A : Type} (N : NativeHost A) (c : Codec) (mutator : Bool) (t : Target)
    (requested : Request) (s : World A) : Prop :=
  ∃ n, (∃ vs out s', (nextTasks N c mutator t.project t.repository requested n).eval s vs =
      some (out, s')) ∧
    ∀ vs out s', (nextTasks N c mutator t.project t.repository requested n).eval s vs =
      some (out, s') → ¬ StillPending t.handle s'

section Waiting

variable {A : Type} {N : NativeHost A} {c : Codec} {t : Target} {payload : Payload} {key : Key}
variable {revision : ℕ} {d : Record} {s : World A} {mutator : Bool} {requested : Request}

/-- The fields of a record that waits for its workspace. -/
theorem pendingRequest_some (h : pendingRequest d = some (payload, key, revision)) :
    ∃ taskId planRevisionId workspaceId, d.taskId = some taskId ∧
      d.planRevisionId = some planRevisionId ∧ d.workspaceId = some workspaceId ∧
      payload = workspacePayload d taskId planRevisionId workspaceId ∧
      ((∃ i, d.intent .createWorkspace = some i ∧ key = i.idempotencyKey ∧
          revision = i.expectedRevision) ∨
        (d.intent .createWorkspace = none ∧ d.createWorkspaceKey = some key ∧
          d.authorityRevision = some revision)) := by
  unfold pendingRequest at h
  split at h
  · rename_i taskId planRevisionId workspaceId h1 h2 h3
    dsimp only at h
    split at h
    · rename_i i hi
      cases h
      exact ⟨taskId, planRevisionId, workspaceId, h1, h2, h3, rfl, Or.inl ⟨i, hi, rfl, rfl⟩⟩
    · rename_i hi hk hr
      cases h
      exact ⟨taskId, planRevisionId, workspaceId, h1, h2, h3, rfl, Or.inr ⟨hi, hk, hr⟩⟩
    · cases h
  · cases h

theorem AwaitsWorkspace.tool (hs : AwaitsWorkspace t payload key revision d s) :
    payload.tool = .createWorkspace := by
  obtain ⟨taskId, planRevisionId, workspaceId, -, -, -, rfl, -⟩ := pendingRequest_some hs.request
  rfl

/-- The first call stores the request that was chosen with the work. -/
theorem AwaitsWorkspace.persisted (hs : AwaitsWorkspace t payload key revision d s)
    (issued : List (Handle × PhaseName × Intent)) :
    AwaitsWorkspace t payload key revision
      (d.setIntent .createWorkspace ⟨payload, key, revision, 0⟩)
      { s.put t.handle (d.setIntent .createWorkspace ⟨payload, key, revision, 0⟩) with
        issued := issued } := by
  obtain ⟨taskId, planRevisionId, workspaceId, h1, h2, h3, hp, -⟩ :=
    pendingRequest_some hs.request
  refine ⟨World.record_put hs.holds _, ?_, hs.phase, ?_, ?_⟩
  · exact (Journal.pointers_setData _ _ _ _ _).trans hs.current
  · have hi := Record.setIntent_intent_self d .createWorkspace ⟨payload, key, revision, 0⟩
    simp only [pendingRequest, hi]
    simp only [Record.setIntent, h1, h2, h3, hp]
    rfl
  · intro i hi
    rw [Record.setIntent_intent_self] at hi
    cases hi
    rfl

/-- Where a call that has not sent its request yet leaves the journal. -/
def Waits (t : Target) (payload : Payload) (key : Key) (revision : ℕ) (s s' : World A) : Prop :=
  (∃ d, AwaitsWorkspace t payload key revision d s') ∧ s'.native = s.native ∧
    s'.journal.length = s.journal.length

/-- A call can only stop early at a size limit. -/
def Stops (c : Codec) (t : Target) (payload : Payload) (key : Key) (revision : ℕ)
    (s s' : World A) : Prop :=
  Waits t payload key revision s s' ∧ ¬ (c.Roomy ∧ s.journal.length ≤ maxRecords)

theorem waits_self (hs : AwaitsWorkspace t payload key revision d s) :
    Waits t payload key revision s s := ⟨⟨d, hs⟩, rfl, rfl⟩

/-- The request that the journal has for the workspace is found or stored. -/
theorem ends_workspaceIntent {r : Record} (hs : AwaitsWorkspace t payload key revision d s) :
    (phaseIntent N c t r .createWorkspace payload d.authorityRevision d.createWorkspaceKey).Ends
      (fun out s' => out.1 = (key, revision) ∧ ∃ d', out.2 = r.merge d' ∧
        AwaitsWorkspace t payload key revision d' s' ∧ s'.native = s.native ∧
        s'.journal.length = s.journal.length)
      (fun _ s' => Stops c t payload key revision s s') s := by
  obtain ⟨taskId, planRevisionId, workspaceId, -, -, -, -, hreq⟩ :=
    pendingRequest_some hs.request
  unfold phaseIntent
  split
  · rename_i hbytes
    exact ⟨waits_self hs, fun h => absurd (h.1.payload payload) (Nat.not_le.mpr hbytes)⟩
  · have hget : ∀ e, Store.get c s.journal t.handle t.project t.repository = .error e →
        Stops c t payload key revision s s := by
      intro e he
      refine ⟨waits_self hs, fun h => ?_⟩
      rw [Store.get_of_roomy h.1 h.2 hs.holds] at he
      cases he
    refine ends_bind (ends_storeGet hs.holds hget) ?_
    rintro latest s' ⟨rfl, rfl⟩
    rcases hreq with ⟨i, hi, rfl, rfl⟩ | ⟨hi, hkey, hrev⟩
    · rw [hi]
      dsimp only
      rw [storedRequest, if_neg (not_not.mpr (hs.agrees i hi))]
      exact ⟨rfl, latest, rfl, hs, rfl, rfl⟩
    · rw [hi, hrev, hkey]
      refine ends_bind (M := fun n s₁ => n = revision ∧ s₁ = s') ⟨rfl, rfl⟩ ?_
      rintro n s₁ ⟨rfl, rfl⟩
      have hfn : ∀ k, persistIntent .createWorkspace k latest =
          .ok (some (latest.setIntent .createWorkspace k)) := by
        intro k
        simp only [persistIntent, hi]
      refine ends_bind (M := fun current s₂ =>
        current = latest.setIntent .createWorkspace ⟨payload, key, n, 0⟩ ∧
        AwaitsWorkspace t payload key n current s₂ ∧ s₂.native = s₁.native ∧
        s₂.journal.length = s₁.journal.length) (ends_storeIntent hs.holds ?_ ?_ ?_) ?_
      · intro hf
        rw [hfn] at hf
        cases hf
      · intro data issued hf
        rw [hfn] at hf
        cases hf
        exact ⟨rfl, hs.persisted issued, rfl, List.length_map _⟩
      · intro e he
        refine ⟨waits_self hs, fun h => ?_⟩
        rw [Store.atomicUpdate_of_roomy h.1 h.2 hs.holds (hfn _)] at he
        cases he
      · rintro current s₂ ⟨rfl, hw, hn, hl⟩
        rw [Record.setIntent_intent_self]
        dsimp only
        rw [storedRequest, if_neg (not_not.mpr rfl)]
        exact ⟨rfl, _, rfl, hw, hn, hl⟩

theorem AwaitsWorkspace.active (hs : AwaitsWorkspace t payload key revision d s) :
    d.phase.any Phase.isActive = true := by
  rw [hs.phase]
  rfl

theorem AwaitsWorkspace.of_journal {s' : World A} (hs : AwaitsWorkspace t payload key revision d s)
    (hj : s'.journal = s.journal) : AwaitsWorkspace t payload key revision d s' := by
  refine ⟨?_, ?_, hs.phase, hs.request, hs.agrees⟩
  · rw [World.Holds, hj]
    exact hs.holds
  · rw [hj]
    exact hs.current

theorem AwaitsWorkspace.pending (hs : AwaitsWorkspace t payload key revision d s) :
    StillPending t.handle s := ⟨_, _, d, hs.holds, hs.phase⟩

/-- No review is offered while the scope has a current record. -/
theorem ends_pendingReview (hs : AwaitsWorkspace t payload key revision d s) :
    (pendingReview c mutator t.project t.repository requested : Host A _).Ends
      (fun out s' => out = none ∧ s' = s)
      (fun _ s' => s' = s ∧ ¬ (c.Roomy ∧ s.journal.length ≤ maxRecords ∧
        Store.checkRequest d requested = .ok ())) s := by
  have hrows := Journal.record_eq_some.mp hs.holds
  unfold pendingReview
  split
  · refine ends_bind (M := fun out s' => out ≠ none ∧ s' = s) (ends_atomic ?_ ?_) ?_
    · intro v out hout
      refine ⟨?_, rfl⟩
      rintro rfl
      obtain ⟨-, -, hout⟩ := Store.bind_eq_ok.mp hout
      obtain ⟨j, hj, hout⟩ := Store.bind_eq_ok.mp hout
      rw [Store.read_ok hj, hs.current] at hout
      simp only [hrows, hs.active, if_true] at hout
      obtain ⟨-, -, hout⟩ := Store.bind_eq_ok.mp hout
      cases hout
    · rintro v e he
      refine ⟨rfl, ?_⟩
      rintro ⟨hc, hl, hreq⟩
      have hb : Store.checkRequestBytes c requested = .ok () :=
        if_neg (Nat.not_lt.mpr (hc.request requested))
      simp [Store.findCurrentWorkflow, hb, Store.read_of_length hl, hs.current, hrows, hs.active,
        hreq, Bind.bind, Except.bind] at he
    · rintro out s' ⟨hne, rfl⟩
      cases out with
      | none => exact absurd rfl hne
      | some row => exact ⟨rfl, rfl⟩
  · exact ⟨rfl, rfl⟩

/-- The reservation resumes the current record. -/
theorem ends_reserveWorkflow (hs : AwaitsWorkspace t payload key revision d s) :
    (reserveWorkflow c t.project t.repository requested : Host A _).Ends
      (fun out s' => out = (t.handle, d, false) ∧ s' = s)
      (fun _ s' => s' = s ∧ ¬ (c.Roomy ∧ s.journal.length ≤ maxRecords ∧
        Store.checkRequest d requested = .ok ())) s := by
  have hrows := Journal.record_eq_some.mp hs.holds
  apply ends_await
  · rintro v ⟨handle, data, isNew⟩ - hout
    cases hr : Store.reserveWorkflow c s.journal t.project t.repository requested v.token with
    | error e => simp [onJournal, hr] at hout
    | ok result =>
      obtain ⟨out, j⟩ := result
      simp only [onJournal, hr] at hout ⊢
      cases hout
      rcases Store.reserveWorkflow_ok hr with ⟨rfl, rfl, hcur⟩ | ⟨-, -, -, -, hcur⟩
      · obtain ⟨hp, hd, -⟩ := Store.currentRecord_some hcur
        rw [hs.current] at hp
        cases hp
        cases holds_unique (t := t) hs.holds hd
        exact ⟨rfl, rfl⟩
      · -- a new record is only made when the current one is no longer active
        rcases Store.currentRecord_none hcur with hp | ⟨g, hp, hinactive⟩
        · rw [hs.current] at hp
          cases hp
        · rw [hs.current] at hp
          cases hp
          have hactive := hs.active
          rw [hinactive d hs.holds] at hactive
          cases hactive
  · intro v e _ he
    cases hr : Store.reserveWorkflow c s.journal t.project t.repository requested v.token with
    | ok result => simp [onJournal, hr] at he
    | error e' =>
      simp only [onJournal, hr] at he ⊢
      refine ⟨trivial, ?_⟩
      rintro ⟨hc, hl, hreq⟩
      have hb : Store.checkRequestBytes c requested = .ok () :=
        if_neg (Nat.not_lt.mpr (hc.request requested))
      simp [Store.reserveWorkflow, hb, Store.read_of_length hl, Store.currentRecord, hs.current,
        hrows, hs.active, hreq, Bind.bind, Except.bind] at hr

/-- The stages of `next_task` on a record that waits for its workspace. -/
theorem advanceTask_pending {r : Record} {isNew : Bool} (hp : r.phase = some .workspacePending) :
    advanceTask N c t requested isNew r = andStage (createWorkspace N c t r) fun record =>
      andStage (whenPhase .dispatchPending (dispatchAttempt N c t) record) fun record =>
      andStage (whenPhase .contextPending (buildContext N c t) record) fun record =>
      answerTask N c t isNew record := by
  have h1 : ¬ (r.phase = some .active ∧ r.context.isSome) := by simp [hp]
  have h2 : r.phase ≠ some .noWork := by simp [hp]
  have h3 : r.phase ≠ some .selecting := by simp [hp]
  rw [advanceTask, if_neg h1, if_neg h2, whenPhase, if_neg h3]
  change andStage (whenPhase .workspacePending (createWorkspace N c t) r) _ = _
  rw [whenPhase, if_pos hp]

/-- A call of `next_task` by what its `create_workspace` stage and the rest do. -/
theorem ends_nextTask {Q : World A → Prop} (hs : AwaitsWorkspace t payload key revision d s)
    (hstage : (andStage (createWorkspace N c t (t.scoped d)) fun record =>
      andStage (whenPhase .dispatchPending (dispatchAttempt N c t) record) fun record =>
      andStage (whenPhase .contextPending (buildContext N c t) record) fun record =>
      answerTask N c t false record).Ends (fun _ => Q) (fun _ => Q) s)
    (hstop : ¬ (c.Roomy ∧ s.journal.length ≤ maxRecords ∧
      Store.checkRequest d requested = .ok ()) → Q s) :
    (nextTask N c mutator t.project t.repository requested).Ends (fun _ => Q)
      (fun _ _ => False) s := by
  refine ends_tryCatch (F := fun _ => Q) ?_ ?_
  · refine ends_bind ((ends_pendingReview hs).mono (fun _ _ h => h) ?_) ?_
    · rintro e s' ⟨rfl, h⟩
      exact hstop h
    · rintro out s' ⟨rfl, rfl⟩
      refine ends_bind ((ends_reserveWorkflow hs).mono (fun _ _ h => h) ?_) ?_
      · rintro e s' ⟨rfl, h⟩
        exact hstop h
      · rintro out s₁ ⟨rfl, rfl⟩
        change (advanceTask N c t requested false (t.scoped d)).Ends _ _ _
        rw [advanceTask_pending (r := t.scoped d) hs.phase]
        exact hstage
  · intro e s' h
    cases e with
    | workflow code => exact h
    | other => exact h

end Waiting

section Refused

variable {c : Codec} {t : Target} {payload : Payload} {key : Key} {revision : ℕ} {d : Record}
variable {s : World Authority} {mutator : Bool} {requested : Request}

/-- The authority knows nothing of the request and has another revision. -/
theorem not_acceptable {a : Authority} (h : ¬ Acceptable a payload key revision) :
    a.known key payload = none ∧ revision ≠ a.revision := by
  refine ⟨?_, fun hr => h (Or.inl hr)⟩
  by_contra hk
  exact h (Or.inr (Option.isSome_iff_ne_none.mpr hk))

/-- The refusal is not read as a stale revision, so nothing is refreshed. -/
theorem ends_refused (hs : AwaitsWorkspace t payload key revision d s)
    (hn : ¬ Acceptable s.native payload key revision) :
    (invokePhase authorityHost c t (t.scoped d) .createWorkspace payload d.authorityRevision
      d.createWorkspaceKey).Ends
      (fun out s' => isAttention out.1 = true ∧ Waits t payload key revision s s')
      (fun _ s' => Waits t payload key revision s s') s := by
  unfold invokePhase
  refine ends_bind ((ends_workspaceIntent hs).mono (fun _ _ h => h) (fun _ _ h => h.1)) ?_
  rintro ⟨request, r⟩ s₁ ⟨rfl, d₁, -, hs₁, hn₁, hl₁⟩
  have hw₁ : Waits t payload key revision s s₁ := ⟨⟨d₁, hs₁⟩, hn₁, hl₁⟩
  have hsend : (invokeMutation authorityHost r payload key revision).Ends
      (fun out s' => out = [("reason", .str "native_operation_rejected"),
        ("status", .str "attention_required")] ∧ Waits t payload key revision s s')
      (fun _ s' => Waits t payload key revision s s') s₁ := by
    unfold invokeMutation withScope
    split
    · obtain ⟨hk, hr⟩ := not_acceptable hn
      rw [← hn₁] at hk hr
      have hserve := fun project repository v => authorityHost_refuses project repository v hk hr
        (by rw [hs₁.tool]; rfl)
      apply ends_atomic
      · intro v out hout
        rw [hserve] at hout ⊢
        cases hout
        exact ⟨rfl, ⟨d₁, hs₁.of_journal rfl⟩, hn₁, hl₁⟩
      · intro v e he
        rw [hserve] at he
        cases he
    · exact hw₁
  refine ends_bind hsend ?_
  rintro result s₂ ⟨rfl, hw₂⟩
  have hstale : isStale [("reason", .str "native_operation_rejected"),
      ("status", .str "attention_required")] = false := by decide
  have hatt : isAttention [("reason", .str "native_operation_rejected"),
      ("status", .str "attention_required")] = true := by decide
  rw [hstale]
  exact ⟨hatt, hw₂⟩

theorem ends_createWorkspace_refused (hs : AwaitsWorkspace t payload key revision d s)
    (hn : ¬ Acceptable s.native payload key revision) :
    (createWorkspace authorityHost c t (t.scoped d)).Ends
      (fun out s' => (∃ response, out = .inl response) ∧ Waits t payload key revision s s')
      (fun _ s' => Waits t payload key revision s s') s := by
  obtain ⟨taskId, planRevisionId, workspaceId, h1, h2, h3, rfl, -⟩ :=
    pendingRequest_some hs.request
  unfold createWorkspace
  rw [need_bind (x := (t.scoped d).taskId) h1, need_bind (x := (t.scoped d).planRevisionId) h2,
    need_bind (x := (t.scoped d).workspaceId) h3]
  refine ends_bind (ends_refused hs hn) ?_
  rintro ⟨result, r⟩ s₁ ⟨hatt, hw⟩
  dsimp only at hatt ⊢
  rw [hatt]
  exact ⟨⟨_, rfl⟩, hw⟩

theorem ends_nextTask_refused (hs : AwaitsWorkspace t payload key revision d s)
    (hn : ¬ Acceptable s.native payload key revision) :
    (nextTask authorityHost c mutator t.project t.repository requested).Ends
      (fun _ s' => Waits t payload key revision s s') (fun _ _ => False) s := by
  refine ends_nextTask hs ?_ (fun _ => waits_self hs)
  refine ends_bind (ends_createWorkspace_refused hs hn) ?_
  rintro out s' ⟨⟨response, rfl⟩, hw⟩
  exact hw

/-- Call after call, the same request is refused. -/
theorem ends_nextTasks_refused (n : ℕ) (hs : AwaitsWorkspace t payload key revision d s)
    (hn : ¬ Acceptable s.native payload key revision) :
    (nextTasks authorityHost c mutator t.project t.repository requested n).Ends
      (fun _ s' => Waits t payload key revision s s') (fun _ _ => False) s := by
  induction n generalizing s d with
  | zero => exact waits_self hs
  | succ n ih =>
    refine ends_bind (ends_nextTask_refused hs hn) ?_
    rintro response s₁ ⟨⟨d₁, hs₁⟩, hn₁, hl₁⟩
    refine (ih hs₁ (by rw [hn₁]; exact hn)).mono ?_ (fun _ _ h => h)
    rintro _ s₂ ⟨hs₂, hn₂, hl₂⟩
    exact ⟨hs₂, hn₂.trans hn₁, hl₂.trans hl₁⟩

theorem not_leavesPending (hs : AwaitsWorkspace t payload key revision d s)
    (hn : ¬ Acceptable s.native payload key revision) :
    ¬ LeavesPending authorityHost c mutator t requested s := by
  rintro ⟨n, ⟨vs, out, s', heval⟩, hleaves⟩
  have hends : (nextTasks authorityHost c mutator t.project t.repository requested n).Ends
      (fun _ s' => Waits t payload key revision s s') (fun _ _ => False) s :=
    ends_nextTasks_refused n hs hn
  cases out with
  | ok a =>
    obtain ⟨⟨d', hs'⟩, -⟩ := (hends.eval heval).1 a rfl
    exact hleaves vs _ s' heval hs'.pending
  | error e => exact (hends.eval heval).2 e rfl

end Refused

/-- The phases before a record has a workspace. -/
def Phase.beforeWorkspace : Phase → Bool
  | .selecting | .workspacePending => true
  | _ => false

section Past

variable {A : Type} (h : Handle)

/-- The record of a handle is past the phase `workspace_pending`. -/
def PastPending (s : World A) : Prop :=
  ∃ p q d, s.journal.record h = some (p, q, d) ∧ d.phase.any Phase.beforeWorkspace = false

def pastPendingSpec : Spec ℕ (World A) Label where
  inv := PastPending h
  cond := fun _ _ => True
  guar := fun _ _ _ => True
  env := fun _ _ => False

def pastPendingKnowledge : Knowledge A where
  copy := fun _ _ _ => True
  merged := fun _ _ _ _ => True
  request := fun _ _ _ _ _ => True
  answer := fun _ _ _ => True

variable {h} {s s' : World A} {t : Target} {old : Record}

theorem pastPending_of_record (hs : PastPending h s) (hr : s'.journal.record h = s.journal.record h) :
    PastPending h s' := by
  obtain ⟨p, q, d, hd, hp⟩ := hs
  exact ⟨p, q, d, hr.trans hd, hp⟩

theorem pastPending_put (new : Record) (hs : PastPending h s) (ho : s.Holds t old)
    (hnew : t.handle = h → old.phase.any Phase.beforeWorkspace = false →
      new.phase.any Phase.beforeWorkspace = false) : PastPending h (s.put t.handle new) := by
  by_cases ht : t.handle = h
  · subst ht
    obtain ⟨p, q, d, hd, hp⟩ := hs
    cases Option.some.inj (ho.symm.trans hd)
    exact ⟨_, _, new, World.record_put ho new, hnew rfl hp⟩
  · exact pastPending_of_record hs (World.record_put_of_ne new (Ne.symm ht))

theorem beforeWorkspace_merge {changes : Record}
    (hc : changes.phase.any Phase.beforeWorkspace = false)
    (ho : old.phase.any Phase.beforeWorkspace = false) :
    (old.merge changes).phase.any Phase.beforeWorkspace = false := by
  rw [Record.merge_phase]
  cases hp : changes.phase with
  | none => exact ho
  | some p => rwa [hp] at hc

theorem beforeWorkspace_of_prepares {p : Option Phase} (hp : p.any Phase.prepares = false) :
    p.any Phase.beforeWorkspace = false := by
  cases p with
  | none => rfl
  | some p => cases p <;> first | rfl | cases hp

theorem pastPending_append {j : Journal} {token : Handle} (hs : PastPending h s)
    (hf : s.journal.rows token = []) (hj : ∀ g ≠ token, j.record g = s.journal.record g) :
    PastPending h { s with journal := j } := by
  refine pastPending_of_record hs (hj h ?_)
  rintro rfl
  obtain ⟨p, q, d, hd, -⟩ := hs
  rw [Journal.record_eq_some, hf] at hd
  cases hd

theorem pastPendingRules (i : ℕ) (N : NativeHost A) (c : Codec) :
    HostRules (pastPendingSpec (A := A) h) i N c pastPendingKnowledge (fun _ => True) (fun _ => True) where
  refl := fun _ => trivial
  copy_stable := fun _ _ => stable_true
  merged_stable := fun _ _ _ => stable_true
  request_stable := fun _ _ _ _ => stable_true
  answer_stable := fun _ _ => stable_true
  learn := fun _ _ _ => trivial
  relearn := fun _ _ _ => trivial
  scope := fun _ => trivial
  merge := fun _ _ _ => trivial
  fresh := fun _ _ _ _ _ => trivial
  known := fun _ _ _ _ => trivial
  merged_copy := fun _ => trivial
  read := fun _ _ hs _ => ⟨pastPending_of_record hs rfl, trivial, fun _ _ _ => trivial⟩
  persist := fun _ _ hs _ _ _ ho _ =>
    ⟨pastPending_put (s := _) _ hs ho (fun _ hp => hp), trivial, fun _ _ => trivial⟩
  refresh := fun _ _ hs _ _ ho _ _ _ =>
    ⟨pastPending_put (s := _) _ hs ho (fun _ hp => hp), trivial, fun _ _ => trivial⟩
  send := fun _ _ hs _ _ _ => ⟨pastPending_of_record hs rfl, trivial, fun _ _ => trivial,
    fun _ _ _ => trivial, fun _ _ => trivial⟩
  update := fun _ hw hs _ _ _ ho => ⟨pastPending_put _ hs ho (fun _ hp => beforeWorkspace_merge
    (beforeWorkspace_of_prepares hw.plain.1.phase) hp), trivial, trivial⟩
  overwrite := by
    intro s t r₀ r changes old entered _ hw hs _ _ _ ho
    refine ⟨pastPending_put _ hs ho (fun _ hp => beforeWorkspace_merge ?_ hp), trivial, trivial⟩
    cases hw <;> rfl
  note := fun _ hs _ ho => ⟨pastPending_put _ hs ho (fun _ hp => beforeWorkspace_merge rfl hp), trivial⟩
  select := by
    intro s t r old new _ hs _ _ ho hsel _
    refine ⟨pastPending_put _ hs ho (fun _ hp => ?_), trivial, trivial⟩
    rw [hsel] at hp
    cases hp
  reserve := fun _ hs _ hf _ =>
    ⟨pastPending_append hs hf (fun g hg => Journal.record_appendReservation_of_ne hg), trivial⟩
  review := fun _ _ hs _ hf =>
    ⟨pastPending_append hs hf (fun g hg => Journal.record_append_of_ne hg), trivial⟩

end Past

section Accepted

variable {c : Codec} {t : Target} {payload : Payload} {key : Key} {revision : ℕ} {d : Record}
variable {s : World Authority} {mutator : Bool} {requested : Request}

theorem ends_accepted (hs : AwaitsWorkspace t payload key revision d s) (hc : c.Roomy)
    (hl : s.journal.length ≤ maxRecords) (ha : Acceptable s.native payload key revision) :
    (invokePhase authorityHost c t (t.scoped d) .createWorkspace payload d.authorityRevision
      d.createWorkspaceKey).Ends
      (fun out s' => isAttention out.1 = false ∧ ∃ d', s'.Holds t d' ∧
        s'.journal.length ≤ maxRecords) (fun _ _ => False) s := by
  unfold invokePhase
  refine ends_bind ((ends_workspaceIntent hs).mono (fun _ _ h => h) ?_) ?_
  · intro e s' h
    exact h.2 ⟨hc, hl⟩
  · rintro ⟨request, r⟩ s₁ ⟨rfl, d₁, rfl, hs₁, hn₁, hl₁⟩
    have hsend : (invokeMutation authorityHost ((t.scoped d).merge d₁) payload key revision).Ends
        (fun out s' => isAttention out = false ∧ ∃ d', s'.Holds t d' ∧
          s'.journal.length ≤ maxRecords) (fun _ _ => False) s₁ := by
      unfold invokeMutation withScope
      split
      · rw [← hn₁] at ha
        apply ends_atomic
        · intro v out hout
          obtain ⟨a', result, hserve⟩ := authorityHost_accepts _ _ v ha
          rw [hserve] at hout ⊢
          cases hout
          exact ⟨result.2, d₁, hs₁.holds, hl₁.trans_le hl⟩
        · intro v e he
          obtain ⟨a', result, hserve⟩ := authorityHost_accepts _ _ v ha
          rw [hserve] at he
          cases he
      · -- the scope is in the record, whatever the journal's copy adds
        rename_i hnone
        have hp : ((t.scoped d).merge d₁).project ≠ none := by
          cases h : d₁.project <;> simp [Record.merge, Target.scoped, h]
        have hr : ((t.scoped d).merge d₁).repository ≠ none := by
          cases h : d₁.repository <;> simp [Record.merge, Target.scoped, h]
        obtain ⟨project, hp⟩ := Option.ne_none_iff_exists'.mp hp
        obtain ⟨repository, hr⟩ := Option.ne_none_iff_exists'.mp hr
        exact absurd hr (hnone project repository hp)
    refine ends_bind hsend ?_
    rintro result s₂ ⟨hatt, hd₂⟩
    have hstale : isStale result = false := by simp [isStale, hatt]
    rw [hstale]
    exact ⟨hatt, hd₂⟩

theorem ends_createWorkspace_accepted (hs : AwaitsWorkspace t payload key revision d s)
    (hc : c.Roomy) (hl : s.journal.length ≤ maxRecords)
    (ha : Acceptable s.native payload key revision) :
    (createWorkspace authorityHost c t (t.scoped d)).Ends
      (fun _ s' => PastPending t.handle s') (fun _ _ => False) s := by
  obtain ⟨taskId, planRevisionId, workspaceId, h1, h2, h3, rfl, -⟩ :=
    pendingRequest_some hs.request
  unfold createWorkspace
  rw [need_bind (x := (t.scoped d).taskId) h1, need_bind (x := (t.scoped d).planRevisionId) h2,
    need_bind (x := (t.scoped d).workspaceId) h3]
  refine ends_bind (ends_accepted hs hc hl ha) ?_
  rintro ⟨result, r⟩ s₁ ⟨hatt, d₁, hs₁, hl₁⟩
  dsimp only at hatt ⊢
  rw [hatt]
  refine ends_bind (ends_storeUpdate hs₁ ?_) ?_
  · intro e he
    rw [Store.update_of_roomy hc hl₁ hs₁] at he
    cases he
  · rintro data s₂ ⟨-, rfl⟩
    exact ⟨_, _, _, World.record_put hs₁ _, rfl⟩

/-- One call is enough when the authority accepts the request. -/
theorem ends_nextTask_accepted (hs : AwaitsWorkspace t payload key revision d s)
    (hc : c.Roomy) (hl : s.journal.length ≤ maxRecords)
    (hreq : Store.checkRequest d requested = .ok ())
    (ha : Acceptable s.native payload key revision) :
    (nextTask authorityHost c mutator t.project t.repository requested).Ends
      (fun _ s' => PastPending t.handle s') (fun _ _ => False) s := by
  refine ends_nextTask hs ?_ (fun h => absurd ⟨hc, hl, hreq⟩ h)
  refine ends_bind ((ends_createWorkspace_accepted hs hc hl ha).mono (fun _ _ h => h)
    (fun _ _ h => h.elim)) ?_
  intro out s' hpast
  cases out with
  | inl response => exact hpast
  | inr record =>
    have hR := pastPendingRules (h := t.handle) 0 authorityHost c
    exact ((triple_dispatchStages hR trivial trivial s' hpast trivial).ends (fun _ _ => trivial)
      hpast).mono (fun _ _ h => h.1) (fun _ _ h => h)

end Accepted

/-- With nobody else at work, `next_task` takes a record out of `workspace_pending`
only if the authority accepts the request as it stands, and then it does unless a
size limit or another request stops it. -/
theorem leavesPending_iff_acceptable (c : Codec) (mutator : Bool) (t : Target)
    (requested : Request) (s : World Authority) {payload : Payload} {key : Key} {revision : ℕ}
    {d : Record} (hs : AwaitsWorkspace t payload key revision d s) :
    (LeavesPending authorityHost c mutator t requested s →
      Acceptable s.native payload key revision) ∧
    (c.Roomy → s.journal.length ≤ maxRecords → Store.checkRequest d requested = .ok () →
      Acceptable s.native payload key revision →
      LeavesPending authorityHost c mutator t requested s) := by
  constructor
  · intro hleaves
    by_contra hn
    exact not_leavesPending hs hn hleaves
  · intro hc hl hreq ha
    have hends : (nextTasks authorityHost c mutator t.project t.repository requested 1).Ends
        (fun _ s' => PastPending t.handle s') (fun _ _ => False) s :=
      ends_bind (ends_nextTask_accepted hs hc hl hreq ha) (fun _ _ h => h)
    refine ⟨1, (ready_nextTasks 1).exists_eval s, ?_⟩
    rintro vs out s' heval ⟨p, q, d', hd', hp'⟩
    cases out with
    | ok a =>
      obtain ⟨p₁, q₁, d₁, hd₁, hp₁⟩ := (hends.eval heval).1 a rfl
      cases Option.some.inj (hd'.symm.trans hd₁)
      rw [hp'] at hp₁
      cases hp₁
    | error e => exact (hends.eval heval).2 e rfl

section Runs

def pendingTarget : Target := ⟨"wf", "atlas", "main"⟩

/-- The record that `save_selection` leaves for work that was selected at revision 4. -/
def selectedRecord : Record :=
  (Store.selectingRecord "atlas" "main" {}).merge (preparedRecord pendingTarget {}
    [("work_item_id", .str "T1"), ("plan_revision_id", .str "P1"), ("authority_revision", .num 4)]
    { taskId := "T1", runId := none, assignmentId := none, planRevisionId := "P1",
      authorityRevision := 4 })

/-- The scope waits for its workspace while the authority is at the given revision. -/
def pendingWorld (revision : ℕ) : World Authority where
  journal := [.workflow "wf" "atlas" "main" selectedRecord, .current "atlas" "main" "wf"]
  native := { revision := revision, results := fun _ => none }

def pendingPayload : Payload :=
  workspacePayload selectedRecord "T1" "P1" (generatedId "ws" "wf")

def pendingKey : Key := operationKey "wf" .createWorkspace (.selection
  [("work_item_id", .str "T1"), ("plan_revision_id", .str "P1"), ("authority_revision", .num 4)])

theorem pendingWorld_awaits (revision : ℕ) :
    AwaitsWorkspace pendingTarget pendingPayload pendingKey 4 selectedRecord
      (pendingWorld revision) := by
  refine ⟨rfl, rfl, rfl, rfl, fun i hi => ?_⟩
  cases hi

/-- Another writer advanced the authority from revision 4 to 5. -/
theorem stale_workspace_never_leaves :
    ¬ LeavesPending authorityHost .small false pendingTarget {} (pendingWorld 5) := by
  refine not_leavesPending (pendingWorld_awaits 5) ?_
  rintro (h | h)
  · exact absurd h (by decide)
  · cases h

theorem current_workspace_leaves :
    LeavesPending authorityHost .small false pendingTarget {} (pendingWorld 4) :=
  (leavesPending_iff_acceptable .small false pendingTarget {} (pendingWorld 4)
    (pendingWorld_awaits 4)).2 Codec.small_roomy (by decide) rfl (Or.inl rfl)

end Runs

end ProjectControl.Compact
