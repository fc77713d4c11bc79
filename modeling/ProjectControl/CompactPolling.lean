import ProjectControl.CompactCoordinate
import ProjectControl.CompactProgress

/-! `next_task` on a scope without eligible work: every poll leaves a record in the
journal, which holds at most 4096 of them. -/

set_option autoImplicit false

namespace ProjectControl.Compact

open Resumption Resumption.Prog

/-- The scope has no current record, or one that is no longer active. -/
def Idle {A : Type} (project repository : String) (s : World A) : Prop :=
  s.journal.pointers project repository = [] ∨
    ∃ h d, s.journal.pointers project repository = [h] ∧
      s.journal.record h = some (project, repository, d) ∧ d.phase.any Phase.isActive = false

/-- The entry that a scope without a pointer needs besides its first record. -/
def missingPointer (j : Journal) (project repository : String) : ℕ :=
  if j.pointers project repository = [] then 1 else 0

/-- `n` calls of `next_task`, with any requests, that are all answered `no_work`. -/
def Polls {A : Type} (N : NativeHost A) (c : Codec) (mutator : Bool)
    (project repository : String) : ℕ → World A → World A → Prop
  | 0, s, s' => s' = s
  | n + 1, s, s' => ∃ requested vs s₁,
      (nextTask N c mutator project repository requested).eval s vs = some (.ok .noWork, s₁) ∧
        Polls N c mutator project repository n s₁ s'

/-- For some replies of the authority a call of `next_task` claims work. -/
def CanClaim (c : Codec) (mutator : Bool) (project repository : String) (s : World Unit) : Prop :=
  ∃ vs h s', (nextTask anyHost c mutator project repository {}).eval s vs =
    some (.ok (.task h false), s')

section Polling

variable {A : Type} {N : NativeHost A} {c : Codec} {t : Target} {project repository : String}
variable {s : World A} {mutator : Bool} {requested : Request} {r : Record}

/-- The journal after a poll. -/
structure Polled (project repository : String) (s s' : World A) : Prop where
  idle : Idle project repository s'
  pointed : s'.journal.pointers project repository ≠ []
  length : s'.journal.length =
    s.journal.length + 1 + missingPointer s.journal project repository

theorem length_appendReservation (j : Journal) (project repository : String) (request : Request)
    (token : Handle) : (Store.appendReservation j project repository request token).length =
      j.length + 1 + missingPointer j project repository := by
  unfold Store.appendReservation missingPointer
  split
  · rename_i hp
    rw [hp, if_pos rfl, List.length_append]
    rfl
  · rename_i hp
    rw [if_neg hp, Journal.setPointer, List.length_map, List.length_append]
    rfl

theorem Idle.pointers (hs : Idle project repository s) :
    s.journal.pointers project repository = [] ∨
      ∃ g, s.journal.pointers project repository = [g] := by
  rcases hs with h | ⟨g, d, h, -⟩
  · exact Or.inl h
  · exact Or.inr ⟨g, h⟩

theorem Idle.currentRecord (hs : Idle project repository s) (requested : Request) :
    Store.currentRecord s.journal project repository requested = .ok none := by
  unfold Store.currentRecord
  rcases hs with h | ⟨g, d, h, hd, hp⟩
  · rw [h]
  · rw [h]
    simp only [Journal.record_eq_some.mp hd, hp]
    rfl

/-- Once nothing was selected, the record of the poll is no longer active. -/
theorem polled_setData {token : Handle} {s' : World A} (hs : Idle project repository s)
    (hf : s.journal.rows token = [])
    (hj : s'.journal =
      (Store.appendReservation s.journal project repository requested token).setData token
        { Store.selectingRecord project repository requested with phase := some .noWork }) :
    Polled project repository s s' := by
  have hp : s'.journal.pointers project repository = [token] := by
    rw [hj, Journal.pointers_setData,
      Journal.pointers_appendReservation _ _ _ _ _ _ _ hs.pointers, if_pos ⟨rfl, rfl⟩]
  have hd : s'.journal.record token = some (project, repository,
      { Store.selectingRecord project repository requested with phase := some .noWork }) := by
    rw [hj]
    exact Journal.record_setData_self (Journal.record_appendReservation_self hf)
  refine ⟨Or.inr ⟨token, _, hp, hd, rfl⟩, ?_, ?_⟩
  · rw [hp]
    exact List.cons_ne_nil _ _
  · rw [hj]
    exact (List.length_map _).trans (length_appendReservation _ _ _ _ _)

/-- A reservation on an idle scope makes a new record, unless the journal is full. -/
theorem ends_reserveIdle {E : Err → World A → Prop} (hs : Idle project repository s)
    (hE : ∀ e s', E e s') :
    (reserveWorkflow c project repository requested : Host A _).Ends
      (fun out s' => Store.isFull s.journal project repository = false ∧
        ∃ token, s.journal.rows token = [] ∧
          out = (token, Store.selectingRecord project repository requested, true) ∧
          s' = { s with journal :=
            Store.appendReservation s.journal project repository requested token }) E s := by
  apply ends_await
  · rintro v ⟨h, data, isNew⟩ hfresh hout
    have hrows : s.journal.rows v.token = [] := by simpa [Journal.fresh] using hfresh
    cases hr : Store.reserveWorkflow c s.journal project repository requested v.token with
    | error e => simp [onJournal, hr] at hout
    | ok result =>
      obtain ⟨out, j⟩ := result
      simp only [onJournal, hr] at hout ⊢
      cases hout
      rcases Store.reserveWorkflow_ok hr with ⟨-, -, hcur⟩ | ⟨rfl, rfl, rfl, rfl, -⟩
      · rw [hs.currentRecord] at hcur
        cases hcur
      · refine ⟨?_, v.token, hrows, rfl, rfl⟩
        -- a full journal refuses before it writes
        by_contra hfull
        rw [Bool.not_eq_false] at hfull
        obtain ⟨-, -, hr⟩ := Store.bind_eq_ok.mp hr
        obtain ⟨j, hj, hr⟩ := Store.bind_eq_ok.mp hr
        rw [Store.read_ok hj, hs.currentRecord] at hr
        simp [Bind.bind, Except.bind, hfull] at hr
  · intro v e _ _
    exact hE e _

/-- The native calls leave the journal as it is. -/
theorem ends_invoke_journal {tool : Tool} {arguments : Dict} :
    (invoke N tool r arguments).Ends (fun _ s' => s'.journal = s.journal) (fun _ _ => True) s := by
  unfold invoke withScope
  split
  · apply ends_atomic
    · intro v out _
      rfl
    · intro v e _
      trivial
  · trivial

theorem ends_storeAtomic {l : Label} {fn : Record → Except Err (Option Record)}
    {Q : Record → World A → Prop}
    (hok : ∀ data j, Store.atomicUpdate c s.journal t.handle t.project t.repository fn =
      .ok (data, j) → Q data { s with journal := j }) :
    (storeAtomic c l t fn).Ends Q (fun _ _ => True) s := by
  apply ends_atomic
  · intro v out hout
    unfold onJournal at hout ⊢
    split at hout <;> cases hout
    rename_i j hj
    exact hok out j hj
  · intro v e _
    trivial

/-- A selection that ends a call with `no_work` leaves the record of a poll. -/
theorem ends_selectWork {token : Handle} {s₁ : World A} (hs : Idle project repository s)
    (hf : s.journal.rows token = [])
    (hj : s₁ = { s with journal :=
      Store.appendReservation s.journal project repository requested token }) :
    (selectWork N c ⟨token, project, repository⟩ requested r).Ends
      (fun out s' => out = .inl .noWork → Polled project repository s s')
      (fun _ _ => True) s₁ := by
  subst hj
  refine ends_bind ends_invoke_journal (fun choice s₂ hj₂ => ?_)
  split
  · intro h
    cases h
  · split
    · refine ends_bind (M := fun _ s₃ => Polled project repository s s₃) (ends_storeAtomic ?_) ?_
      · intro data j hu
        obtain ⟨old, ho, hout⟩ := Store.atomicUpdate_ok hu
        rw [hj₂, Journal.record_appendReservation_self hf] at ho
        cases ho
        rcases hout with ⟨hn, -, -⟩ | ⟨hn, rfl⟩
        · cases hn
        · cases hn
          exact polled_setData hs hf (by rw [hj₂])
      · intro record s₃ hpolled
        split
        · refine ends_bind (M := fun _ s₄ => s₄ = s₃) ?_ ?_
          · unfold respond
            split
            · trivial
            · rfl
          · rintro response s₄ rfl _
            exact hpolled
        · trivial
    · split
      · trivial
      · refine ends_bind (ends_true _ _) (fun sel s₃ _ => ?_)
        refine ends_bind (ends_true _ _) (fun record s₄ _ => ?_)
        split
        · intro h
          cases h
        · intro h
          cases h
    · trivial

/-- No later stage of `next_task` answers `no_work`. -/
theorem ends_stage {phase : Phase} {stage : Record → Host A (Response ⊕ Record)}
    {rest : Record → Host A Response}
    (hstage : ∀ s, (stage r).Ends (fun out _ => out ≠ .inl .noWork) (fun _ _ => True) s)
    (hrest : ∀ r s, (rest r).Ends (fun out _ => out ≠ .noWork) (fun _ _ => True) s)
    (s : World A) :
    (andStage (whenPhase phase stage r) rest).Ends (fun out _ => out ≠ .noWork)
      (fun _ _ => True) s := by
  refine ends_bind (M := fun out _ => out ≠ .inl .noWork) ?_ ?_
  · unfold whenPhase
    split
    · exact hstage s
    · intro h
      cases h
  · intro out s' hout
    cases out with
    | inl response =>
      intro h
      exact hout (congrArg _ h)
    | inr record => exact hrest record s'

theorem ends_createWorkspace (s : World A) : (createWorkspace N c t r).Ends
    (fun out _ => out ≠ .inl .noWork) (fun _ _ => True) s := by
  refine ends_bind (ends_true _ _) (fun _ _ _ => ends_bind (ends_true _ _) (fun _ _ _ =>
    ends_bind (ends_true _ _) (fun _ _ _ => ends_bind (ends_true _ _) ?_)))
  rintro ⟨workspace, record⟩ s' -
  dsimp only
  split
  · intro h
    cases h
  · refine ends_bind (ends_true _ _) (fun _ _ _ h => ?_)
    cases h

theorem ends_dispatchAttempt (s : World A) : (dispatchAttempt N c t r).Ends
    (fun out _ => out ≠ .inl .noWork) (fun _ _ => True) s := by
  refine ends_bind (ends_true _ _) (fun _ _ _ => ends_bind (ends_true _ _) (fun _ _ _ =>
    ends_bind (ends_true _ _) (fun _ _ _ => ends_bind (ends_true _ _) ?_)))
  rintro ⟨dispatched, record⟩ s' -
  dsimp only
  split
  · intro h
    cases h
  · refine ends_bind (ends_true _ _) (fun attemptId _ _ => ends_bind (ends_true _ _)
      (fun leaseId _ _ => ?_))
    split
    · refine ends_bind (ends_true _ _) (fun _ _ _ h => ?_)
      cases h
    · trivial

theorem ends_buildContext (s : World A) : (buildContext N c t r).Ends
    (fun out _ => out ≠ .inl .noWork) (fun _ _ => True) s := by
  refine ends_bind (ends_true _ _) (fun _ _ _ => ends_bind (ends_true _ _) (fun _ _ _ =>
    ends_bind (ends_true _ _) (fun context _ _ => ?_)))
  split
  · intro h
    cases h
  · split
    · trivial
    · refine ends_bind (ends_true _ _) ?_
      rintro ⟨capsule, requirementIds⟩ s' -
      refine ends_bind (ends_true _ _) (fun _ _ _ h => ?_)
      cases h

theorem ends_respond {response : Response} (hr : response ≠ .noWork) (s : World A) :
    (respond c response : Host A _).Ends (fun out _ => out ≠ .noWork) (fun _ _ => True) s := by
  unfold respond
  split
  · trivial
  · exact hr

theorem ends_answerTask (s : World A) : (answerTask N c t true r).Ends
    (fun out _ => out ≠ .noWork) (fun _ _ => True) s := by
  unfold answerTask
  split
  · exact ends_respond (fun h => by cases h) s
  · split
    · intro h
      cases h
    · exact ends_respond (fun h => by cases h) s

theorem ends_orAttention {Q : Response → World A → Prop} {handle : Option Handle}
    {failed : String} {body : Host A Response} (hb : body.Ends Q (fun _ _ => True) s)
    (hQ : ∀ reason s', Q (.attention reason handle) s') :
    (orAttention handle failed body).Ends Q (fun _ _ => True) s := by
  refine ends_tryCatch hb (fun e s' _ => ?_)
  cases e with
  | workflow code => exact hQ _ _
  | other => exact hQ _ _

theorem ends_pendingReview_reads : (pendingReview c mutator project repository requested).Ends
    (fun _ s' => s' = s) (fun _ _ => True) s := by
  unfold pendingReview
  split
  · refine ends_bind (M := fun _ s' => s' = s) (ends_atomic (fun _ _ _ => rfl)
      (fun _ _ _ => trivial)) ?_
    rintro out s' rfl
    split
    · refine ends_atomic (fun v out hout => ?_) (fun _ _ _ => trivial)
      cases v.review <;> rfl
    · rfl
  · rfl

/-- A poll that is answered `no_work` leaves one more record, and nothing removes it. -/
theorem ends_poll (hs : Idle project repository s) :
    (nextTask N c mutator project repository requested).Ends
      (fun out s' => out = .noWork → Polled project repository s s') (fun _ _ => True) s := by
  refine ends_orAttention (ends_bind ends_pendingReview_reads ?_) ?_
  · rintro review s' rfl
    split
    · refine ends_bind (ends_true _ _) ?_
      rintro ⟨h, record, _⟩ s₁ -
      exact (ends_respond (fun h => by cases h) s₁).mono (fun _ _ hne h => absurd h hne)
        (fun _ _ h => h)
    · refine ends_bind (ends_reserveIdle hs (fun _ _ => trivial)) ?_
      rintro out s₁ ⟨-, token, hf, rfl, hj⟩
      dsimp only [advanceTask]
      rw [if_neg (by simp [Store.selectingRecord]), if_neg (by simp [Store.selectingRecord])]
      refine ends_bind (M := fun out s₂ => out = .inl .noWork → Polled project repository s' s₂)
        ?_ ?_
      · unfold whenPhase
        split
        · exact ends_selectWork hs hf hj
        · intro h
          cases h
      · intro out s₂ hout
        cases out with
        | inl response =>
          intro h
          exact hout (congrArg _ h)
        | inr record =>
          refine (ends_stage ends_createWorkspace (fun r => ends_stage ends_dispatchAttempt
            (fun r => ends_stage ends_buildContext (fun r => ends_answerTask))) s₂).mono
            (fun _ _ hne h => absurd h hne) (fun _ _ h => h)
  · intro reason s' h
    cases h

/-- A call on an idle scope of a full journal hands out no task. -/
theorem ends_nextTask_full (hs : Idle project repository s)
    (hfull : Store.isFull s.journal project repository = true) :
    (nextTask N c mutator project repository requested).Ends
      (fun out _ => ∀ h resumed, out ≠ .task h resumed) (fun _ _ => True) s := by
  refine ends_orAttention (ends_bind ends_pendingReview_reads ?_) ?_
  · rintro review s' rfl
    split
    · refine ends_bind (ends_true _ _) ?_
      rintro ⟨h, record, _⟩ s₁ -
      dsimp only
      unfold respond
      split
      · trivial
      · intro h resumed heq
        cases heq
    · refine ends_bind (ends_reserveIdle hs (fun _ _ => trivial)) ?_
      rintro out s₁ ⟨hroom, -⟩
      rw [hfull] at hroom
      cases hroom
  · intro reason s' h resumed heq
    cases heq

theorem Polled.missing {s' : World A} (hp : Polled project repository s s') :
    missingPointer s'.journal project repository = 0 := if_neg hp.pointed

/-- Each poll adds one record, the first one of a scope also its pointer. -/
theorem polls_length {s' : World A} (n : ℕ) (hs : Idle project repository s)
    (hp : Polls N c mutator project repository n s s') :
    Idle project repository s' ∧
      s'.journal.length + missingPointer s'.journal project repository =
        s.journal.length + n + missingPointer s.journal project repository := by
  induction n generalizing s with
  | zero =>
    cases hp
    exact ⟨hs, rfl⟩
  | succ n ih =>
    obtain ⟨requested, vs, s₁, heval, hrest⟩ := hp
    have hpolled := ((ends_poll hs).eval heval).1 .noWork rfl rfl
    obtain ⟨hidle, hlen⟩ := ih hpolled.idle hrest
    refine ⟨hidle, ?_⟩
    rw [hlen, hpolled.length, hpolled.missing]
    omega

end Polling

section Claiming

variable {c : Codec} {t : Target} {project repository : String} {s : World Unit}
variable {mutator : Bool} {requested : Request} {r d : Record}

theorem can_storeGet (hc : c.Roomy) (hl : s.journal.length ≤ maxRecords) (hd : s.Holds t d) :
    (storeGet c t).Can (fun out s' => out = d ∧ s' = s) s :=
  can_atomic (served "") (Store.get_of_roomy hc hl hd) ⟨rfl, rfl⟩

theorem can_storeUpdate {entered : Option Phase} {changes : Record} (hc : c.Roomy)
    (hl : s.journal.length ≤ maxRecords) (hd : s.Holds t d) :
    (storeUpdate c t entered changes).Can
      (fun out s' => out = d.merge changes ∧ s'.Holds t (d.merge changes) ∧
        s'.journal.length ≤ maxRecords) s := by
  have hu : Store.update c s.journal t.handle t.project t.repository changes = .ok _ :=
    Store.update_of_roomy hc hl hd
  refine can_atomic (served "") (a := d.merge changes) ?_ ?_
  · simp only [onJournal, hu]
  · simp only [onJournal, hu]
    exact ⟨trivial, World.record_put hd _, (List.length_map _).trans_le hl⟩

theorem can_respond {response : Response} (hc : c.Roomy) :
    (respond c response).Can (fun out _ => out = response) s := by
  unfold respond
  rw [if_neg (Nat.not_lt.mpr (hc.response response))]
  rfl

/-- The work that the authority offers. -/
def offeredWork : Dict :=
  [("work_item_id", .str "T1"), ("plan_revision_id", .str "P1"), ("authority_revision", .num 5)]

/-- The reply with which every step of a claim goes on. -/
def claimReply : Dict :=
  [("selection", .obj offeredWork),
    ("semantic_revision", .num 5), ("attempt_id", .str "A1"), ("lease_id", .str "L1")]

theorem can_serveRead {tool : Tool} {arguments : Dict} :
    (serveRead anyHost project repository tool arguments).Can
      (fun out s' => out = claimReply ∧ s'.journal = s.journal) s :=
  can_atomic (served "") rfl ⟨rfl, rfl⟩

theorem can_observeRevision : (observeRevision anyHost t).Can
    (fun _ s' => s'.journal = s.journal) s := by
  refine can_bind can_serveRead ?_
  rintro out s' ⟨rfl, hj⟩
  have hatt : isAttention claimReply = false := by decide
  have hrev : (Dict.get claimReply "semantic_revision").bind Json.nat? = some 5 := by decide
  rw [hatt, hrev]
  exact hj

theorem holds_of_journal {s' : World Unit} (hj : s'.journal = s.journal) (hd : s.Holds t d) :
    s'.Holds t d := by
  rw [World.Holds, hj]
  exact hd

/-- A phase without an intent is persisted, sent and answered. -/
theorem can_invokePhase {name : PhaseName} {payload : Payload} {revision : Option ℕ}
    {key : Option Key} (hc : c.Roomy) (hl : s.journal.length ≤ maxRecords) (hd : s.Holds t d)
    (hn : d.intent name = none)
    (hscope : ∀ i, (r.merge (d.setIntent name i)).project ≠ none ∧
      (r.merge (d.setIntent name i)).repository ≠ none) :
    (invokePhase anyHost c t r name payload revision key).Can
      (fun out s' => ∃ i, out = (claimReply, r.merge (d.setIntent name i)) ∧
        s'.Holds t (d.setIntent name i) ∧ s'.journal.length ≤ maxRecords) s := by
  refine can_bind (M := fun out s' => ∃ i : Intent, out.2 = r.merge (d.setIntent name i) ∧
    s'.Holds t (d.setIntent name i) ∧ s'.journal.length ≤ maxRecords) ?_ ?_
  · unfold phaseIntent
    rw [if_neg (Nat.not_lt.mpr (hc.payload payload))]
    refine can_bind (can_storeGet hc hl hd) ?_
    rintro latest s₁ ⟨rfl, rfl⟩
    rw [hn]
    have hrev : (expectedOrObserved anyHost t revision).Can
        (fun _ s' => s'.journal = s₁.journal) s₁ := by
      cases revision with
      | some revision => rfl
      | none => exact can_observeRevision
    refine can_bind hrev (fun n s₂ hj => ?_)
    have hd₂ := holds_of_journal hj hd
    have hl₂ : s₂.journal.length ≤ maxRecords := by rwa [hj]
    let i : Intent := ⟨payload,
      key.getD (operationKey t.handle (.native name) (.request payload)), n, 0⟩
    have hfn : persistIntent name i latest = .ok (some (latest.setIntent name i)) := by
      simp only [persistIntent, hn]
    have hu := Store.atomicUpdate_of_roomy hc hl₂ hd₂ hfn
    refine can_bind (M := fun current s₃ => current = latest.setIntent name i ∧
      s₃.Holds t (latest.setIntent name i) ∧ s₃.journal.length ≤ maxRecords)
      (can_atomic (served "") (a := latest.setIntent name i) ?_ ?_) ?_
    · simp only [i, hu]
    · simp only [i, hu]
      exact ⟨trivial, World.record_put hd₂ _, (List.length_map _).trans_le hl₂⟩
    · rintro current s₃ ⟨rfl, hd₃, hl₃⟩
      rw [Record.setIntent_intent_self]
      dsimp only
      rw [storedRequest, if_neg (not_not.mpr rfl)]
      exact ⟨i, rfl, hd₃, hl₃⟩
  · rintro ⟨request, record⟩ s₁ ⟨i, rfl, hd₁, hl₁⟩
    have hsend : (invokeMutation anyHost (r.merge (d.setIntent name i)) payload request.1
        request.2).Can (fun out s' => out = claimReply ∧ s'.journal = s₁.journal) s₁ := by
      obtain ⟨hp, hr⟩ := hscope i
      obtain ⟨project, hp⟩ := Option.ne_none_iff_exists'.mp hp
      obtain ⟨repository, hr⟩ := Option.ne_none_iff_exists'.mp hr
      rw [invokeMutation, withScope, hp, hr]
      exact can_atomic (served "") rfl ⟨rfl, rfl⟩
    refine can_bind hsend ?_
    rintro result s₂ ⟨rfl, hj⟩
    have hstale : isStale claimReply = false := by decide
    rw [hstale]
    exact ⟨i, rfl, holds_of_journal hj hd₁, by rwa [hj]⟩

/-- The fields that the stages of a claim read. -/
structure Selected (r : Record) : Prop where
  task : r.taskId = some "T1"
  plan : r.planRevisionId = some "P1"
  workspace : ∃ w, r.workspaceId = some w
  project : r.project ≠ none
  repository : r.repository ≠ none

theorem Selected.merge (r : Record) (hd : Selected d) : Selected (r.merge d) := by
  obtain ⟨w, hw⟩ := hd.workspace
  obtain ⟨p, hp⟩ := Option.ne_none_iff_exists'.mp hd.project
  obtain ⟨q, hq⟩ := Option.ne_none_iff_exists'.mp hd.repository
  constructor <;> simp [Record.merge, hd.task, hd.plan, hw, hp, hq]

theorem Selected.setIntent (hd : Selected d) (name : PhaseName) (i : Intent) :
    Selected (d.setIntent name i) :=
  ⟨hd.task, hd.plan, hd.workspace, hd.project, hd.repository⟩

/-- A whole record that is written back keeps the intents of the stored one. -/
theorem writeBack_intent {name : PhaseName} {i : Intent} {changes : Record}
    (hp : changes.phaseIntents = (r.merge (d.setIntent name i)).phaseIntents) (n : PhaseName) :
    ((d.setIntent name i).merge changes).intent n = (d.setIntent name i).intent n := by
  have hs : changes.phaseIntents = (d.setIntent name i).phaseIntents := hp
  simp [Record.intent, Record.merge, hs]

theorem can_createWorkspace (hc : c.Roomy) (hl : s.journal.length ≤ maxRecords)
    (hd : s.Holds t d) (hr : Selected r) (hsel : Selected d)
    (hn : d.intent .createWorkspace = none) (hm : d.intent .dispatchAttempt = none) :
    (createWorkspace anyHost c t r).Can (fun out s' => ∃ r', out = .inr r' ∧ ∃ d',
      r'.phase = some .dispatchPending ∧ Selected r' ∧ Selected d' ∧ s'.Holds t d' ∧
      d'.intent .dispatchAttempt = none ∧ s'.journal.length ≤ maxRecords) s := by
  obtain ⟨w, hw⟩ := hr.workspace
  unfold createWorkspace
  rw [need_bind hr.task, need_bind hr.plan, need_bind hw]
  have hscope : ∀ i, Selected (r.merge (d.setIntent .createWorkspace i)) :=
    fun i => (hsel.setIntent _ i).merge r
  refine can_bind (can_invokePhase hc hl hd hn (fun i => ⟨(hscope i).project,
    (hscope i).repository⟩)) ?_
  rintro out s₁ ⟨i, rfl, hd₁, hl₁⟩
  have hatt : isAttention claimReply = false := by decide
  have hwritten : Selected { r.merge (d.setIntent .createWorkspace i) with
      phase := some .dispatchPending, workspace := some claimReply } :=
    ⟨(hscope i).task, (hscope i).plan, (hscope i).workspace, (hscope i).project,
      (hscope i).repository⟩
  dsimp only
  rw [hatt]
  refine can_bind (can_storeUpdate hc hl₁ hd₁) ?_
  rintro data s₂ ⟨-, hd₂, hl₂⟩
  refine ⟨_, rfl, _, rfl, hwritten, hwritten.merge _, hd₂, ?_, hl₂⟩
  refine (writeBack_intent (r := r) rfl _).trans ?_
  rw [Record.setIntent_intent_of_ne _ _ (by decide), hm]

theorem can_dispatchAttempt (hc : c.Roomy) (hl : s.journal.length ≤ maxRecords)
    (hd : s.Holds t d) (hr : Selected r) (hsel : Selected d)
    (hn : d.intent .dispatchAttempt = none) :
    (dispatchAttempt anyHost c t r).Can (fun out s' => ∃ r', out = .inr r' ∧ ∃ d',
      r'.phase = some .contextPending ∧ Selected r' ∧ r'.attemptId = some "A1" ∧
      s'.Holds t d' ∧ s'.journal.length ≤ maxRecords) s := by
  obtain ⟨w, hw⟩ := hr.workspace
  unfold dispatchAttempt
  rw [need_bind hr.task, need_bind hr.plan, need_bind hw]
  have hscope : ∀ i, Selected (r.merge (d.setIntent .dispatchAttempt i)) :=
    fun i => (hsel.setIntent _ i).merge r
  refine can_bind (can_invokePhase hc hl hd hn (fun i => ⟨(hscope i).project,
    (hscope i).repository⟩)) ?_
  rintro out s₁ ⟨i, rfl, hd₁, hl₁⟩
  have hatt : isAttention claimReply = false := by decide
  have hattempt : dispatchedAttempt claimReply = .ok (some "A1") := rfl
  have hlease : optionalText claimReply "lease_id" = .ok (some "L1") := rfl
  dsimp only
  rw [hatt, hattempt, hlease]
  refine can_bind (M := fun out s' => out = some "A1" ∧ s' = s₁) ⟨rfl, rfl⟩ ?_
  rintro attemptId s₂ ⟨rfl, rfl⟩
  refine can_bind (M := fun out s' => out = some "L1" ∧ s' = s₂) ⟨rfl, rfl⟩ ?_
  rintro leaseId s₁ ⟨rfl, rfl⟩
  refine can_bind (can_storeUpdate hc hl₁ hd₁) ?_
  rintro data s₂ ⟨-, hd₂, hl₂⟩
  exact ⟨_, rfl, _, rfl, ⟨(hscope i).task, (hscope i).plan, (hscope i).workspace,
    (hscope i).project, (hscope i).repository⟩, rfl, hd₂, hl₂⟩

theorem can_buildContext (hc : c.Roomy) (hl : s.journal.length ≤ maxRecords)
    (hd : s.Holds t d) (hr : Selected r) (ha : r.attemptId = some "A1") :
    (buildContext anyHost c t r).Can
      (fun out _ => ∃ r', out = .inr r' ∧ r'.phase = some .active) s := by
  obtain ⟨p, hp⟩ := Option.ne_none_iff_exists'.mp hr.project
  obtain ⟨q, hq⟩ := Option.ne_none_iff_exists'.mp hr.repository
  have hatt : isAttention claimReply = false := by decide
  unfold buildContext
  rw [need_bind hr.task, need_bind ha]
  refine can_bind (M := fun out s' => out = claimReply ∧ s'.journal = s.journal) ?_ ?_
  · rw [invoke, withScope, hp, hq]
    exact can_serveRead
  · rintro context s₁ ⟨rfl, hj⟩
    rw [hatt, if_neg (Nat.not_lt.mpr (hc.dict claimReply))]
    refine can_bind (M := fun _ s₂ => s₂ = s₁) (can_atomic (served "") (a := ([], [])) rfl rfl) ?_
    rintro ⟨capsule, requirementIds⟩ s₂ rfl
    refine can_bind (can_storeUpdate hc (by rwa [hj]) (holds_of_journal hj hd)) ?_
    rintro data s₃ ⟨rfl, -⟩
    exact ⟨_, rfl, rfl⟩

/-- A record that is being selected takes the work that the authority offers. -/
theorem can_selectWork (hc : c.Roomy) (hl : s.journal.length ≤ maxRecords) (hd : s.Holds t d)
    (hp : d.phase = some .selecting) (hr : r.project ≠ none ∧ r.repository ≠ none) :
    (selectWork anyHost c t {} r).Can (fun out s' => ∃ d', out = .inr d' ∧
      d'.phase = some .workspacePending ∧ Selected d' ∧ d'.phaseIntents = d.phaseIntents ∧
      s'.Holds t d' ∧ s'.journal.length ≤ maxRecords) s := by
  obtain ⟨p, hp'⟩ := Option.ne_none_iff_exists'.mp hr.1
  obtain ⟨q, hq⟩ := Option.ne_none_iff_exists'.mp hr.2
  have hatt : isAttention claimReply = false := by decide
  refine can_bind (M := fun out s' => out = claimReply ∧ s'.journal = s.journal) ?_ ?_
  · rw [invoke, withScope, hp', hq]
    exact can_serveRead
  · rintro choice s₁ ⟨rfl, hj⟩
    have hd₁ := holds_of_journal hj hd
    have hl₁ : s₁.journal.length ≤ maxRecords := by rwa [hj]
    have hsel : (Dict.get claimReply "selection").getD (.obj claimReply) =
        .obj offeredWork := rfl
    rw [hatt, hsel]
    dsimp only
    rw [if_neg (by decide), if_neg (Nat.not_lt.mpr ((hc.dict offeredWork).trans (by decide)))]
    have hread : readSelection offeredWork {} = .ok ⟨"T1", none, none, "P1", 5⟩ := rfl
    rw [hread]
    refine can_bind (M := fun out s' => out = ⟨"T1", none, none, "P1", 5⟩ ∧ s' = s₁)
      ⟨rfl, rfl⟩ ?_
    rintro sel s₂ ⟨rfl, rfl⟩
    let prepared := preparedRecord t {} offeredWork ⟨"T1", none, none, "P1", 5⟩
    have hfn : saveSelection prepared d = .ok (some (d.merge prepared)) := by
      rw [saveSelection, if_neg (not_not.mpr hp)]
    have hu := Store.atomicUpdate_of_roomy hc hl₁ hd₁ hfn
    refine can_bind (M := fun out s₃ => out = d.merge prepared ∧
      s₃.Holds t (d.merge prepared) ∧ s₃.journal.length ≤ maxRecords)
      (can_atomic (served "") (a := d.merge prepared) ?_ ?_) ?_
    · simp only [onJournal, prepared, hu]
    · simp only [onJournal, prepared, hu]
      exact ⟨trivial, World.record_put hd₁ _, (List.length_map _).trans_le hl₁⟩
    · rintro record s₃ ⟨rfl, hd₃, hl₃⟩
      have hphase : (d.merge prepared).phase = some .workspacePending := rfl
      rw [hphase, if_neg (by decide)]
      exact ⟨_, rfl, hphase, ⟨rfl, rfl, ⟨_, rfl⟩, fun h => (by cases h), fun h => (by cases h)⟩,
        by simp [Record.merge, prepared, preparedRecord], hd₃, hl₃⟩

theorem Idle.findCurrentWorkflow (hc : c.Roomy) (hl : s.journal.length ≤ maxRecords)
    (hs : Idle project repository s) :
    Store.findCurrentWorkflow c s.journal project repository requested = .ok none := by
  have hb : Store.checkRequestBytes c requested = .ok () :=
    if_neg (Nat.not_lt.mpr (hc.request requested))
  rw [Store.findCurrentWorkflow, hb, Store.read_of_length hl]
  rcases hs with h | ⟨g, d, h, hd, hp⟩
  · simp [h, Bind.bind, Except.bind]
  · simp [h, Journal.record_eq_some.mp hd, hp, Bind.bind, Except.bind]

/-- The authority has no review to hand out first. -/
theorem can_pendingReview (hc : c.Roomy) (hl : s.journal.length ≤ maxRecords)
    (hs : Idle project repository s) :
    (pendingReview c mutator project repository requested).Can
      (fun out s' => out = none ∧ s' = s) s := by
  unfold pendingReview
  split
  · refine can_bind (M := fun out s' => out = none ∧ s' = s)
      (can_atomic (served "") (hs.findCurrentWorkflow hc hl) ⟨rfl, rfl⟩) ?_
    rintro out s' ⟨rfl, rfl⟩
    exact can_atomic (served "") rfl ⟨rfl, rfl⟩
  · exact ⟨rfl, rfl⟩

theorem length_le_of_not_full (hfull : Store.isFull s.journal project repository = false) :
    s.journal.length + 1 + missingPointer s.journal project repository ≤ maxRecords := by
  unfold Store.isFull at hfull
  unfold missingPointer
  simp only [ge_iff_le, decide_eq_false_iff_not, not_le] at hfull
  omega

/-- An idle scope gets a new record as long as the journal is not full. -/
theorem can_reserveWorkflow (hc : c.Roomy) (hs : Idle project repository s)
    (hfull : Store.isFull s.journal project repository = false) :
    (reserveWorkflow c project repository requested).Can
      (fun out s' => ∃ token,
        out = (token, Store.selectingRecord project repository requested, true) ∧
        s'.Holds ⟨token, project, repository⟩
          (Store.selectingRecord project repository requested) ∧
        s'.journal.length ≤ maxRecords) s := by
  obtain ⟨token, hfresh⟩ := exists_fresh s.journal
  have hroom := length_le_of_not_full hfull
  have hl : s.journal.length ≤ maxRecords := by omega
  have hrows : s.journal.rows token = [] := by simpa [Journal.fresh] using hfresh
  have hb : Store.checkRequestBytes c requested = .ok () :=
    if_neg (Nat.not_lt.mpr (hc.request requested))
  have hr : Store.reserveWorkflow c s.journal project repository requested token =
      .ok ((token, Store.selectingRecord project repository requested, true),
        Store.appendReservation s.journal project repository requested token) := by
    simp [Store.reserveWorkflow, hb, Store.read_of_length hl, hs.currentRecord, hfull,
      Store.write_of_roomy hc, Bind.bind, Except.bind]
  refine can_await (served token)
    (a := (token, Store.selectingRecord project repository requested, true)) hfresh ?_ ?_
  · simp only [onJournal, served, hr]
  · simp only [onJournal, served, hr]
    refine ⟨token, rfl, Journal.record_appendReservation_self hrows, ?_⟩
    rw [length_appendReservation]
    exact hroom

theorem can_stage {Q : Response → World Unit → Prop} {M : Record → World Unit → Prop}
    {phase : Phase} {stage : Record → Host Unit (Response ⊕ Record)}
    {rest : Record → Host Unit Response} (hp : r.phase = some phase)
    (hstage : (stage r).Can (fun out s' => ∃ r', out = .inr r' ∧ M r' s') s)
    (hrest : ∀ r s, M r s → (rest r).Can Q s) :
    (andStage (whenPhase phase stage r) rest).Can Q s := by
  rw [whenPhase, if_pos hp]
  refine can_bind hstage ?_
  rintro out s' ⟨r', rfl, hm⟩
  exact hrest r' s' hm

/-- A new record is led through its stages to a claimed task. -/
theorem can_advanceTask (hc : c.Roomy) (hl : s.journal.length ≤ maxRecords) (hd : s.Holds t d)
    (hsel : d = Store.selectingRecord t.project t.repository {}) :
    (advanceTask anyHost c t {} true d).Can (fun out _ => out = .task t.handle false) s := by
  have hp : d.phase = some .selecting := by rw [hsel]; rfl
  have hi : d.phaseIntents = none := by rw [hsel]; rfl
  have hscope : d.project ≠ none ∧ d.repository ≠ none := by
    rw [hsel]
    exact ⟨Option.some_ne_none _, Option.some_ne_none _⟩
  unfold advanceTask
  rw [if_neg (by rw [hp]; simp), if_neg (by rw [hp]; decide)]
  refine can_stage hp (can_selectWork hc hl hd hp hscope) ?_
  rintro d₁ s₁ ⟨hp₁, hsel₁, hi₁, hd₁, hl₁⟩
  have hnone : ∀ name, d₁.intent name = none := by
    intro name
    simp [Record.intent, hi₁, hi]
  refine can_stage hp₁ (can_createWorkspace hc hl₁ hd₁ hsel₁ hsel₁ (hnone _) (hnone _)) ?_
  rintro r₂ s₂ ⟨d₂, hp₂, hr₂, hsel₂, hd₂, hn₂, hl₂⟩
  refine can_stage hp₂ (can_dispatchAttempt hc hl₂ hd₂ hr₂ hsel₂ hn₂) ?_
  rintro r₃ s₃ ⟨d₃, hp₃, hr₃, ha₃, hd₃, hl₃⟩
  refine can_stage hp₃ (can_buildContext hc hl₃ hd₃ hr₃ ha₃) ?_
  intro r₄ s₄ hp₄
  rw [answerTask, if_neg (by rw [hp₄]; decide), if_neg (not_not.mpr hp₄), if_pos rfl]
  exact can_respond hc

/-- An idle scope of a journal that is not full can be handed a task. -/
theorem canClaim_of_not_full (hc : c.Roomy) (hs : Idle project repository s)
    (hfull : Store.isFull s.journal project repository = false) :
    CanClaim c mutator project repository s := by
  have hroom := length_le_of_not_full hfull
  have hcan : (nextTask anyHost c mutator project repository {}).Can
      (fun out _ => ∃ h, out = .task h false) s := by
    refine can_tryCatch (can_bind (can_pendingReview hc (by omega) hs) ?_)
    rintro review s₁ ⟨rfl, rfl⟩
    refine can_bind (can_reserveWorkflow hc hs hfull) ?_
    rintro out s₂ ⟨token, rfl, hd, hl⟩
    exact (can_advanceTask hc hl hd rfl).mono (fun out _ h => ⟨token, h⟩)
  obtain ⟨vs, out, s', heval, h, rfl⟩ := hcan.exists_eval
  exact ⟨vs, h, s', heval⟩

/-- An authority without eligible work lets the poll of an idle scope end with `no_work`. -/
theorem can_noWork (hc : c.Roomy) (hs : Idle project repository s)
    (hfull : Store.isFull s.journal project repository = false) :
    (nextTask anyHost c mutator project repository requested).Can
      (fun out _ => out = .noWork) s := by
  have hroom := length_le_of_not_full hfull
  refine can_tryCatch (can_bind (can_pendingReview hc (by omega) hs) ?_)
  rintro review s₁ ⟨rfl, rfl⟩
  refine can_bind (can_reserveWorkflow hc hs hfull) ?_
  rintro out s₂ ⟨token, rfl, hd, hl⟩
  dsimp only [advanceTask]
  rw [if_neg (by simp [Store.selectingRecord]), if_neg (by simp [Store.selectingRecord])]
  refine can_bind (M := fun out _ => out = .inl .noWork) ?_ ?_
  · have hphase : (Store.selectingRecord project repository requested).phase =
        some .selecting := rfl
    rw [whenPhase, if_pos hphase]
    let nothing : Input := { reply := .ok [("selection", .null)] }
    refine can_bind (M := fun out s' => out = [("selection", .null)] ∧ s'.journal = s₂.journal)
      (can_atomic nothing rfl ⟨rfl, rfl⟩) ?_
    rintro choice s₃ ⟨rfl, hj⟩
    have hd₃ := holds_of_journal hj hd
    have hl₃ : s₃.journal.length ≤ maxRecords := by rwa [hj]
    have hfn : setNoWork (Store.selectingRecord project repository requested) = .ok (some
        { Store.selectingRecord project repository requested with phase := some .noWork }) := rfl
    have hu := Store.atomicUpdate_of_roomy hc hl₃ hd₃ hfn
    refine can_bind (M := fun out _ => out.phase = some .noWork)
      (can_atomic nothing (a := { Store.selectingRecord project repository requested with
        phase := some .noWork }) ?_ rfl) ?_
    · simp only [onJournal, hu]
    · intro record s₄ hp
      rw [if_pos hp]
      exact can_bind (can_respond hc) (fun response s₅ h => congrArg Sum.inl h)
  · rintro out s₃ rfl
    rfl

/-- Polls can go on until the journal is full. -/
theorem exists_polls (hc : c.Roomy) (n : ℕ) (hs : Idle project repository s)
    (hn : s.journal.length + n + missingPointer s.journal project repository ≤ maxRecords) :
    ∃ s', Polls anyHost c mutator project repository n s s' := by
  induction n generalizing s with
  | zero => exact ⟨s, rfl⟩
  | succ n ih =>
    have hfull : Store.isFull s.journal project repository = false := by
      unfold missingPointer at hn
      simp only [Store.isFull, ge_iff_le, decide_eq_false_iff_not, not_le]
      omega
    have hcan : (nextTask anyHost c mutator project repository {}).Can
        (fun out _ => out = .noWork) s := can_noWork hc hs hfull
    obtain ⟨vs, out, s₁, heval, rfl⟩ := hcan.exists_eval
    have hpolled := ((ends_poll hs).eval heval).1 .noWork rfl rfl
    obtain ⟨s', hs'⟩ := ih hpolled.idle (by rw [hpolled.length, hpolled.missing]; omega)
    exact ⟨s', {}, vs, s₁, heval, hs'⟩

end Claiming

section Bound

variable {c : Codec} {project repository : String} {s s' : World Unit} {mutator : Bool}

theorem isFull_iff (n : ℕ) (hs : Idle project repository s)
    (hp : Polls anyHost c mutator project repository n s s') :
    Store.isFull s'.journal project repository = false ↔
      s.journal.length + n + missingPointer s.journal project repository < maxRecords := by
  rw [← (polls_length n hs hp).2, missingPointer]
  simp [Store.isFull]

/-- A claim after `n` polls found room for its record. -/
theorem room_of_canClaim (n : ℕ) (hs : Idle project repository s)
    (hp : Polls anyHost c mutator project repository n s s')
    (hclaim : CanClaim c mutator project repository s') :
    s.journal.length + n + missingPointer s.journal project repository < maxRecords := by
  obtain ⟨vs, h, s₂, heval⟩ := hclaim
  rw [← isFull_iff n hs hp]
  by_contra hroom
  rw [Bool.not_eq_false] at hroom
  exact ((ends_nextTask_full (polls_length n hs hp).1 hroom).eval heval).1 _ rfl h false rfl

/-- The journal of an idle scope keeps a record for every poll, besides the scope's
pointer. After `n` polls a call can claim work exactly as long as one more record
fits below the 4096 of the journal. -/
theorem polls_fill_journal (n : ℕ) (hs : Idle project repository s)
    (hp : Polls anyHost c mutator project repository n s s') :
    s'.journal.length + missingPointer s'.journal project repository =
        s.journal.length + n + missingPointer s.journal project repository ∧
      (CanClaim c mutator project repository s' →
        s.journal.length + n + missingPointer s.journal project repository < maxRecords) ∧
      (c.Roomy →
        s.journal.length + n + missingPointer s.journal project repository < maxRecords →
        CanClaim c mutator project repository s') := by
  obtain ⟨hidle, hlen⟩ := polls_length n hs hp
  refine ⟨hlen, room_of_canClaim n hs hp, ?_⟩
  intro hc hroom
  exact canClaim_of_not_full hc hidle ((isFull_iff n hs hp).mpr hroom)

theorem idle_newPool : Idle project repository newPool.shared := Or.inl rfl

theorem missingPointer_newPool : missingPointer newPool.shared.journal project repository = 1 :=
  rfl

/-- After one poll of a new service work can be claimed. -/
theorem poll_then_claim :
    ∃ s', Polls anyHost Codec.small false "P" "R" 1 newPool.shared s' ∧
      s'.journal.length + missingPointer s'.journal "P" "R" = 2 ∧
      CanClaim Codec.small false "P" "R" s' := by
  have hpolls : ∃ s', Polls anyHost Codec.small false "P" "R" 1 newPool.shared s' :=
    exists_polls Codec.small_roomy 1 idle_newPool (by decide)
  obtain ⟨s', hs'⟩ := hpolls
  obtain ⟨hlen, -, hclaim⟩ := polls_fill_journal 1 idle_newPool hs'
  exact ⟨s', hs', hlen, hclaim Codec.small_roomy (by decide)⟩

/-- After 4095 polls of a new service no call can claim work. -/
theorem polls_exhaust_journal :
    ∃ s', Polls anyHost Codec.small false "P" "R" 4095 newPool.shared s' ∧
      s'.journal.length + missingPointer s'.journal "P" "R" = 4096 ∧
      ¬ CanClaim Codec.small false "P" "R" s' := by
  have hpolls : ∃ s', Polls anyHost Codec.small false "P" "R" 4095 newPool.shared s' :=
    exists_polls Codec.small_roomy 4095 idle_newPool (by decide)
  obtain ⟨s', hs'⟩ := hpolls
  refine ⟨s', hs', (polls_length 4095 idle_newPool hs').2, ?_⟩
  intro hclaim
  have hroom := room_of_canClaim 4095 idle_newPool hs' hclaim
  rw [missingPointer_newPool] at hroom
  exact absurd hroom (by decide)

end Bound

end ProjectControl.Compact
