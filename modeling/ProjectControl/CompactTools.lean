import ProjectControl.CompactEffects

/-! Every tool is safe for a thread whose listed steps are. -/

set_option autoImplicit false

namespace ProjectControl.Compact

open Resumption Resumption.Spec

section Tools

variable {ι A : Type} {P : Spec ι (World A) Label} {i : ι} {N : NativeHost A} {c : Codec}
variable {K : Knowledge A} {parts : Part → Prop} {targets : Target → Prop}
variable (R : HostRules P i N c K parts targets)
variable {t : Target} {r u : Record} {part : Part} {name : PhaseName} {payload : Payload}
variable {key : Option Key}

include R

theorem HostRules.copies_stable (t : Target) (r u : Record) :
    P.Stable i (fun s => K.copy t r s ∧ K.copy t u s) :=
  (R.copy_stable t r).and (R.copy_stable t u)

omit R in
theorem triple_respond {Q : Response → World A → Prop} {B : World A → Prop} {response : Response}
    (hQ : P.Stable i (Q response)) (h : ∀ s, B s → Q response s) :
    P.Triple i B (respond c response) Q := by
  unfold respond
  split
  · exact triple_raise
  · exact triple_done hQ (fun s _ hb => h s hb)

/-- A native read keeps what is known of copies. -/
theorem triple_nativeRead {tool : Tool} {project repository : String} {arguments : Dict} :
    P.Triple i (fun s => K.copy t r s ∧ K.copy t u s)
      (serveRead N project repository tool arguments)
      (fun _ s => K.copy t r s ∧ K.copy t u s) := by
  refine triple_serveRead (R.copies_stable t r u) (fun _ => R.copies_stable t r u) ?_
  intro s v hs hb
  obtain ⟨h1, h2, h3⟩ := R.read ⟨tool, project, repository, arguments, none, none⟩ v hs rfl
  exact ⟨h1, h2, fun _ _ => ⟨h3 t r hb.1, h3 t u hb.2⟩⟩

theorem triple_observe :
    P.Triple i (fun s => K.copy t r s ∧ K.copy t u s) (observeRevision N t)
      (fun _ s => K.copy t r s ∧ K.copy t u s) := by
  refine triple_bind (triple_nativeRead R) (fun d => ?_)
  split
  · exact triple_raise
  · split
    · exact triple_done (R.copies_stable t r u) (fun _ _ h => h)
    · exact triple_raise

/-- What a thread knows once it holds the request of a phase. -/
def Asked (K : Knowledge A) (t : Target) (r : Record) (name : PhaseName) (payload : Payload)
    (out : (Key × ℕ) × Record) (s : World A) : Prop :=
  K.copy t r s ∧ K.merged t r out.2 s ∧ K.request t name payload out.1 s

theorem asked_stable (out : (Key × ℕ) × Record) :
    P.Stable i (Asked K t r name payload out) :=
  (R.copy_stable t r).and ((R.merged_stable t r out.2).and (R.request_stable t name payload out.1))

/-- The record that was read, with what it says about the phase. -/
def Latest (K : Knowledge A) (t : Target) (r u : Record) (name : PhaseName) (latest : Record)
    (s : World A) : Prop :=
  K.copy t r s ∧ K.copy t u s ∧ ∀ intent, latest.intent name = some intent →
    K.merged t r (u.merge latest) s ∧
      K.request t name intent.payload (intent.idempotencyKey, intent.expectedRevision) s

theorem latest_stable (latest : Record) : P.Stable i (Latest K t r u name latest) :=
  fun s s' hr h => ⟨R.copy_stable t r s s' hr h.1, R.copy_stable t u s s' hr h.2.1,
    fun intent hi => ⟨R.merged_stable t r _ s s' hr (h.2.2 intent hi).1,
      R.request_stable t name _ _ s s' hr (h.2.2 intent hi).2⟩⟩

theorem latest_of_holds {s : World A} {data : Record} (hs : P.inv s)
    (hb : K.copy t r s ∧ K.copy t u s) (hd : s.Holds t data) :
    Latest K t r u name data s :=
  ⟨hb.1, hb.2, fun _ hi => ⟨R.fresh hs hb.1 hb.2 hd hi, R.known hs hb.1 hd hi⟩⟩

theorem triple_stored {latest : Record} {intent : Intent} (hi : latest.intent name = some intent) :
    P.Triple i (Latest K t r u name latest) (storedRequest u latest payload intent)
      (Asked K t r name payload) := by
  unfold storedRequest
  split
  · exact triple_raise
  · rename_i hp
    refine triple_done (asked_stable R _) (fun s _ hl => ⟨hl.1, (hl.2.2 intent hi).1, ?_⟩)
    rw [← not_ne_iff.mp hp]
    exact (hl.2.2 intent hi).2

theorem triple_persistFor (hpart : parts part) (ha : Asks t r part name payload key)
    {key' : Key} {revision : ℕ} (hk : key' = defaultKey t name payload ∨ key = some key') :
    P.Triple i (fun s => K.copy t r s ∧ K.copy t u s)
      (storeIntent c (.persist t.handle name ⟨payload, key', revision, 0⟩) t name
        (persistIntent name ⟨payload, key', revision, 0⟩))
      (Latest K t r u name) := by
  refine triple_persistIntent R.refl (R.copies_stable t r u) (latest_stable R)
    (fun s old hs hb ho => latest_of_holds R hs hb ho) ?_
  intro s old hs hb hc ho hn
  obtain ⟨h1, h2, h3⟩ := R.persist hpart ha hs hb.1 hk hc ho hn
  exact ⟨h1, h2, latest_of_holds R h1 ⟨h3 r hb.1, h3 u hb.2⟩ (World.record_put ho _)⟩

theorem triple_phaseIntentFor (hpart : parts part) (ha : Asks t r part name payload key)
    {revision : Option ℕ} {key' : Option Key} (hk : key' = none ∨ key' = key) :
    P.Triple i (fun s => K.copy t r s ∧ K.copy t u s)
      (phaseIntent N c t u name payload revision key') (Asked K t r name payload) := by
  unfold phaseIntent
  split
  · exact triple_raise
  · refine triple_bind (M := Latest K t r u name) (triple_storeGet R.refl
      (R.copies_stable t r u) (latest_stable R)
      (fun s latest hs hb ho => latest_of_holds R hs hb ho)) (fun latest => ?_)
    dsimp only
    split
    · rename_i prior hprior
      exact triple_stored R hprior
    · refine triple_pre (B := fun s => K.copy t r s ∧ K.copy t u s) ?_
        (fun s _ hl => ⟨hl.1, hl.2.1⟩)
      refine triple_bind (M := fun _ s => K.copy t r s ∧ K.copy t u s) ?_ (fun n => ?_)
      · cases revision with
        | some n => exact triple_done (R.copies_stable t r u) (fun _ _ h => h)
        | none => exact triple_observe R
      · refine triple_bind (triple_persistFor R hpart ha ?_) (fun current => ?_)
        · rcases hk with rfl | rfl
          · exact Or.inl rfl
          · cases key' with
            | none => exact Or.inl rfl
            | some k => exact Or.inr rfl
        · split
          · rename_i stored hstored
            exact triple_stored R hstored
          · exact triple_fail

/-- What a thread knows after a request was answered. -/
def Answered (K : Knowledge A) (t : Target) (r : Record) (payload : Payload)
    (out : Dict × Record) (s : World A) : Prop :=
  K.copy t r s ∧ K.merged t r out.2 s ∧ K.answer payload out.1 s

theorem answered_stable (out : Dict × Record) : P.Stable i (Answered K t r payload out) :=
  (R.copy_stable t r).and ((R.merged_stable t r out.2).and (R.answer_stable payload out.1))

theorem triple_sendFor (hpart : parts part) (ha : Asks t r part name payload key)
    (out : (Key × ℕ) × Record) :
    P.Triple i (Asked K t r name payload out)
      (invokeMutation N out.2 payload out.1.1 out.1.2)
      (fun d s => Answered K t r payload (d, out.2) s) := by
  refine triple_withScope (fun project repository => ?_)
  refine triple_serveMutation (asked_stable R out) (fun d => answered_stable R (d, out.2)) ?_
  intro s v hs hb hc
  obtain ⟨h1, h2, h3, h4, h5⟩ := R.send (v := v) hpart ha hs hb.1 hb.2.2 hc
  exact ⟨h1, h2, fun d hd => ⟨h3 r hb.1, h4 _ _ hb.2.1, h5 d hd⟩⟩

theorem triple_refreshFor (hpart : parts part) (ha : Asks t r part name payload key)
    {request : Key × ℕ} :
    P.Triple i (fun s => K.copy t r s ∧ K.copy t u s)
      (refreshPhaseIntent N c t u name payload request)
      (fun out s => K.copy t r s ∧ K.copy t out s) := by
  refine triple_bind (triple_observe R) (fun revision => ?_)
  refine triple_bind (M := fun current s => K.copy t r s ∧ K.copy t (u.merge current) s)
    (triple_refreshIntent R.refl (R.copies_stable t r u) (fun current => R.copies_stable t r _)
      (fun s old hs hb ho => ⟨hb.1, R.merge hs hb.2 ho⟩) ?_) (fun current => ?_)
  · intro s old intent hs hb hc ho hi hp hne
    obtain ⟨h1, h2, h3⟩ := R.refresh hpart ha hs hb.1 hc ho hi hp hne
    exact ⟨h1, h2, h3 r hb.1, R.merge h1 (h3 u hb.2) (World.record_put ho _)⟩
  · exact triple_done (R.copies_stable t r _) (fun _ _ h => h)

/-- `_invoke_phase` for a listed request. -/
theorem triple_phase (hpart : parts part) (ha : Asks t r part name payload key)
    {revision : Option ℕ} :
    P.Triple i (K.copy t r) (invokePhase N c t r name payload revision key)
      (Answered K t r payload) := by
  unfold invokePhase
  refine triple_bind (triple_pre (triple_phaseIntentFor (u := r) R hpart ha (Or.inr rfl))
    (fun s _ h => ⟨h, h⟩)) (fun out => ?_)
  refine triple_bind (triple_sendFor R hpart ha out) (fun result => ?_)
  dsimp only
  split
  · refine triple_bind (triple_pre (triple_refreshFor R hpart ha)
      (fun s _ h => ⟨h.1, R.merged_copy h.2.1⟩)) (fun u => ?_)
    refine triple_bind (triple_phaseIntentFor (u := u) R hpart ha (Or.inl rfl)) (fun out => ?_)
    refine triple_bind (triple_sendFor R hpart ha out) (fun result => ?_)
    exact triple_done (answered_stable R _) (fun _ _ h => h)
  · exact triple_done (answered_stable R _) (fun _ _ h => h)

/-- A stage that did not answer returns a copy of the record. -/
def Staged (K : Knowledge A) (t : Target) (out : Response ⊕ Record) (s : World A) : Prop :=
  ∀ r, out = .inr r → K.copy t r s

theorem staged_stable (out : Response ⊕ Record) : P.Stable i (Staged K t out) :=
  fun s s' hr h r ho => R.copy_stable t r s s' hr (h r ho)

theorem triple_answered {B : World A → Prop} {response : Response} :
    P.Triple i B (.done (.inl response) : Host A (Response ⊕ Record)) (Staged K t) :=
  triple_done (staged_stable R _) (fun _ _ _ r hr => by cases hr)

theorem triple_staged : P.Triple i (K.copy t r)
    (.done (.inr r) : Host A (Response ⊕ Record)) (Staged K t) :=
  triple_done (staged_stable R _) (fun _ _ h r hr => by cases hr; exact h)

theorem triple_answer {B : World A → Prop} {response : Response} :
    P.Triple i B (do
      let response ← respond c response
      .done (.inl response) : Host A (Response ⊕ Record)) (Staged K t) :=
  triple_bind (M := fun _ _ => True) (triple_respond stable_true (fun _ _ => trivial))
    (fun _ => triple_answered R)

omit R in
theorem triple_finished {α : Type} {B : World A → Prop} {a : α} :
    P.Triple i B (.done a : Host A α) (fun _ _ => True) :=
  triple_done stable_true (fun _ _ _ => trivial)

omit R in
theorem triple_responded {B : World A → Prop} {response : Response} :
    P.Triple i B (respond c response) (fun _ _ => True) :=
  triple_respond stable_true (fun _ _ => trivial)

omit R in
theorem triple_andStage {B : World A → Prop} {stage : Host A (Response ⊕ Record)}
    {rest : Record → Host A Response} (hs : P.Triple i B stage (Staged K t))
    (hr : ∀ r, P.Triple i (K.copy t r) (rest r) (fun _ _ => True)) :
    P.Triple i B (andStage stage rest) (fun _ _ => True) := by
  refine triple_bind hs (fun out => ?_)
  cases out with
  | inl response => exact triple_finished
  | inr r => exact triple_pre (hr r) (fun s _ h => h r rfl)

theorem triple_whenPhase {phase : Phase} {stage : Record → Host A (Response ⊕ Record)}
    (h : r.phase = some phase → P.Triple i (K.copy t r) (stage r) (Staged K t)) :
    P.Triple i (K.copy t r) (whenPhase phase stage r) (Staged K t) := by
  unfold whenPhase
  split
  · rename_i hp
    exact h hp
  · exact triple_staged R

/-- An update of a listed kind, from the copies that its step holds. -/
theorem triple_updateFor (hpart : parts part) {entered : Option Phase} {changes : Record}
    {B : World A → Prop} (hB : P.Stable i B)
    (h : ∀ s, P.inv s → B s → K.copy t r s ∧ K.copy t u s ∧
      Writes c t r u (fun p d => K.answer p d s) (K.merged t r u s) part entered changes) :
    P.Triple i B (storeUpdate c t entered changes)
      (fun _ s => K.copy t (u.merge changes) s) := by
  refine triple_storeUpdate R.refl hB (fun _ => R.copy_stable t _) ?_
  intro s old hs hb hc ho
  obtain ⟨h1, h2, h3⟩ := h s hs hb
  exact R.update hpart h3 hs h1 h2 hc ho

theorem triple_inspect {tool : Tool} {project repository : String} {arguments : Dict} :
    P.Triple i (K.copy t r) (serveRead N project repository tool arguments)
      (fun _ s => K.copy t r s) :=
  triple_pre (triple_post (triple_nativeRead (u := r) R) (fun _ _ h => h.1)) (fun _ _ h => ⟨h, h⟩)

theorem triple_resumeActive (hpart : parts .resume) :
    P.Triple i (K.copy t r) (resumeActive N c t r) (fun _ _ => True) := by
  unfold resumeActive
  split
  · rename_i attemptId leaseId taskId runId assignmentId planRevisionId ha hl ht hn hs hr
    split
    · exact triple_finished
    · refine triple_bind (triple_inspect R) (fun inspected => ?_)
      dsimp only
      split
      · exact triple_finished
      · refine triple_bind (triple_phase R hpart (.resume attemptId leaseId planRevisionId
          taskId runId assignmentId ha hl hr ht hn hs)) (fun out => ?_)
        split
        · exact triple_finished
        · split
          · exact triple_finished
          · rename_i nextLease hnext
            refine triple_bind (triple_updateFor (r := r) (u := r) R hpart
              (answered_stable R out) (fun s _ hb => ⟨hb.1, hb.1, ?_⟩)) (fun _ => triple_finished)
            exact .resumed attemptId leaseId planRevisionId taskId runId assignmentId nextLease
              inspected out.1 ha hl hb.2.2 hnext
  · exact triple_finished

theorem triple_heartbeatActive (hpart : parts .renew)
    (hp : r.phase = some .active ∨ r.phase = some .contextPending) :
    P.Triple i (K.copy t r) (heartbeatActive N c t r) (fun _ _ => True) := by
  unfold heartbeatActive
  split
  · rename_i attemptId leaseId planRevisionId ha hl hr
    refine triple_bind (triple_phase R hpart (.heartbeat attemptId leaseId planRevisionId
      hp ha hl hr)) (fun out => ?_)
    dsimp only
    split
    · exact triple_finished
    · split
      · exact triple_finished
      · rename_i nextLease hnext
        refine triple_bind (triple_updateFor (r := r) (u := r) R hpart
          (answered_stable R out) (fun s _ hb => ⟨hb.1, hb.1, ?_⟩)) (fun _ => triple_finished)
        exact .renewed attemptId leaseId planRevisionId nextLease out.1 hp ha hl hb.2.2 hnext
  · exact triple_finished

theorem triple_noteRenewal (hpart : parts .renew) {reason : String} :
    P.Triple i (fun _ => True) (noteRenewal c t reason) (fun _ _ => True) := by
  refine triple_bind (M := fun _ _ => True) (triple_storeUpdate R.refl stable_true
    (fun _ => stable_true) (fun s old hs _ hc ho => ?_)) (fun _ => triple_finished)
  obtain ⟨h1, h2⟩ := R.note hpart hs hc ho
  exact ⟨h1, h2, trivial⟩

theorem triple_renewalPass (ht : targets t) (hpart : parts .renew) :
    P.Triple i (fun _ => True) (renewalPass N c t) (fun _ _ => True) := by
  refine triple_tryCatch ?_ (fun _ => triple_tryCatch (triple_noteRenewal R hpart)
    (fun _ => triple_finished))
  refine triple_bind (M := fun data => K.copy t data) (triple_storeGet R.refl stable_true
    (fun data => R.copy_stable t data) (fun s data hs _ ho => R.learn ht hs ho)) (fun data => ?_)
  split
  · rename_i hp
    refine triple_bind (triple_heartbeatActive R hpart hp) (fun out => ?_)
    split
    · exact triple_noteRenewal R hpart
    · exact triple_finished
  · exact triple_finished

theorem triple_verifyAll (hpart : parts .verify) (requirements : List String)
    (results : List (String × Dict)) :
    P.Triple i (K.copy t r) (verifyAll N c t r requirements results) (fun _ s => K.copy t r s) := by
  induction requirements generalizing results with
  | nil => exact triple_respond (R.copy_stable t r) (fun _ h => h)
  | cons requirementId rest ih =>
    refine triple_bind (triple_phase R hpart (.verify requirementId)) (fun out => ?_)
    refine triple_pre (B := K.copy t r) ?_ (fun _ _ h => h.1)
    dsimp only
    split
    · exact triple_done (R.copy_stable t r) (fun _ _ h => h)
    · exact ih _

theorem triple_runGates (hpart : parts .verify) {requested : Option (List String)} :
    P.Triple i (K.copy t r) (runGates N c t r requested) (fun _ s => K.copy t r s) := by
  unfold runGates
  dsimp only
  split
  · exact triple_verifyAll R hpart _ _
  · exact triple_raise

theorem triple_invoke {tool : Tool} {arguments : Dict} :
    P.Triple i (K.copy t r) (invoke N tool r arguments) (fun _ s => K.copy t r s) :=
  triple_withScope (fun _ _ => triple_inspect R)

theorem triple_overwriteFor (hpart : parts .prepare) {entered : Option Phase} {changes : Record}
    {B : World A → Prop} (hB : P.Stable i B) (ho : Overwrites r u entered changes)
    (h : ∀ s, B s → K.copy t r s ∧ K.merged t r u s) :
    P.Triple i B (storeUpdate c t entered changes) (fun _ s => K.copy t changes s) := by
  refine triple_storeUpdate R.refl hB (fun _ => R.copy_stable t _) ?_
  intro s old hs hb hc hold
  exact R.overwrite hpart ho hs (h s hb).1 (h s hb).2 hc hold

theorem triple_createWorkspace (hpart : parts .prepare)
    (hp : r.phase = some .workspacePending) :
    P.Triple i (K.copy t r) (createWorkspace N c t r) (Staged K t) := by
  unfold createWorkspace
  refine triple_bind (triple_need (fun _ => R.copy_stable t r) (fun _ _ _ _ h => h)) (fun _ => ?_)
  refine triple_bind (triple_need (fun _ => R.copy_stable t r) (fun _ _ _ _ h => h)) (fun _ => ?_)
  refine triple_bind (triple_need (fun _ => R.copy_stable t r) (fun _ _ _ _ h => h)) (fun _ => ?_)
  refine triple_bind (triple_phase R hpart (.createWorkspace _ _ _ hp)) (fun out => ?_)
  dsimp only
  split
  · exact triple_answered R
  · exact triple_bind (triple_overwriteFor R hpart (answered_stable R out)
      (.workspace out.1 hp) (fun s hb => ⟨hb.1, hb.2.1⟩)) (fun _ => triple_staged R)

theorem triple_dispatchAttempt (hpart : parts .prepare)
    (hp : r.phase = some .dispatchPending) :
    P.Triple i (K.copy t r) (dispatchAttempt N c t r) (Staged K t) := by
  unfold dispatchAttempt
  refine triple_bind (triple_need (fun _ => R.copy_stable t r) (fun _ _ _ _ h => h)) (fun _ => ?_)
  refine triple_bind (triple_need (fun _ => R.copy_stable t r) (fun _ _ _ _ h => h)) (fun _ => ?_)
  refine triple_bind (triple_need (fun _ => R.copy_stable t r) (fun _ _ _ _ h => h)) (fun _ => ?_)
  refine triple_bind (triple_phase R hpart (.dispatchAttempt _ _ _ hp)) (fun out => ?_)
  dsimp only
  split
  · exact triple_answered R
  · refine triple_bind (triple_ofExcept (fun _ => answered_stable R out)
      (fun _ _ _ _ h => h)) (fun attemptId => ?_)
    refine triple_bind (triple_ofExcept (fun _ => answered_stable R out)
      (fun _ _ _ _ h => h)) (fun leaseId => ?_)
    split
    · exact triple_bind (triple_overwriteFor R hpart (answered_stable R out)
        (.dispatched _ _ out.1 hp) (fun s hb => ⟨hb.1, hb.2.1⟩)) (fun _ => triple_staged R)
    · exact triple_raise

theorem triple_prepareCapsule :
    P.Triple i (K.copy t r) (prepareCapsule : Host A (Dict × List String))
      (fun _ s => K.copy t r s) := by
  refine triple_atomic (R.copy_stable t r) (fun _ => R.copy_stable t r) (fun s v hs hb _ => ?_)
  cases v.capsule with
  | ok capsule => exact ⟨hs, R.refl s, fun _ _ => hb⟩
  | error code => exact ⟨hs, R.refl s, fun _ _ => hb⟩

theorem triple_buildContext (hpart : parts .prepare) (hp : r.phase = some .contextPending) :
    P.Triple i (K.copy t r) (buildContext N c t r) (Staged K t) := by
  unfold buildContext
  refine triple_bind (triple_need (fun _ => R.copy_stable t r) (fun _ _ _ _ h => h)) (fun _ => ?_)
  refine triple_bind (triple_need (fun _ => R.copy_stable t r) (fun _ _ _ _ h => h)) (fun _ => ?_)
  refine triple_bind (triple_invoke R) (fun context => ?_)
  split
  · exact triple_answered R
  · split
    · exact triple_raise
    · refine triple_bind (triple_prepareCapsule R) (fun capsule => ?_)
      refine triple_bind (M := fun data => K.copy t data) (triple_storeUpdate R.refl
        (R.copy_stable t r) (fun data => R.copy_stable t data) ?_) (fun data => triple_staged R)
      intro s old hs hb hc ho
      obtain ⟨h1, h2, h3⟩ := R.update hpart (.context capsule.1 capsule.2 hp) hs hb hb hc ho
      exact ⟨h1, h2, R.relearn h1 h3 (World.record_put ho _)⟩

theorem triple_selectFor (hpart : parts .prepare) {fn : Record → Except Err (Option Record)}
    (hfn : ∀ old new, fn old = .ok (some new) → old.phase = some .selecting ∧
      (new = { old with phase := some .noWork } ∨ ∃ requested candidate sel,
        new = old.merge (preparedRecord t requested candidate sel))) :
    P.Triple i (K.copy t r) (storeAtomic c (.select t.handle) t fn)
      (fun data s => K.copy t data s) := by
  refine triple_storeAtomic R.refl (R.copy_stable t r) (fun data => R.copy_stable t data)
    (fun s old hs hb _ ho _ => R.relearn hs hb ho) ?_
  intro s old new hs hb hc ho hf
  obtain ⟨hp, hn⟩ := hfn old new hf
  exact R.select hpart hs hb hc ho hp hn

omit R in
theorem setNoWork_some {old new : Record} (h : setNoWork old = .ok (some new)) :
    old.phase = some .selecting ∧ new = { old with phase := some .noWork } := by
  unfold setNoWork at h
  split at h
  · cases h
  · rename_i hp
    cases h
    exact ⟨not_ne_iff.mp hp, rfl⟩

omit R in
theorem saveSelection_some {prepared old new : Record}
    (h : saveSelection prepared old = .ok (some new)) :
    old.phase = some .selecting ∧ new = old.merge prepared := by
  unfold saveSelection at h
  split at h
  · cases h
  · rename_i hp
    cases h
    exact ⟨not_ne_iff.mp hp, rfl⟩

theorem triple_selectWork (hpart : parts .prepare) {requested : Request} :
    P.Triple i (K.copy t r) (selectWork N c t requested r) (Staged K t) := by
  unfold selectWork
  refine triple_bind (triple_invoke R) (fun choice => ?_)
  split
  · exact triple_answered R
  · split
    · refine triple_bind (triple_selectFor R hpart (fun old new h => ?_)) (fun data => ?_)
      · obtain ⟨h1, h2⟩ := setNoWork_some h
        exact ⟨h1, Or.inl h2⟩
      · split
        · exact triple_answer R
        · exact triple_raise
    · split
      · exact triple_raise
      · refine triple_bind (triple_ofExcept (fun _ => R.copy_stable t r)
          (fun _ _ _ _ h => h)) (fun sel => ?_)
        refine triple_bind (triple_selectFor R hpart (fun old new h => ?_)) (fun data => ?_)
        · obtain ⟨h1, h2⟩ := saveSelection_some h
          exact ⟨h1, Or.inr ⟨_, _, _, h2⟩⟩
        · split
          · exact triple_answered R
          · exact triple_staged R
    · exact triple_raise

theorem triple_resumeTask (hpart : parts .resume) :
    P.Triple i (K.copy t r) (resumeTask N c t r) (fun _ _ => True) := by
  refine triple_bind (triple_resumeActive R hpart) (fun out => ?_)
  split
  · exact triple_finished
  · exact triple_bind (M := fun _ _ => True) (triple_storeGet R.refl stable_true
      (fun _ => stable_true) (fun _ _ _ _ _ => trivial)) (fun _ => triple_responded)

theorem triple_answerTask (hpart : parts .resume) {isNew : Bool} :
    P.Triple i (K.copy t r) (answerTask N c t isNew r) (fun _ _ => True) := by
  unfold answerTask
  split
  · exact triple_responded
  · split
    · exact triple_finished
    · split
      · exact triple_responded
      · exact triple_resumeTask R hpart

/-- What `next_task` still does once there is a workspace. -/
theorem triple_dispatchStages (hprep : parts .prepare) (hres : parts .resume) {isNew : Bool} :
    P.Triple i (K.copy t r)
      (andStage (whenPhase .dispatchPending (dispatchAttempt N c t) r) fun record =>
        andStage (whenPhase .contextPending (buildContext N c t) record) fun record =>
        answerTask N c t isNew record) (fun _ _ => True) := by
  refine triple_andStage (triple_whenPhase R (triple_dispatchAttempt R hprep)) (fun r => ?_)
  refine triple_andStage (triple_whenPhase R (triple_buildContext R hprep)) (fun r => ?_)
  exact triple_answerTask R hres

theorem triple_advanceTask (hprep : parts .prepare) (hres : parts .resume) {requested : Request}
    {isNew : Bool} :
    P.Triple i (K.copy t r) (advanceTask N c t requested isNew r) (fun _ _ => True) := by
  unfold advanceTask
  split
  · exact triple_resumeTask R hres
  · split
    · exact triple_responded
    · refine triple_andStage (triple_whenPhase R (fun _ => triple_selectWork R hprep))
        (fun r => ?_)
      refine triple_andStage (triple_whenPhase R (triple_createWorkspace R hprep)) (fun r => ?_)
      exact triple_dispatchStages R hprep hres

theorem triple_reserveWorkflow {project repository : String} {requested : Request}
    (ht : ∀ h, targets ⟨h, project, repository⟩) (hpart : parts .prepare) :
    P.Triple i (fun _ => True) (reserveWorkflow c project repository requested)
      (fun out s => K.copy ⟨out.1, project, repository⟩ out.2.1 s) := by
  refine triple_journal R.refl stable_true (fun out => R.copy_stable _ _) ?_
  rintro s v ⟨handle, data, isNew⟩ j hs - hc hen hf
  have hfree : s.journal.rows v.token = [] := by simpa [Journal.fresh] using hen
  rcases Store.reserveWorkflow_ok hf with ⟨-, rfl, hcur⟩ | ⟨-, rfl, rfl, rfl, hcur⟩
  · exact ⟨hs, R.refl s, R.learn (ht _) hs (Store.currentRecord_some hcur).2.1⟩
  · obtain ⟨h1, h2⟩ := R.reserve hpart hs hc hfree hcur
    exact ⟨h1, h2, R.learn (ht _) h1 (Journal.record_appendReservation_self hfree)⟩

theorem triple_reserveReview (hpart : parts .prepare) {project repository : String}
    {candidate : ReviewCandidate} :
    P.Triple i (fun _ => True) (reserveReview c project repository candidate)
      (fun _ _ => True) := by
  refine triple_journal R.refl stable_true (fun _ => stable_true) ?_
  rintro s v ⟨handle, data, isNew⟩ j hs - hc hen hf
  have hfree : s.journal.rows v.token = [] := by simpa [Journal.fresh] using hen
  rcases Store.reserveReview_ok hf with rfl | rfl
  · exact ⟨hs, R.refl s, trivial⟩
  · obtain ⟨h1, h2⟩ := R.review candidate hpart hs hc hfree
    exact ⟨h1, h2, trivial⟩

omit R in
theorem triple_orAttention {B : World A → Prop} {handle : Option Handle} {failed : String}
    {body : Host A Response} (h : P.Triple i B body (fun _ _ => True)) :
    P.Triple i B (orAttention handle failed body) (fun _ _ => True) := by
  refine triple_tryCatch h (fun e => ?_)
  cases e with
  | workflow code => exact triple_finished
  | other => exact triple_finished

theorem triple_pendingReview {mutator : Bool} {project repository : String}
    {requested : Request} :
    P.Triple i (fun _ => True) (pendingReview c mutator project repository requested)
      (fun _ _ => True) := by
  unfold pendingReview
  split
  · refine triple_bind (M := fun _ _ => True) (triple_read R.refl stable_true
      (fun _ => stable_true) (fun _ _ _ _ _ _ => trivial)) (fun out => ?_)
    split
    · refine triple_atomic stable_true (fun _ => stable_true) (fun s v hs _ _ => ?_)
      cases v.review with
      | ok candidate => exact ⟨hs, R.refl s, fun _ _ => trivial⟩
      | error code => exact ⟨hs, R.refl s, fun _ _ => trivial⟩
    · exact triple_finished
  · exact triple_finished

theorem triple_nextTask {project repository : String}
    (ht : ∀ h, targets ⟨h, project, repository⟩) (hprep : parts .prepare) (hres : parts .resume)
    {mutator : Bool} {requested : Request} :
    P.Triple i (fun _ => True) (nextTask N c mutator project repository requested)
      (fun _ _ => True) := by
  refine triple_orAttention (triple_bind (triple_pendingReview R) (fun review => ?_))
  split
  · exact triple_bind (triple_reserveReview R hprep) (fun _ => triple_responded)
  · refine triple_bind (triple_reserveWorkflow R ht hprep) (fun out => ?_)
    exact triple_pre (triple_advanceTask R hprep hres) (fun s _ h => R.scope h)

theorem triple_readScoped {handle : Handle} (ht : ∀ p q, targets ⟨handle, p, q⟩)
    {B : World A → Prop} (hB : P.Stable i B) :
    P.Triple i B (resolveHandle c handle)
      (fun out s => out.1.handle = handle ∧ K.copy out.1 out.2 s) := by
  refine triple_resolveHandle R.refl hB
    (fun out => (stable_const _).and (R.copy_stable out.1 out.2)) ?_
  intro s p q data hs _ ho
  exact ⟨rfl, R.scope (t := ⟨handle, p, q⟩) (R.learn (ht p q) hs ho)⟩

theorem triple_recordFinish (hver : parts .verify) (hfin : parts .finish)
    (hp : r.phase = some .active) (hm : r.mode ≠ some .review) {action : FinishAction}
    {disposition note reason : Option String} :
    P.Triple i (K.copy t r) (recordFinish N c t r action disposition note reason)
      (Staged K t) := by
  unfold recordFinish
  split
  · exact triple_raise
  · refine triple_bind (M := fun _ s => K.copy t r s) ?_ (fun gates => ?_)
    · unfold finishGates
      split
      · exact triple_runGates R hver
      · exact triple_done (R.copy_stable t r) (fun _ _ h => h)
    · split
      · exact triple_answered R
      · refine triple_bind (M := fun data s => K.copy t r s ∧ K.copy t (t.scoped data) s)
          (triple_storeGet R.refl (R.copy_stable t r) (fun data => R.copies_stable t r _)
            (fun s data hs hb ho => ⟨hb, R.scope (R.relearn hs hb ho)⟩)) (fun data => ?_)
        refine triple_bind (M := fun _ s => K.copy t r s ∧ K.copy t (t.scoped data) s)
          (triple_read R.refl (R.copies_stable t r _) (fun _ => R.copies_stable t r _)
            (fun _ _ _ _ h _ => h)) (fun token => ?_)
        refine triple_bind (triple_updateFor (r := r) (u := t.scoped data) R hfin
          (R.copies_stable t r _) (fun s _ hb => ⟨hb.1, hb.2, ?_⟩)) (fun _ => triple_staged R)
        exact .finish action note reason token hp hm

omit R in
theorem checkFinish_cases (record : Record) (action : FinishAction) (note reason : Option String) :
    (∃ code, checkFinish record action note reason = (raise code : Host A (Response ⊕ Record))) ∨
      (checkFinish record action note reason = (.done (.inr record) : Host A _)) := by
  unfold checkFinish
  split
  · exact Or.inl ⟨_, rfl⟩
  · split
    · exact Or.inl ⟨_, rfl⟩
    · split
      · exact Or.inl ⟨_, rfl⟩
      · exact Or.inr rfl

theorem triple_checkFinish {action : FinishAction} {note reason : Option String} :
    P.Triple i (K.copy t r) (checkFinish r action note reason : Host A _) (Staged K t) := by
  rcases checkFinish_cases (A := A) r action note reason with ⟨code, h⟩ | h
  · rw [h]
    exact triple_raise
  · rw [h]
    exact triple_staged R

theorem triple_handBack (hfin : parts .finish) (hp : r.phase = some .handbackPending) :
    P.Triple i (K.copy t r) (handBack N c t r) (Staged K t) := by
  unfold handBack
  refine triple_bind (triple_phase R hfin (.handback hp)) (fun out => ?_)
  dsimp only
  split
  · exact triple_answered R
  · rename_i hatt
    refine triple_bind (M := fun proof s => validateHandoffProof c out.1 out.2 = .ok proof ∧
      Answered K t r (handbackPayload r) out s) (triple_ofExcept
        (fun proof => (stable_const _).and (answered_stable R out))
        (fun proof s hv _ h => ⟨hv, h⟩)) (fun proof => ?_)
    refine triple_bind (triple_updateFor (r := r) (u := out.2) R hfin
      ((stable_const _).and (answered_stable R out)) (fun s _ hb => ?_)) (fun _ => triple_staged R)
    exact ⟨hb.2.1, R.merged_copy hb.2.2.1,
      .handedBack out.1 proof hp hb.2.2.2 (by simpa using hatt) hb.2.2.1 hb.1⟩

theorem triple_reportOutcome (hfin : parts .finish) (hp : r.phase = some .reportPending) :
    P.Triple i (K.copy t r) (reportOutcome N c t r) (Staged K t) := by
  unfold reportOutcome
  refine triple_bind (triple_phase R hfin (.report hp _)) (fun out => ?_)
  dsimp only
  split
  · exact triple_answered R
  · split
    · exact triple_answered R
    · rename_i candidateId _
      refine triple_bind (triple_updateFor (r := r) (u := r) R hfin (answered_stable R out)
        (fun s _ hb => ⟨hb.1, hb.1, .reported out.1 candidateId hp rfl⟩)) (fun _ => triple_answer R)

theorem triple_releaseAttempt (hfin : parts .finish) (hp : r.phase = some .releasePending) :
    P.Triple i (K.copy t r) (releaseAttempt N c t r) (Staged K t) := by
  unfold releaseAttempt
  refine triple_bind (triple_phase R hfin (.release hp)) (fun out => ?_)
  dsimp only
  split
  · exact triple_answered R
  · exact triple_bind (triple_updateFor (r := r) (u := r) R hfin (answered_stable R out)
      (fun s _ hb => ⟨hb.1, hb.1, .released out.1 hp rfl⟩)) (fun _ => triple_answer R)

theorem triple_finishStages (hfin : parts .finish) {B : World A → Prop}
    {recorded : Host A (Response ⊕ Record)} (h : P.Triple i B recorded (Staged K t)) :
    P.Triple i B (finishRecorded.finish N c t recorded) (fun _ _ => True) := by
  refine triple_andStage h (fun r => ?_)
  refine triple_andStage (triple_whenPhase R (triple_handBack R hfin)) (fun r => ?_)
  refine triple_andStage (triple_whenPhase R (triple_reportOutcome R hfin)) (fun r => ?_)
  exact triple_andStage (triple_whenPhase R (triple_releaseAttempt R hfin))
    (fun r => triple_finished)

theorem triple_finishRecorded (hver : parts .verify) (hfin : parts .finish)
    {action : FinishAction} {disposition note reason : Option String} :
    P.Triple i (K.copy t r) (finishRecorded N c t r action disposition note reason)
      (fun _ _ => True) := by
  unfold finishRecorded
  split
  · exact triple_raise
  · rename_i hm
    split
    · exact triple_responded
    · exact triple_responded
    · exact triple_responded
    · exact triple_responded
    · exact triple_responded
    · rename_i hp
      exact triple_finishStages R hfin (triple_recordFinish R hver hfin hp hm)
    · exact triple_finishStages R hfin (triple_checkFinish R)
    · exact triple_finishStages R hfin (triple_checkFinish R)
    · exact triple_finishStages R hfin (triple_checkFinish R)
    · exact triple_raise

omit R in
theorem triple_checkTexts {B : World A → Prop} {note reason : Option String} :
    P.Triple i B (checkTexts c note reason : Host A Unit) (fun _ _ => True) := by
  unfold checkTexts
  split
  · exact triple_raise
  · split
    · exact triple_raise
    · exact triple_finished

theorem triple_finishAuthoring {handle : Handle} (ht : ∀ p q, targets ⟨handle, p, q⟩)
    (hver : parts .verify) (hfin : parts .finish) {B : World A → Prop} {action : FinishAction}
    {disposition note reason : Option String} :
    P.Triple i B (finishAuthoring N c handle action disposition note reason)
      (fun _ _ => True) := by
  refine triple_orAttention (triple_bind triple_checkTexts (fun _ => ?_))
  refine triple_bind (triple_readScoped R ht stable_true) (fun out => ?_)
  exact triple_pre (triple_finishRecorded R hver hfin) (fun s _ h => h.2)

theorem triple_replayOperation (hpart : parts .coordinate) {action : CoordinateAction}
    {result : Dict} (hc : checkCoordinate action r = .ok ()) :
    P.Triple i (K.copy t r) (replayOperation c t action r result) (fun _ _ => True) := by
  unfold replayOperation
  split
  · rename_i ha
    rw [ha.1] at hc
    exact triple_bind (triple_updateFor (r := r) (u := r) R hpart (R.copy_stable t r)
      (fun s _ hb => ⟨hb, hb, .recovered result hc⟩)) (fun _ => triple_responded)
  · split
    · rename_i ha
      rw [ha] at hc
      dsimp only
      split
      · exact triple_bind (triple_updateFor (r := r) (u := r) R hpart (R.copy_stable t r)
          (fun s _ hb => ⟨hb, hb, .integrated result hc⟩)) (fun _ => triple_responded)
      · exact triple_responded
    · exact triple_responded

omit R in
theorem triple_coordinateAnswer {B : World A → Prop} {action : CoordinateAction} {result : Dict} :
    P.Triple i B (coordinateAnswer c t action r result) (fun _ _ => True) := by
  unfold coordinateAnswer
  split
  · exact triple_responded
  · split
    · exact triple_finished
    · exact triple_responded

theorem triple_sendOperation (hpart : parts .coordinate) {action : CoordinateAction}
    {fields : Dict} (hc : checkCoordinate action r = .ok ())
    (hp : coordinateArguments t.handle action fields r = .ok payload) :
    P.Triple i (K.copy t r) (sendOperation N c t action fields r payload) (fun _ _ => True) := by
  unfold sendOperation
  refine triple_bind (triple_phase R hpart (.coordinate action fields payload hc hp))
    (fun out => ?_)
  dsimp only
  split
  · exact triple_finished
  · refine triple_bind (M := fun _ s => K.copy t r s) (triple_pre (B := K.copy t r)
      (triple_storeGet R.refl (R.copy_stable t r) (fun _ => R.copy_stable t r)
        (fun _ _ _ h _ => h)) (fun _ _ h => h.1)) (fun current => ?_)
    split
    · exact triple_raise
    · refine triple_bind (triple_updateFor (r := r) (u := r) R hpart (R.copy_stable t r)
        (fun s _ hb => ⟨hb, hb, .pending _⟩)) (fun _ => ?_)
      split
      · exact triple_raise
      · -- the copy with the pending operation serves for the second update
        refine triple_bind (triple_updateFor (r := r.merge { operations := _ })
          (u := r.merge { operations := _ }) R hpart (R.copy_stable t _)
          (fun s _ hb => ⟨hb, hb, ?_⟩)) (fun _ => triple_coordinateAnswer)
        exact .coordinated action out.1 _ hc

theorem triple_executeCoordinateAction (hpart : parts .coordinate) {action : CoordinateAction}
    {fields : Dict} (hc : checkCoordinate action r = .ok ()) :
    P.Triple i (K.copy t r) (executeCoordinateAction N c t action fields r)
      (fun _ _ => True) := by
  refine triple_bind (M := fun payload s =>
    coordinateArguments t.handle action fields r = .ok payload ∧ K.copy t r s)
    (triple_ofExcept (fun _ => (stable_const _).and (R.copy_stable t r))
      (fun _ _ hp _ h => ⟨hp, h⟩)) (fun payload => ?_)
  intro s hs hb
  obtain ⟨hp, hb⟩ := hb
  split
  · exact triple_replayOperation R hpart hc s hs hb
  · exact triple_sendOperation R hpart hc hp s hs hb

omit R in
theorem triple_bindRequiredGates {B : World A → Prop} (hB : P.Stable i B) {handle : Handle}
    {fields : Dict} :
    P.Triple i B (bindRequiredGates c handle fields r) (fun _ _ => True) := by
  refine triple_bind (triple_ofExcept (fun _ => hB) (fun _ _ _ _ h => h)) (fun requested => ?_)
  dsimp only
  split
  · exact triple_responded
  · exact triple_responded

theorem triple_finishFromFields {handle : Handle} (ht : ∀ p q, targets ⟨handle, p, q⟩)
    (hver : parts .verify) (hfin : parts .finish) {B : World A → Prop} {action : FinishAction} {fields : Dict} :
    P.Triple i B (finishFromFields N c handle action fields) (fun _ _ => True) := by
  refine triple_orAttention (triple_bind (M := fun _ _ => True)
    (triple_ofExcept (fun _ => stable_true) (fun _ _ _ _ _ => trivial)) (fun note => ?_))
  refine triple_bind (M := fun _ _ => True)
    (triple_ofExcept (fun _ => stable_true) (fun _ _ _ _ _ => trivial)) (fun reason => ?_)
  exact triple_finishAuthoring R ht hver hfin

/-- The actions that are not executed are safe without any knowledge of operations. -/
theorem triple_unexecuted (ht : ∀ p q, targets ⟨t.handle, p, q⟩) (hres : parts .resume)
    (hver : parts .verify) (hfin : parts .finish) {action : CoordinateAction} {fields : Dict}
    (h : action.executes = false) :
    P.Triple i (K.copy t r) (coordinateRecorded N c t action fields r) (fun _ _ => True) := by
  cases action with
  | bindRequiredGates => exact triple_bindRequiredGates (R.copy_stable t r)
  | requestIntegration => exact triple_finished
  | runGates =>
    simp only [coordinateRecorded]
    split
    · exact triple_post (triple_runGates R hver) (fun _ _ _ => trivial)
    · refine triple_bind (triple_ofExcept (fun _ => R.copy_stable t r)
        (fun _ _ _ _ h => h)) (fun requested => ?_)
      exact triple_post (triple_runGates R hver) (fun _ _ _ => trivial)
  | verify =>
    refine triple_bind (triple_ofExcept (fun _ => R.copy_stable t r)
      (fun _ _ _ _ h => h)) (fun requirementId => ?_)
    exact triple_post (triple_runGates R hver) (fun _ _ _ => trivial)
  | heartbeat | resume =>
    simp only [coordinateRecorded]
    split
    · exact triple_raise
    · refine triple_bind (triple_resumeActive R hres) (fun out => ?_)
      split
      · exact triple_finished
      · exact triple_responded
  | releaseAttempt => exact triple_finishFromFields R ht hver hfin
  | reportOutcome =>
    refine triple_bind (triple_ofExcept (fun _ => R.copy_stable t r)
      (fun _ _ _ _ h => h)) (fun finish => ?_)
    exact triple_finishFromFields R ht hver hfin
  | sync | fork | message | answer | arrive | arriveRendezvous | publishInterface
  | publishContext | integrate | acceptChild | rejectChild | resolveDecision
  | acceptCheckpoint | releaseBarrier | openBlocker | clearBlocker | publishFinding
  | invalidateFinding | startChild | submitChildCandidate | reviewChildCandidate
  | cancelChild | reconcileChild | recover | acceptOutcome | rejectOutcome | reserveResource
  | reconcileResource | retryResource | releaseResource => cases h

theorem triple_coordinateRecorded (ht : ∀ p q, targets ⟨t.handle, p, q⟩)
    (hall : ∀ part, parts part) {action : CoordinateAction}
    {fields : Dict} :
    P.Triple i (K.copy t r) (coordinateRecorded N c t action fields r) (fun _ _ => True) := by
  by_cases he : action.executes
  · rw [coordinateRecorded_executes N c he]
    refine triple_bind (M := fun _ s => checkCoordinate action r = .ok () ∧ K.copy t r s)
      (triple_ofExcept (fun _ => (stable_const _).and (R.copy_stable t r))
        (fun _ _ hc _ h => ⟨hc, h⟩)) (fun _ => ?_)
    intro s hs hb
    exact triple_executeCoordinateAction R (hall _) hb.1 s hs hb.2
  · exact triple_unexecuted R ht (hall _) (hall _) (hall _) (Bool.eq_false_iff.mpr he)

theorem triple_coordinateTask {handle : Handle} (ht : ∀ p q, targets ⟨handle, p, q⟩)
    (hall : ∀ part, parts part) {B : World A → Prop} {action : CoordinateAction} {fields : Dict} :
    P.Triple i B (coordinateTask N c handle action fields) (fun _ _ => True) := by
  refine triple_orAttention ?_
  split
  · exact triple_raise
  · refine triple_pre (B := fun _ => True) (triple_bind (triple_readScoped R ht stable_true)
      (fun out => ?_)) (fun _ _ _ => trivial)
    intro s hs hb
    exact triple_coordinateRecorded R (hb.1 ▸ ht) hall s hs hb.2

theorem triple_finishTask {handle : Handle} (ht : ∀ p q, targets ⟨handle, p, q⟩)
    (hall : ∀ part, parts part) {action : FinishAction}
    {disposition note reason : Option String} :
    P.Triple i (fun _ => True) (finishTask N c handle action disposition note reason)
      (fun _ _ => True) := by
  unfold finishTask
  split
  · refine triple_orAttention (triple_bind triple_checkTexts (fun _ => ?_))
    refine triple_bind (triple_readScoped R ht stable_true) (fun out => ?_)
    dsimp only
    split
    · exact triple_raise
    · refine triple_bind (triple_coordinateTask R ht hall) (fun response => ?_)
      split
      · exact triple_responded
      · exact triple_finished
  · exact triple_finishAuthoring R ht (hall _) (hall _)

/-- Every call of the service is safe. -/
theorem triple_toolCall (ht : ∀ t, targets t) (hall : ∀ part, parts part) (call : ToolCall) :
    P.Triple i (fun _ => True) (call.program N c) (fun _ _ => True) := by
  cases call with
  | nextTask mutator project repository requested =>
    exact triple_bind (triple_nextTask R (fun _ => ht _) (hall _) (hall _)) (fun _ => triple_finished)
  | finishTask handle action disposition note reason =>
    exact triple_bind (triple_finishTask R (fun _ _ => ht _) hall) (fun _ => triple_finished)
  | coordinateTask handle action fields =>
    exact triple_bind (triple_coordinateTask R (fun _ _ => ht _) hall) (fun _ => triple_finished)
  | renew t => exact triple_renewalPass R (ht t) (hall _)

end Tools

end ProjectControl.Compact
