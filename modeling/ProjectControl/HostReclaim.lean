import Mathlib.Tactic.Linarith
import ProjectControl.HostCommits
import ProjectControl.HostOwners

/-! The reclaim of owners whose process is dead: when a sweep finds them stale, and which
requests of others keep it from doing so. -/

set_option autoImplicit false

namespace ProjectControl.HostResources

variable {hashes : Hashes} {env : Env} {db db' : Registry} {id n : OwnerId} {o : Owner}
variable {r : ResourceId} {s : Statement}

section Reclaimed

/-- The owner is in a state that it was released to, and holds nothing. -/
structure Freed (state : OwnerState) (id : OwnerId) (db : Registry) : Prop where
  row : ∃ o, db.owner? id = some o ∧ o.state = state ∧ o.residencyProtected = false
  held : ∀ r, ¬ db.active r id
  intent : ¬ db.intends id

/-- The owner was found stale. -/
abbrev Reclaimed : OwnerId → Registry → Prop := Freed .stale

theorem protects_of_row (ho : db.owner? id = some o) (hp : o.residencyProtected = false) :
    db.protects id = false := by
  apply Bool.eq_false_iff.mpr
  intro h
  obtain ⟨o', ho', hp', -⟩ := protects_iff.mp h
  rw [ho] at ho'
  cases ho'
  rw [hp] at hp'
  cases hp'

/-- The release of an owner that is not protected sets its state. -/
theorem releaseOwner_releases {now : ℚ} {state : OwnerState} (ho : db.owner? id = some o)
    (hp : o.residencyProtected = false) (h : db.exec (.releaseOwner now id state) = .ok db') :
    db'.owner? id = some { o with state := state, heartbeatAt := now } := by
  cases h
  show (Registry.updateOwners _ _ _).owner? id = _
  rw [owner?_updateOwners, ho]
  simp [id_of_owner? ho, ownerUpdateGuard, ownerChange, hp]

theorem release_frees {state : OwnerState} (ho : db.owner? id = some o)
    (hp : o.residencyProtected = false) :
    Ensures (releaseLocked env db id state) (Freed state id) := by
  refine Ensures.bind Ensures.of_eq (fun db₁ h₁ => ?_)
  refine Ensures.bind Ensures.of_eq (fun db₂ h₂ db₃ h₃ => ?_)
  have ho₁ : db₁.owner? id = some o := exec_other (by simp [Statement.target])
    (fun _ h => by cases h) h₁ ho
  have ho₂ := releaseOwner_releases ho₁ hp h₂
  have ho₃ := exec_other (by simp [Statement.target]) (fun _ h => by cases h) h₃ ho₂
  refine ⟨⟨_, ho₃, rfl, hp⟩, fun r hactive => ?_, ?_⟩
  · refine releaseReservations_frees h₁ (protects_of_row ho hp) (r := r) ?_
    rcases exec_active_of h₃ hactive with h | ⟨_, h, -⟩
    · rcases exec_active_of h₂ h with h | ⟨_, h, -⟩
      · exact h
      · cases h
    · cases h
  · exact releaseIntents_frees h₃ (protects_of_row ho₂ hp)

/-- A reclaimed owner stays so under statements that do not name it. -/
theorem reclaimed_exec (htarget : s.target ≠ some id)
    (hdelete : ∀ selected, s ≠ .deleteOwners selected)
    (hreserve : ∀ new, s = .insertReservation new → new.ownerId ≠ id)
    (hintend : ∀ new, s = .insertIntent new → new.ownerId ≠ id) (h : Reclaimed id db) :
    Ensures (db.exec s) (Reclaimed id) := by
  intro db' hdb'
  obtain ⟨o, ho, hrest⟩ := h.row
  refine ⟨⟨o, exec_other htarget hdelete hdb' ho, hrest⟩, fun r hactive => ?_, fun hintends => ?_⟩
  · rcases exec_active_of hdb' hactive with hold | ⟨new, hs, -, howner⟩
    · exact h.held r hold
    · exact hreserve new hs howner
  · rcases exec_intends_of hdb' hintends with hold | ⟨new, hs, howner⟩
    · exact h.intent hold
    · exact hintend new hs howner

theorem reclaimed_preempt {now : ℚ} (h : Reclaimed id db) :
    Ensures (db.exec (.preempt now n)) (Reclaimed id) := by
  intro db' hdb'
  obtain ⟨o, ho, hs, hp⟩ := h.row
  refine ⟨?_, fun r hactive => ?_, fun hintends => ?_⟩
  · rcases exec_owner hdb' ho with h | ⟨o', ho', hwrite, -⟩ | ⟨_, h, -⟩
    · exact ⟨o, h, hs, hp⟩
    · cases hwrite
      exact ⟨_, ho', hs, hp⟩
    · cases h
  · rcases exec_active_of hdb' hactive with hold | ⟨_, hnew, -⟩
    · exact h.held r hold
    · cases hnew
  · rcases exec_intends_of hdb' hintends with hold | ⟨_, hnew, -⟩
    · exact h.intent hold
    · cases hnew

theorem ne_of_live (h : Reclaimed id db)
    (hlive : ∃ o, db.owner? n = some o ∧ o.state.live = true) : n ≠ id := by
  rintro rfl
  obtain ⟨o, ho, hs, -⟩ := h.row
  obtain ⟨o', ho', hl⟩ := hlive
  rw [ho] at ho'
  cases ho'
  rw [hs] at hl
  cases hl

/-- The statements that neither delete an owner nor insert a row that names one. -/
def Statement.plain : Statement → Bool
  | .deleteOwners _ | .insertReservation _ | .insertIntent _ => false
  | _ => true

theorem reclaimed_plain (hs : s.plain = true) (htarget : s.target ≠ some id)
    (h : Reclaimed id db) : Ensures (db.exec s) (Reclaimed id) := by
  refine reclaimed_exec htarget ?_ ?_ ?_ h
  · rintro selected rfl
    cases hs
  · rintro new rfl
    cases hs
  · rintro new rfl
    cases hs

theorem reclaimed_release {state : OwnerState} (hne : id ≠ n) (h : Reclaimed id db) :
    Ensures (releaseLocked env db n state) (Reclaimed id) := by
  refine Ensures.bind (reclaimed_plain rfl (by simp [Statement.target]) h) (fun db₁ h₁ => ?_)
  refine Ensures.bind (reclaimed_plain rfl ?_ h₁) (fun db₂ h₂ => ?_)
  · exact fun h => hne (Option.some.inj h).symm
  · exact reclaimed_plain rfl (by simp [Statement.target]) h₂

/-- A sweep reclaims an owner whose heartbeat is old and whose process is dead. -/
theorem sweep_reclaims {staleSeconds : ℚ} (ho : db.owner? id = some o)
    (hlive : o.state.live = true) (hp : o.residencyProtected = false)
    (hdead : env.alive o.pid o.processStart = false)
    (hold : o.heartbeatAt < env.cutoffClock - staleSeconds) :
    Ensures (sweepLocked env db staleSeconds) (Reclaimed id) := by
  have hrow : o ∈ sweepRows env db staleSeconds :=
    List.mem_filter.mpr ⟨(owner?_eq_some.mp ho).1, by simp [hlive, hold]⟩
  have hsame : ∀ o₁ ∈ sweepRows env db staleSeconds, o₁.id = id → o₁ = o := by
    intro o₁ hmem hid
    have hfind := owner?_eq_some.mpr ⟨(List.mem_filter.mp hmem).1, hid⟩
    rw [ho] at hfind
    exact (Option.some.inj hfind).symm
  -- the rounds before its own leave the row as it is
  let P : Registry → Prop := fun db => db.owner? id = some o ∨ Reclaimed id db
  have hround : ∀ db, P db → Ensures (sweepOwner env db o) (Reclaimed id) := by
    intro db₁ h₁
    unfold sweepOwner
    rw [if_neg (by simp [hp]), if_neg (by simp [hdead]), id_of_owner? ho]
    rcases h₁ with h₁ | h₁
    · exact release_frees h₁ hp
    · obtain ⟨o₁, ho₁, -, hp₁⟩ := h₁.row
      exact release_frees ho₁ hp₁
  have hkeeps : ∀ db₁, ∀ o₁ ∈ sweepRows env db staleSeconds, Reclaimed id db₁ →
      Ensures (sweepOwner env db₁ o₁) (Reclaimed id) := by
    intro db₁ o₁ hmem h₁
    by_cases hid : o₁.id = id
    · rw [hsame o₁ hmem hid]
      exact hround db₁ (.inr h₁)
    · refine Ensures.ite (fun _ => Ensures.pure h₁) (fun _ => ?_)
      exact Ensures.ite (fun _ => Ensures.pure h₁) (fun _ => reclaimed_release (Ne.symm hid) h₁)
  have hrows : ∀ db₁, ∀ o₁ ∈ sweepRows env db staleSeconds, P db₁ →
      Ensures (sweepOwner env db₁ o₁) P := by
    intro db₁ o₁ hmem h₁
    by_cases hid : o₁.id = id
    · rw [hsame o₁ hmem hid]
      exact (hround db₁ h₁).mono (fun _ h => .inr h)
    · rcases h₁ with h₁ | h₁
      · refine Ensures.ite (fun _ => Ensures.pure (.inl h₁)) (fun _ => ?_)
        refine Ensures.ite (fun _ => Ensures.pure (.inl h₁)) (fun _ => ?_)
        exact (releaseLocked_other (Ne.symm hid)).mono (fun _ h => .inl (h.1.trans h₁))
      · exact (hkeeps db₁ o₁ hmem h₁).mono (fun _ h => .inr h)
  refine Ensures.bind (Ensures.foldlM_reaches hrow hrows hround hkeeps (.inl ho)) ?_
  exact fun db₁ h₁ => reclaimed_plain rfl (by simp [Statement.target]) h₁

/-- Requests keep an owner reclaimed: the rows that they insert name live owners. -/
theorem reclaimed_requests : Requests env (fun _ => True) (Reclaimed id) where
  insertOwner db new _ _ _ h := reclaimed_plain rfl (by simp [Statement.target]) h
  insertReservation db new _ howner h := by
    obtain ⟨o, ho, hs⟩ := howner
    have hne := ne_of_live h ⟨o, ho, by rw [hs]; rfl⟩
    refine reclaimed_exec (by simp [Statement.target]) ?_ ?_ ?_ h
    · exact fun _ h => by cases h
    · rintro _ ⟨rfl⟩
      exact hne
    · exact fun _ h => by cases h
  insertIntent db new howner h := by
    have hne := ne_of_live h howner
    refine reclaimed_exec (by simp [Statement.target]) ?_ ?_ ?_ h
    · exact fun _ h => by cases h
    · exact fun _ h => by cases h
    · rintro _ ⟨rfl⟩
      exact hne
  preempt db n _ h := reclaimed_preempt h

end Reclaimed

section Waiting

variable {bound t : ℚ}

/-- The owner exists and, if it is still to be reclaimed, was last heard of before `bound`. -/
def Waiting (bound : ℚ) (id : OwnerId) (db : Registry) : Prop :=
  ∃ o, db.owner? id = some o ∧
    (o.state.live = false ∨ o.residencyProtected = true ∨ o.heartbeatAt < bound)

theorem waiting_other (hdelete : ∀ selected, s ≠ .deleteOwners selected)
    (htarget : s.target ≠ some id) (h : Waiting bound id db) :
    Ensures (db.exec s) (Waiting bound id) := by
  intro db' hdb'
  obtain ⟨o, ho, hrest⟩ := h
  exact ⟨o, exec_other htarget hdelete hdb' ho, hrest⟩

/-- A statement that leaves the state and the protection alone, and writes an old time. -/
theorem waiting_beat {now : ℚ} (hnow : n = id → now < bound)
    (hs : s = .preempt now n ∨ s = .preemptActive now n) (h : Waiting bound id db) :
    Ensures (db.exec s) (Waiting bound id) := by
  intro db' hdb'
  obtain ⟨o, ho, hrest⟩ := h
  rcases exec_owner hdb' ho with h | ⟨o', ho', hwrite, -⟩ | ⟨_, hdelete, -⟩
  · exact ⟨o, h, hrest⟩
  · rcases hs with rfl | rfl
    · cases hwrite
      exact ⟨_, ho', hrest.imp_right (Or.imp_right (fun _ => hnow (id_of_owner? ho)))⟩
    · cases hwrite
      exact ⟨_, ho', hrest.imp_right (Or.imp_right (fun _ => hnow (id_of_owner? ho)))⟩
  · rcases hs with rfl | rfl <;> cases hdelete

theorem waiting_release {state : OwnerState} (hstate : state.live = false)
    (h : Waiting bound id db) : Ensures (releaseLocked env db n state) (Waiting bound id) := by
  refine Ensures.bind (waiting_other (fun _ h => by cases h) (by simp [Statement.target]) h) ?_
  intro db₁ h₁
  refine Ensures.bind (P := Waiting bound id) (fun db₂ hdb₂ => ?_) (fun db₂ h₂ => ?_)
  · obtain ⟨o, ho, hrest⟩ := h₁
    rcases exec_owner hdb₂ ho with h | ⟨o', ho', hwrite, -⟩ | ⟨_, h, -⟩
    · exact ⟨o, h, hrest⟩
    · cases hwrite
      exact ⟨_, ho', .inl hstate⟩
    · cases h
  · exact waiting_other (fun _ h => by cases h) (by simp [Statement.target]) h₂

theorem waiting_background :
    Background env (fun n => n = id → env.clock < bound) (Waiting bound id) where
  insertOwner _ _ _ _ _ h := waiting_other (fun _ h => by cases h) (by simp [Statement.target]) h
  insertReservation _ _ _ _ h :=
    waiting_other (fun _ h => by cases h) (by simp [Statement.target]) h
  insertIntent _ _ _ h := waiting_other (fun _ h => by cases h) (by simp [Statement.target]) h
  preempt _ _ hvictim h := waiting_beat hvictim (.inl rfl) h
  resources _ _ h := waiting_other (fun _ h => by cases h) (by simp [Statement.target]) h
  release _ _ _ hstate h := waiting_release hstate h
  orphans _ h := waiting_other (fun _ h => by cases h) (by simp [Statement.target]) h

/-- The calls of an owner for itself: it is heard of, or its foreground request is served. -/
def Call.refreshes (id : OwnerId) : Call → Prop
  | .setPriority n _ | .activateForeground n _ | .heartbeat n _ => n = id
  | _ => False

/-- A call that does not refresh the owner, and whose signal to it is old, leaves it
waiting. -/
theorem waiting_step {a : Action} (hrefresh : ¬ a.call.refreshes id)
    (hsignal : id ∈ signalledOwners a.env db a.call → a.env.clock < bound)
    (h : Waiting bound id db) : Waiting bound id (step hashes db a) := by
  refine step_of_ensures h ?_
  obtain ⟨env, call⟩ := a
  cases call with
  | upsertResources | replaceResources | sweepStale | reconcileCurrentServiceOwners
  | reserveBackground | reserveService | beginForeground =>
    exact ensures_background waiting_background rfl (fun _ hn heq => hsignal (heq ▸ hn)) h
  | setPriority n priorityClass =>
    refine Ensures.map (ensures_setPriority h (waiting_other (fun _ h => by cases h) ?_ h))
    exact fun h => hrefresh (Option.some.inj h)
  | requestPreemption n =>
    refine Ensures.map (Ensures.bind (waiting_beat (fun heq => ?_) (.inr rfl) h)
      (fun _ h => Ensures.pure h))
    exact hsignal (heq ▸ List.mem_singleton.mpr rfl)
  | activateForeground n resources =>
    refine Ensures.map (ensures_activateForeground (waiting_background.sweep h) ?_ ?_)
    · exact fun db r h => waiting_other (fun _ h => by cases h) (by simp [Statement.target]) h
    · exact fun db h => waiting_other (fun _ h => by cases h)
        (fun h => hrefresh (Option.some.inj h)) h
  | heartbeat n pid =>
    refine Ensures.bind (waiting_other (fun _ h => by cases h) ?_ h) (fun _ h => ?_)
    · exact fun h => hrefresh (Option.some.inj h)
    · exact waiting_other (fun _ h => by cases h) (by simp [Statement.target]) h
  | protectResidency n baseline =>
    refine Ensures.map (ensures_protectResidency (fun _ _ _ _ db' hdb' => ?_))
    obtain ⟨o, ho, hrest⟩ := h
    rcases exec_owner hdb' ho with h | ⟨o', ho', hwrite, -⟩ | ⟨_, h, -⟩
    · exact ⟨o, h, hrest⟩
    · cases hwrite
      exact ⟨_, ho', .inr (.inl rfl)⟩
    · cases h
  | recordResidencyProcess n pid capability generation =>
    refine ensures_recordResidencyProcess (fun o₁ _ _ hfound _ hp _ _ db' hdb' => ?_)
    obtain ⟨o, ho, hrest⟩ := h
    rcases exec_owner hdb' ho with h | ⟨o', ho', hwrite, -⟩ | ⟨_, h, -⟩
    · exact ⟨o, h, hrest⟩
    · -- the owner is protected and stays so
      cases hwrite
      rw [id_of_owner? ho, ho] at hfound
      cases hfound
      exact ⟨_, ho', .inr (.inl hp)⟩
    · cases h
  | release n proof capability generation =>
    refine ensures_release (fun _ => waiting_release rfl h) (fun _ db₁ _ _ _ hdb₁ => ?_)
    obtain ⟨o, ho, hrest⟩ := h
    rcases exec_owner hdb₁ ho with h | ⟨o', ho', hwrite, -⟩ | ⟨_, h, -⟩
    · exact waiting_release rfl ⟨o, h, hrest⟩
    · -- the protection is gone, and with it the state
      cases hwrite
      rw [id_of_owner? ho]
      refine (release_frees ho' rfl).mono (fun db₂ h₂ => ?_)
      obtain ⟨o₂, ho₂, hs₂, -⟩ := h₂.row
      exact ⟨o₂, ho₂, .inl (by rw [hs₂]; rfl)⟩
    · cases h

end Waiting

section Heard

variable {t : ℚ}

/-- No owner was heard of after `t`. -/
def HeardBy (t : ℚ) (db : Registry) : Prop := ∀ id o, db.owner? id = some o → o.heartbeatAt ≤ t

theorem heard_exec (hdelete : ∀ selected, s ≠ .deleteOwners selected)
    (hwrite : ∀ o o', OwnerWrite s o o' → o'.heartbeatAt = o.heartbeatAt ∨ o'.heartbeatAt ≤ t)
    (hinsert : ∀ new, s = .insertOwner new → new.heartbeatAt ≤ t) (h : HeardBy t db) :
    Ensures (db.exec s) (HeardBy t) := by
  intro db' hdb' id o' ho'
  cases ho : db.owner? id with
  | none =>
    rcases exec_fresh hdb' ho with hnone | ⟨new, hs, -, hnew⟩
    · rw [hnone] at ho'
      cases ho'
    · rw [hnew] at ho'
      cases ho'
      exact hinsert o' hs
  | some o =>
    rcases exec_owner hdb' ho with hsame | ⟨o₁, ho₁, hw, -⟩ | ⟨selected, hs, -⟩
    · rw [hsame] at ho'
      cases ho'
      exact h id o' ho
    · rw [ho₁] at ho'
      cases ho'
      rcases hwrite o o' hw with heq | hle
      · exact heq ▸ h id o ho
      · exact hle
    · exact absurd hs (hdelete selected)

/-- A statement that writes no heartbeat later than `t`. -/
def Statement.writesBy (t : ℚ) : Statement → Prop
  | .deleteOwners _ => False
  | .insertOwner new => new.heartbeatAt ≤ t
  | .preempt now _ | .preemptActive now _ | .setPriority now _ _ | .activate now _
  | .beat now _ _ _ | .releaseOwner now _ _ | .recordProcess now _ _ _ _ => now ≤ t
  | _ => True

theorem heard_writes (hs : s.writesBy t) (h : HeardBy t db) : Ensures (db.exec s) (HeardBy t) := by
  refine heard_exec ?_ (fun o o' hwrite => ?_) ?_ h
  · rintro selected rfl
    exact hs
  · cases hwrite with
    | protect | unprotect => exact .inl rfl
    | preempt | preemptActive | setPriority | activate | beat | releaseOwner | recordProcess =>
      exact .inr hs
  · rintro new rfl
    exact hs

theorem heard_release {state : OwnerState} (ht : env.clock ≤ t) (h : HeardBy t db) :
    Ensures (releaseLocked env db n state) (HeardBy t) :=
  Ensures.bind (heard_writes trivial h) (fun _ h =>
    Ensures.bind (heard_writes ht h) (fun _ h => heard_writes trivial h))

theorem heard_background (ht : env.clock ≤ t) : Background env (fun _ => True) (HeardBy t) where
  insertOwner _ _ _ hbeat _ h := heard_writes (by rw [← hbeat] at ht; exact ht) h
  insertReservation _ _ _ _ h := heard_writes trivial h
  insertIntent _ _ _ h := heard_writes trivial h
  preempt _ _ _ h := heard_writes ht h
  resources _ _ h := heard_writes trivial h
  release _ _ _ _ h := heard_release ht h
  orphans _ h := heard_writes trivial h

theorem heard_step {a : Action} (ht : a.env.clock ≤ t) (h : HeardBy t db) :
    HeardBy t (step hashes db a) := by
  refine step_of_ensures h ?_
  obtain ⟨env, call⟩ := a
  cases call with
  | upsertResources | replaceResources | sweepStale | reconcileCurrentServiceOwners
  | reserveBackground | reserveService | beginForeground =>
    exact ensures_background (heard_background ht) rfl (fun _ _ => trivial) h
  | setPriority n priorityClass => exact Ensures.map (ensures_setPriority h (heard_writes ht h))
  | requestPreemption n =>
    exact Ensures.map (Ensures.bind (heard_writes ht h) (fun _ h => Ensures.pure h))
  | activateForeground n resources =>
    exact Ensures.map (ensures_activateForeground ((heard_background ht).sweep h)
      (fun _ _ h => heard_writes trivial h) (fun _ h => heard_writes ht h))
  | heartbeat n pid => exact Ensures.bind (heard_writes ht h) (fun _ h => heard_writes trivial h)
  | protectResidency n baseline =>
    exact Ensures.map (ensures_protectResidency (fun _ _ _ _ => heard_writes trivial h))
  | recordResidencyProcess n pid capability generation =>
    exact ensures_recordResidencyProcess (fun _ _ _ _ _ _ _ _ => heard_writes ht h)
  | release n proof capability generation =>
    refine ensures_release (fun _ => heard_release ht h) (fun _ db' _ _ _ hdb' => ?_)
    exact heard_release ht (heard_writes (s := .unprotect n) trivial h db' hdb')

end Heard

/-- The window of the sweep that a call makes. -/
def Call.sweeps : Call → Option ℚ
  | .sweepStale window => some window
  | .reserveBackground _ _ _ _ _ | .reserveService _ _ _ _ _ | .beginForeground _ _ _ _
  | .activateForeground _ _ => some staleSeconds
  | _ => none

/-- A call that sweeps, and that is not one of the owner for itself, reclaims what its
sweep finds stale. -/
theorem reclaimed_of_sweep {call : Call} {window : ℚ} (hsweeps : call.sweeps = some window)
    (hrefresh : ¬ call.refreshes id)
    (h : Ensures (sweepLocked env db window) (Reclaimed id)) :
    Ensures (transact hashes env db call) (Reclaimed id) := by
  cases call with
  | sweepStale staleSeconds =>
    cases hsweeps
    exact Ensures.map (Ensures.bind h (fun _ h => Ensures.pure h))
  | reserveBackground | reserveService | beginForeground =>
    cases hsweeps
    exact ensures_requests reclaimed_requests rfl (fun _ _ => trivial) h
  | activateForeground n resources =>
    cases hsweeps
    refine Ensures.map (ensures_activateForeground h (fun db r h => ?_) (fun db h => ?_))
    · refine reclaimed_exec (by simp [Statement.target]) (fun _ h => by cases h) ?_ ?_ h
      · rintro _ ⟨rfl⟩
        exact hrefresh
      · exact fun _ h => by cases h
    · exact reclaimed_plain rfl (fun h => hrefresh (Option.some.inj h)) h
  | upsertResources | replaceResources | reconcileCurrentServiceOwners | setPriority
  | requestPreemption | heartbeat | protectResidency | recordResidencyProcess | release =>
    cases hsweeps

/-- An owner that makes no call after `t` and whose process is dead is reclaimed by a sweep
that looks at it more than its window after `t`, if no other client signalled it within the
window before that sweep and the sweep's transaction meets no row that is in its way. A
sweep leaves an owner alone that is protected, alive or heard of within the window. -/
theorem dead_owner_is_reclaimed (hashes : Hashes) (t window : ℚ) (before after : List Action)
    (a : Action) (id : OwnerId) (hbefore : ∀ b ∈ before, b.env.clock ≤ t)
    (hexists : (before.foldl (step hashes) {}).owner? id ≠ none)
    (hafter : Runs.Along (step hashes) (fun db b => ¬ b.call.refreshes id ∧
      (id ∈ signalledOwners b.env db b.call → b.env.clock < a.env.cutoffClock - window))
      (before.foldl (step hashes) {}) after)
    (hsweeps : a.call.sweeps = some window) (hrefresh : ¬ a.call.refreshes id)
    (hlate : t + window < a.env.cutoffClock) :
    let db := after.foldl (step hashes) (before.foldl (step hashes) {})
    (∀ o, db.owner? id = some o → o.state.live = true → o.residencyProtected = false →
      a.env.alive o.pid o.processStart = false → Undisturbed hashes db a →
      Reclaimed id (step hashes db a)) ∧
    (∀ n o, db.owner? n = some o → Spared a.env window o →
      Ensures (sweepLocked a.env db window) (Untouched n o db)) := by
  intro db
  refine ⟨fun o ho hlive hp hdead hcommits => ?_, fun n o ho hspared => sweep_spares ho hspared⟩
  have hheard : HeardBy t (before.foldl (step hashes) {}) := by
    have hbefore : Runs.Along (step hashes) (fun _ b => b.env.clock ≤ t) {} before :=
      Runs.along_of_forall hbefore
    exact hbefore.invariant (fun _ _ h ht => heard_step ht h) (fun _ _ h => by cases h)
  have hwaiting : Waiting (a.env.cutoffClock - window) id db := by
    refine hafter.invariant (fun _ _ h hb => waiting_step hb.1 hb.2 h) ?_
    obtain ⟨o₀, ho₀⟩ := Option.ne_none_iff_exists'.mp hexists
    have hbeat : o₀.heartbeatAt ≤ t := hheard id o₀ ho₀
    exact ⟨o₀, ho₀, .inr (.inr (by linarith))⟩
  have hold : o.heartbeatAt < a.env.cutoffClock - window := by
    obtain ⟨o', ho', h | h | h⟩ := hwaiting
    · rw [ho] at ho'
      cases ho'
      rw [hlive] at h
      cases h
    · rw [ho] at ho'
      cases ho'
      rw [hp] at h
      cases h
    · rw [ho] at ho'
      cases ho'
      exact h
  have hall : Ensures (transact hashes a.env db a.call) (Reclaimed id) :=
    reclaimed_of_sweep hsweeps hrefresh (sweep_reclaims ho hlive hp hdead hold)
  obtain ⟨db', hdb', -⟩ := transact_commits hcommits
  unfold step
  rw [hdb']
  exact hall db' hdb'

section Runs

/-- The same host after process 7 ended. -/
def deadHostAt (now : ℚ) : Env :=
  { hostAt now with signals := fun _ => false, processStart := fun _ => none }

def backgroundRequest : Request := { ids := ["accelerator:a"] }

def ghost : OwnerId := backgroundOwnerId plainHashes "/p" "job" "attempt"

/-- A background owner reserves the device, and its process ends. -/
def reservedRun : List Action :=
  [⟨hostAt 0, .upsertResources [deviceA]⟩,
    ⟨hostAt 1, .reserveBackground "/p" "job" "attempt" backgroundRequest 7⟩]

def sweepAt (now : ℚ) : Action := ⟨deadHostAt now, .sweepStale staleSeconds⟩

/-- The owner is reclaimed by a sweep at time 40. -/
theorem silent_owner_is_reclaimed :
    Reclaimed ghost (step plainHashes (reservedRun.foldl (step plainHashes) {}) (sweepAt 40)) := by
  have hrow : ((reservedRun.foldl (step plainHashes) {}).owner? ghost).map
      (fun o => (o.state.live, o.residencyProtected,
        (deadHostAt 40).alive o.pid o.processStart)) = some (true, false, false) := by
    decide +kernel
  obtain ⟨o, ho, hprops⟩ := Option.map_eq_some_iff.mp hrow
  simp only [Prod.mk.injEq] at hprops
  obtain ⟨hlive, hp, hdead⟩ := hprops
  have hbefore : ∀ b ∈ reservedRun, b.env.clock ≤ 1 := by decide +kernel
  obtain ⟨hreclaimed, -⟩ := dead_owner_is_reclaimed plainHashes 1 staleSeconds reservedRun []
    (sweepAt 40) ghost hbefore (by rw [ho]; simp) trivial rfl (fun h => h) (by decide +kernel)
  exact hreclaimed o ho hlive hp hdead trivial

/-- Its device is asked for at time 20. -/
def signalAt (now : ℚ) : Action := ⟨deadHostAt now, .requestPreemption ghost⟩

/-- A preemption request of another client counts as a sign of life of the dead owner. -/
theorem signalled_ghost_is_kept :
    ((((reservedRun ++ [signalAt 20]).foldl (step plainHashes) {}).owner? ghost).map
      (fun o => (o.state, (deadHostAt 40).alive o.pid o.processStart))) =
        some (.active, false) ∧
    (((reservedRun ++ [signalAt 20, sweepAt 40]).foldl (step plainHashes) {}).owner? ghost).map
      (·.state) = some .active ∧
    ((reservedRun ++ [signalAt 20, sweepAt 40]).foldl (step plainHashes) {}).reserved ghost =
      ["accelerator:a"] := by
  decide +kernel

end Runs

end ProjectControl.HostResources
