import ProjectControl.HostStatements
import ProjectControl.HostCoordinator

/-! Rules for the transactions of `HostCoordinator`: an invariant that their statements
keep is kept by the whole. -/

set_option autoImplicit false

namespace ProjectControl.HostResources

variable {hashes : Hashes} {env : Env} {db : Registry} {I : Registry → Prop}

/-- The owners that a reservation which finds its resources taken signals. -/
def bumpedOwners (env : Env) (db : Registry) (request : Request) (priorityClass : PriorityClass) :
    List OwnerId :=
  match selectLocked env db request, preemptionChoice db request priorityClass with
  | .ok none, .ok (some c) => c.owners.map (·.id)
  | _, _ => []

/-- The owners that a call signals to give way. -/
def signalledOwners (env : Env) (db : Registry) : Call → List OwnerId
  | .reserveBackground _ _ _ request _ =>
    match sweepLocked env db staleSeconds with
    | .ok db => bumpedOwners env db request .backgroundCuda
    | .error _ => []
  | .reserveService _ _ request _ priorityClass =>
    match sweepLocked env db staleSeconds with
    | .ok db => bumpedOwners env db request priorityClass
    | .error _ => []
  | .requestPreemption id => [id]
  | .beginForeground _ request _ priorityClass =>
    match sweepLocked env db staleSeconds with
    | .ok db => bumpedOwners env db request priorityClass ++
        match foregroundResources env db request priorityClass with
        | .ok (db, resources) =>
          (foregroundVictims env db request priorityClass resources).map (·.id)
        | .error _ => []
    | .error _ => []
  | _ => []

/-- What the statements of reservations and foreground requests have to keep. The owners in
`victims` may be signalled. -/
structure Requests (env : Env) (victims : OwnerId → Prop) (I : Registry → Prop) : Prop where
  insertOwner : ∀ db (new : Owner), new.state.live = true → new.heartbeatAt = env.clock →
    new.residencyProtected = false → I db → Ensures (db.exec (.insertOwner new)) I
  insertReservation : ∀ db (new : Reservation), new.state = .active →
    (∃ o, db.owner? new.ownerId = some o ∧ o.state = .active) → I db →
    Ensures (db.exec (.insertReservation new)) I
  insertIntent : ∀ db (new : Intent),
    (∃ o, db.owner? new.ownerId = some o ∧ o.state.live = true) → I db →
    Ensures (db.exec (.insertIntent new)) I
  preempt : ∀ db id, victims id → I db → Ensures (db.exec (.preempt env.clock id)) I

/-- And those of sweeps and discovery. -/
structure Background (env : Env) (victims : OwnerId → Prop) (I : Registry → Prop) : Prop
    extends Requests env victims I where
  resources : ∀ db resources, I db → Ensures (db.exec (.setResources resources)) I
  release : ∀ db id state, state.live = false → I db → Ensures (releaseLocked env db id state) I
  orphans : ∀ db, I db → Ensures (db.exec (.releaseOrphanIntents env.clock)) I

section Sweep

variable {id n : OwnerId} {o : Owner} {r : ResourceId} {state : OwnerState}

/-- An owner that a sweep must not release: it is protected, alive or heard of lately. -/
def Spared (env : Env) (staleSeconds : ℚ) (o : Owner) : Prop :=
  o.residencyProtected = true ∨ env.alive o.pid o.processStart = true ∨
    env.cutoffClock - staleSeconds ≤ o.heartbeatAt

/-- The release of an owner leaves the rows of the others alone. -/
theorem releaseLocked_other (hne : id ≠ n) :
    Ensures (releaseLocked env db n state) (fun db' => db'.owner? id = db.owner? id ∧
      (∀ r, db.active r id → db'.active r id) ∧ (db.intends id → db'.intends id)) := by
  intro db' h
  cases h
  refine ⟨?_, fun r hactive => ?_, fun hintends => ?_⟩
  · show (Registry.updateOwners _ _ _).owner? id = _
    rw [owner?_updateOwners]
    show (db.owner? id).map _ = _
    cases ho : db.owner? id with
    | none => rfl
    | some o =>
      have hother : o.id ≠ n := (id_of_owner? ho).trans_ne hne
      simp [hother]
  · have hexec : db.exec (.releaseReservations env.clock n) = .ok _ := rfl
    have hrelease := exec_active hexec hactive
    rcases hrelease with h | ⟨-, ⟨_, h⟩ | ⟨_, h⟩⟩
    · exact h
    · cases h
    · cases h
      exact absurd rfl hne
  · refine intends_update (fun i hid => ?_) hintends
    simp [hid, hne]

/-- What is left as it was of an owner with this row. -/
structure Untouched (id : OwnerId) (o : Owner) (db db' : Registry) : Prop where
  row : db'.owner? id = some o
  held : ∀ r, db.active r id → db'.active r id
  intent : o.state.live = true → db.intends id → db'.intends id

/-- A sweep leaves a spared owner as it was. -/
theorem sweep_spares {staleSeconds : ℚ} (ho : db.owner? id = some o)
    (hspared : Spared env staleSeconds o) :
    Ensures (sweepLocked env db staleSeconds) (Untouched id o db) := by
  refine Ensures.bind (P := Untouched id o db) ?_ ?_
  · refine Ensures.foldlM ⟨ho, fun _ h => h, fun _ h => h⟩ (fun db₁ o₁ hmem h₁ => ?_)
    refine Ensures.ite (fun _ => Ensures.pure h₁) (fun hplain => ?_)
    refine Ensures.ite (fun _ => Ensures.pure h₁) (fun hdead => ?_)
    obtain ⟨hrow, hsel⟩ := List.mem_filter.mp hmem
    simp only [Bool.and_eq_true, decide_eq_true_eq] at hsel
    have hne : id ≠ o₁.id := by
      intro heq
      have hsame : o₁ = o := by
        have hfind := owner?_eq_some.mpr ⟨hrow, rfl⟩
        rw [← heq, ho] at hfind
        exact (Option.some.inj hfind).symm
      subst hsame
      rcases hspared with h | h | h
      · exact hplain h
      · exact hdead h
      · exact absurd hsel.2 (not_lt.mpr h)
    refine (releaseLocked_other hne).mono (fun db₂ ⟨hrow₂, hheld₂, hintent₂⟩ => ?_)
    exact ⟨hrow₂.trans h₁.row, fun r hr => hheld₂ r (h₁.held r hr),
      fun hlive hi => hintent₂ (h₁.intent hlive hi)⟩
  · intro db₁ h₁ db₂ h₂
    cases h₂
    refine ⟨h₁.row, h₁.held, fun hlive hi => intends_update (fun i hid => ?_) (h₁.intent hlive hi)⟩
    -- the owner of the intent is live
    have horphan : db₁.owners.rows.any (fun o => o.id = i.ownerId && !o.state.live) = false := by
      apply Bool.eq_false_iff.mpr
      intro hany
      obtain ⟨o₁, hmem, hcond⟩ := List.any_eq_true.mp hany
      simp only [Bool.and_eq_true, decide_eq_true_eq] at hcond
      have hfind := owner?_eq_some.mpr ⟨hmem, hcond.1.trans hid⟩
      rw [h₁.row] at hfind
      cases hfind
      rw [hlive] at hcond
      cases hcond.2
    rw [horphan, Bool.and_false]

end Sweep

section Rules

theorem ensures_sweep {staleSeconds : ℚ}
    (hrelease : ∀ db id, I db → Ensures (releaseLocked env db id .stale) I)
    (horphans : ∀ db, I db → Ensures (db.exec (.releaseOrphanIntents env.clock)) I) (h : I db) :
    Ensures (sweepLocked env db staleSeconds) I := by
  refine Ensures.bind (Ensures.foldlM h (fun db o _ hdb => ?_)) horphans
  refine Ensures.ite (fun _ => Ensures.pure hdb) (fun _ => ?_)
  exact Ensures.ite (fun _ => Ensures.pure hdb) (fun _ => hrelease db o.id hdb)

theorem ensures_reconcile {projectRoot : String} {pid : ℕ} {live : List OwnerId}
    (hrelease : ∀ db id, I db → Ensures (releaseLocked env db id .orphaned) I) (h : I db) :
    Ensures (reconcileCurrentServiceOwners env db projectRoot pid live) (fun r => I r.1) := by
  unfold reconcileCurrentServiceOwners
  split
  · exact Ensures.pure h
  · refine Ensures.foldlM h (fun acc o _ hacc => ?_)
    refine Ensures.ite (fun _ => Ensures.pure hacc) (fun _ => ?_)
    refine Ensures.ite (fun _ => Ensures.pure hacc) (fun _ => ?_)
    exact Ensures.bind (hrelease acc.1 o.id hacc) (fun db hdb => Ensures.pure hdb)

theorem ensures_preemptAll {victims : List Owner}
    (hpreempt : ∀ db, ∀ o ∈ victims, I db → Ensures (db.exec (.preempt env.clock o.id)) I)
    (h : I db) : Ensures (preemptAll env db victims) I :=
  Ensures.foldlM h (fun db o ho hdb => hpreempt db o ho hdb)

theorem ensures_requestPreemption {request : Request} {priorityClass : PriorityClass}
    (hselect : selectLocked env db request = .ok none)
    (hpreempt : ∀ db', ∀ id ∈ bumpedOwners env db request priorityClass, I db' →
      Ensures (db'.exec (.preempt env.clock id)) I) (h : I db) :
    Ensures (requestPreemptionLocked env db request priorityClass) (fun r => I r.1) := by
  refine Ensures.bind Ensures.of_eq (fun choice hchoice => ?_)
  cases choice with
  | none => exact Ensures.pure h
  | some c =>
    have hbumped : bumpedOwners env db request priorityClass = c.owners.map (·.id) := by
      rw [bumpedOwners, hselect, hchoice]
    refine Ensures.bind (ensures_preemptAll (fun db' o ho hdb' => ?_) h)
      (fun db' hdb' => Ensures.pure hdb')
    refine hpreempt db' o.id ?_ hdb'
    rw [hbumped]
    exact List.mem_map_of_mem ho

/-- The owner of the reservations is active while they are inserted. -/
theorem ensures_insertReservations {id : OwnerId} {resources : List ResourceId}
    (hinsert : ∀ db (new : Reservation), new.state = .active →
      (∃ o, db.owner? new.ownerId = some o ∧ o.state = .active) → I db →
      Ensures (db.exec (.insertReservation new)) I)
    (howner : ∃ o, db.owner? id = some o ∧ o.state = .active) (h : I db) :
    Ensures (insertReservations env db id resources) I := by
  have hloop : Ensures (insertReservations env db id resources)
      (fun db => I db ∧ ∃ o, db.owner? id = some o ∧ o.state = .active) := by
    refine Ensures.foldlM ⟨h, howner⟩ (fun db r _ hdb => ?_)
    refine Ensures.and (hinsert db _ rfl hdb.2 hdb.1) (fun db' hdb' => ?_)
    obtain ⟨howners, -⟩ := insertReservation_cases hdb'
    have hsame : db'.owner? id = db.owner? id := by
      rw [Registry.owner?, howners]
      rfl
    rw [hsame]
    exact hdb.2
  exact hloop.mono (fun _ h => h.1)

theorem owner_active_of_insert {db' : Registry} {new : Owner} (hnew : new.state = .active)
    (h : db.insertOwner new = .ok db') :
    ∃ o, db'.owner? new.id = some o ∧ o.state = .active := by
  rcases owner?_insertOwner h with ⟨hp, rfl⟩ | ⟨-, hlookup, -⟩
  · obtain ⟨o, ho, -, hs⟩ := protects_iff.mp hp
    exact ⟨o, ho, hs⟩
  · exact ⟨new, by rw [hlookup, if_pos rfl], hnew⟩

theorem owner_live_of_insert {db' : Registry} {new : Owner} (hnew : new.state.live = true)
    (h : db.insertOwner new = .ok db') :
    ∃ o, db'.owner? new.id = some o ∧ o.state.live = true := by
  rcases owner?_insertOwner h with ⟨hp, rfl⟩ | ⟨-, hlookup, -⟩
  · obtain ⟨o, ho, -, hs⟩ := protects_iff.mp hp
    exact ⟨o, ho, by rw [hs]; rfl⟩
  · exact ⟨new, by rw [hlookup, if_pos rfl], hnew⟩

theorem ensures_reserve {victims : OwnerId → Prop} (hI : Requests env victims I)
    {request : Request} {new : Owner} (hactive : new.state = .active)
    (hbeat : new.heartbeatAt = env.clock) (hplain : new.residencyProtected = false)
    (hvictims : ∀ id ∈ bumpedOwners env db request new.priorityClass, victims id) (h : I db) :
    Ensures (reserveLocked env db request new) (fun r => I r.1) := by
  refine Ensures.bind Ensures.of_eq (fun selected hselect => ?_)
  cases selected with
  | none =>
    refine Ensures.bind (ensures_requestPreemption hselect ?_ h) (fun r hr => Ensures.pure hr)
    exact fun db' id hid hdb' => hI.preempt db' id (hvictims id hid) hdb'
  | some resources =>
    have hlive : new.state.live = true := by
      rw [hactive]
      rfl
    refine Ensures.bind (Ensures.and Ensures.of_eq (hI.insertOwner db new hlive hbeat hplain h)) ?_
    rintro db' ⟨hdb', h'⟩
    refine Ensures.bind ?_ (fun db'' hdb'' => Ensures.pure hdb'')
    exact ensures_insertReservations hI.insertReservation (owner_active_of_insert hactive hdb') h'

theorem foregroundVictims_insert {db' : Registry} {new : Owner} {i : Intent} {db'' : Registry}
    {request : Request} {priorityClass : PriorityClass} {resources : List ResourceId}
    (hnew : new.state = .intent) (h : db.insertOwner new = .ok db')
    (h' : db'.insertIntent i = .ok db'') :
    foregroundVictims env db'' request priorityClass resources =
      foregroundVictims env db request priorityClass resources := by
  have hrows : db''.owners.rows.filter (fun o => o.state = .active) =
      db.owners.rows.filter (fun o => o.state = .active) ∧
      db''.reservations = db.reservations := by
    have hsame : db''.owners = db'.owners ∧ db''.reservations = db'.reservations := by
      unfold Registry.insertIntent at h'
      split at h'
      · cases h'
        exact ⟨rfl, rfl⟩
      · split at h' <;> cases h'
        exact ⟨rfl, rfl⟩
    rw [hsame.1, hsame.2]
    unfold Registry.insertOwner at h
    split at h
    · cases h
      exact ⟨rfl, rfl⟩
    · split at h
      · rename_i owners hinsert
        cases h
        unfold Sql.Table.insert? at hinsert
        split at hinsert <;> cases hinsert
        refine ⟨?_, rfl⟩
        show (db.owners.rows ++ [new]).filter _ = _
        rw [List.filter_append, List.filter_cons_of_neg (by simp [hnew])]
        simp
      · cases h
  unfold foregroundVictims
  rw [hrows.1, hrows.2]

theorem ensures_foregroundResources {victims : OwnerId → Prop} (hI : Requests env victims I)
    {request : Request} {priorityClass : PriorityClass}
    (hvictims : ∀ id ∈ bumpedOwners env db request priorityClass, victims id) (h : I db) :
    Ensures (foregroundResources env db request priorityClass) (fun r => I r.1) := by
  refine Ensures.bind Ensures.of_eq (fun selected hselect => ?_)
  cases selected with
  | some resources => exact Ensures.pure h
  | none =>
    refine Ensures.bind (ensures_requestPreemption hselect ?_ h) (fun r hr => ?_)
    · exact fun db' id hid hdb' => hI.preempt db' id (hvictims id hid) hdb'
    · dsimp only
      refine Ensures.ite (fun _ => Ensures.pure hr) (fun _ => ?_)
      exact Ensures.bind (P := fun _ => True) (fun _ _ => trivial) (fun _ _ => Ensures.pure hr)

theorem Background.sweep {victims : OwnerId → Prop} (hI : Background env victims I)
    {staleSeconds : ℚ} (h : I db) : Ensures (sweepLocked env db staleSeconds) I :=
  ensures_sweep (fun db id hdb => hI.release db id .stale rfl hdb) hI.orphans h

theorem ensures_foreground {victims : OwnerId → Prop} (hI : Requests env victims I)
    {projectRoot : String} {request : Request} {pid : ℕ} {priorityClass : PriorityClass}
    (hvictims : ∀ id ∈ signalledOwners env db
      (.beginForeground projectRoot request pid priorityClass), victims id)
    (h : Ensures (sweepLocked env db staleSeconds) I) :
    Ensures (beginForeground env db projectRoot request pid priorityClass) (fun r => I r.1) := by
  refine Ensures.bind (Ensures.and Ensures.of_eq h) ?_
  rintro swept ⟨hsweep, hswept⟩
  simp only [signalledOwners, hsweep, List.mem_append] at hvictims
  have hbumped := fun id hid => hvictims id (.inl hid)
  refine Ensures.bind (Ensures.and Ensures.of_eq
    (ensures_foregroundResources hI hbumped hswept)) ?_
  rintro ⟨db₁, resources⟩ ⟨hresources, h₁⟩
  rw [hresources] at hvictims
  refine Ensures.bind (Ensures.and Ensures.of_eq (hI.insertOwner db₁ _ rfl rfl rfl h₁)) ?_
  rintro db₂ ⟨hinsert, h₂⟩
  have howner := owner_live_of_insert (by rfl) hinsert
  refine Ensures.bind (Ensures.and Ensures.of_eq (hI.insertIntent db₂ _ howner h₂)) ?_
  rintro db₃ ⟨hintent, h₃⟩
  refine Ensures.bind (ensures_preemptAll (fun db' o ho hdb' => ?_) h₃)
    (fun db' hdb' => Ensures.pure hdb')
  rw [foregroundVictims_insert rfl hinsert hintent] at ho
  exact hI.preempt db' o.id (hvictims o.id (.inr (List.mem_map_of_mem ho))) hdb'

/-- The calls that sweep and then reserve or ask for resources. -/
def Call.requests : Call → Bool
  | .reserveBackground _ _ _ _ _ | .reserveService _ _ _ _ _ | .beginForeground _ _ _ _ => true
  | _ => false

theorem ensures_requests {victims : OwnerId → Prop} (hI : Requests env victims I) {call : Call}
    (hcall : call.requests = true) (hvictims : ∀ id ∈ signalledOwners env db call, victims id)
    (h : Ensures (sweepLocked env db staleSeconds) I) :
    Ensures (transact hashes env db call) I := by
  cases call with
  | reserveBackground projectRoot jobId attemptId request pid =>
    refine Ensures.map (Ensures.bind (Ensures.and Ensures.of_eq h) ?_)
    rintro swept ⟨hsweep, hswept⟩
    simp only [signalledOwners, hsweep] at hvictims
    exact ensures_reserve hI rfl rfl rfl hvictims hswept
  | reserveService projectRoot serviceId request pid priorityClass =>
    refine Ensures.map (Ensures.bind (Ensures.and Ensures.of_eq h) ?_)
    rintro swept ⟨hsweep, hswept⟩
    simp only [signalledOwners, hsweep] at hvictims
    exact ensures_reserve hI rfl rfl rfl hvictims hswept
  | beginForeground projectRoot request pid priorityClass =>
    exact Ensures.map (ensures_foreground hI hvictims h)
  | upsertResources | replaceResources | sweepStale | reconcileCurrentServiceOwners | setPriority
  | requestPreemption | activateForeground | heartbeat | protectResidency
  | recordResidencyProcess | release => cases hcall

/-- The calls whose statements are all among those of `Background`. -/
def Call.background : Call → Bool
  | .upsertResources _ | .replaceResources _ _ | .sweepStale _
  | .reconcileCurrentServiceOwners _ _ _ | .reserveBackground _ _ _ _ _
  | .reserveService _ _ _ _ _ | .beginForeground _ _ _ _ => true
  | .setPriority _ _ | .requestPreemption _ | .activateForeground _ _ | .heartbeat _ _
  | .protectResidency _ _ | .recordResidencyProcess _ _ _ _ | .release _ _ _ _ => false

theorem ensures_background {victims : OwnerId → Prop} (hI : Background env victims I) {call : Call}
    (hcall : call.background = true)
    (hvictims : ∀ id ∈ signalledOwners env db call, victims id) (h : I db) :
    Ensures (transact hashes env db call) I := by
  cases call with
  | upsertResources items => exact hI.resources db _ h
  | replaceResources kind items =>
    exact Ensures.ite (fun _ => Ensures.error) (fun _ => hI.resources db _ h)
  | sweepStale staleSeconds =>
    exact Ensures.map (Ensures.bind (hI.sweep h) (fun db' hdb' => Ensures.pure hdb'))
  | reconcileCurrentServiceOwners projectRoot pid live =>
    refine Ensures.map (ensures_reconcile (fun db id hdb => ?_) h)
    exact hI.release db id .orphaned rfl hdb
  | reserveBackground | reserveService | beginForeground =>
    exact ensures_requests hI.toRequests rfl hvictims (hI.sweep h)
  | setPriority | requestPreemption | activateForeground | heartbeat | protectResidency
  | recordResidencyProcess | release => cases hcall

theorem ensures_setPriority {id : OwnerId} {priorityClass : PriorityClass} (h : I db)
    (hexec : Ensures (db.exec (.setPriority env.clock id priorityClass)) I) :
    Ensures (setPriority env db id priorityClass) (fun r => I r.1) := by
  unfold setPriority
  split
  · exact Ensures.pure h
  · refine Ensures.ite (fun _ => Ensures.pure h) (fun _ => ?_)
    exact Ensures.bind hexec (fun _ h => Ensures.pure h)

theorem ensures_activateForeground {id : OwnerId} {resources : List ResourceId}
    (hsweep : Ensures (sweepLocked env db staleSeconds) I)
    (hreserve : ∀ db r, I db →
      Ensures (db.exec (.insertReservation ⟨r, id, .active, env.clock, env.clock⟩)) I)
    (hactivate : ∀ db, I db → Ensures (db.exec (.activate env.clock id)) I) :
    Ensures (activateForeground env db id resources) (fun r => I r.1) := by
  refine Ensures.bind hsweep (fun swept hswept => ?_)
  refine Ensures.ite (fun _ => Ensures.pure hswept) (fun _ => ?_)
  refine Ensures.bind (Ensures.foldlM hswept (fun db r _ hdb => hreserve db r hdb)) ?_
  exact fun db₁ h₁ => Ensures.bind (hactivate db₁ h₁) (fun _ h => Ensures.pure h)

/-- Only an active owner that is not protected yet becomes protected. -/
theorem ensures_protectResidency {id : OwnerId} {baseline : List (String × Option ℚ)}
    (hexec : ∀ o, db.owner? id = some o → protectable env db o baseline = true →
      o.residencyProtected = false →
      Ensures (db.exec (.protect id (reservedMetadata hashes env db id baseline))) I) :
    Ensures (protectResidency hashes env db id baseline) (fun r => I r.1) := by
  unfold protectResidency
  split
  · exact Ensures.error
  · rename_i o ho
    refine Ensures.ite (fun _ => Ensures.error) (fun hprotectable => ?_)
    refine Ensures.ite (fun _ => Ensures.error) (fun hplain => ?_)
    have hexec := hexec o ho (by simpa using hprotectable) (by simpa using hplain)
    exact Ensures.bind hexec (fun _ h => Ensures.pure h)

/-- Only a protected owner gets a process recorded, and a second time only the same. -/
theorem ensures_recordResidencyProcess {id : OwnerId} {pid : ℕ} {capability generation : String}
    (hexec : ∀ o metadata start, db.owner? id = some o → env.processStart pid = some start →
      o.residencyProtected = true → o.residencyMetadata = some metadata →
      (metadata.phase = .spawned → metadata.modelPid = some pid ∧
        metadata.processStart = some start) →
      Ensures (db.exec (.recordProcess env.clock id pid start { metadata with
        phase := .spawned, modelPid := some pid, processStart := some start })) I) :
    Ensures (recordResidencyProcess hashes env db id pid capability generation) I := by
  unfold recordResidencyProcess
  split
  · rename_i o start ho hstart
    have hread := (Option.filter_eq_some_iff.mp hstart).1
    refine Ensures.ite (fun _ => Ensures.error) (fun hprotected => ?_)
    split
    · exact Ensures.error
    · rename_i metadata hmetadata
      refine Ensures.bind (P := fun _ => True) (fun _ _ => trivial) (fun _ _ => ?_)
      refine Ensures.ite (fun _ => Ensures.error) (fun _ => ?_)
      refine Ensures.ite (fun _ => Ensures.error) (fun himmutable => ?_)
      refine Ensures.ite (fun _ => Ensures.error) (fun _ => ?_)
      refine hexec o metadata start ho hread ?_ hmetadata (fun hphase => ?_)
      · simpa using (not_or.mp hprotected).2
      · have hsame := not_or.mp (not_and.mp himmutable hphase)
        exact ⟨not_not.mp hsame.1, not_not.mp hsame.2⟩
  · exact Ensures.error

theorem ensures_release {id : OwnerId} {proof : Option Quiescence}
    {capability generation : Option String}
    (hplain : (∀ o, db.owner? id = some o → o.residencyProtected = false) →
      Ensures (releaseLocked env db id .released) I)
    (hverified : ∀ o db', db.owner? id = some o → o.residencyProtected = true →
      verifyRelease hashes env db o proof capability generation = .ok () →
      db.exec (.unprotect id) = .ok db' → Ensures (releaseLocked env db' id .released) I) :
    Ensures (release hashes env db id proof capability generation) I := by
  unfold release
  split
  · rename_i hnone
    refine hplain (fun o ho => ?_)
    rw [ho] at hnone
    cases hp : o.residencyProtected with
    | false => rfl
    | true => simp [Option.filter, hp] at hnone
  · rename_i o hsome
    obtain ⟨ho, hp⟩ := Option.filter_eq_some_iff.mp hsome
    refine Ensures.bind Ensures.of_eq (fun _ hverify => ?_)
    exact Ensures.bind Ensures.of_eq (fun db' hdb' => hverified o db' ho hp hverify hdb')

theorem step_of_ensures {a : Action} (h : I db) (hall : Ensures (transact hashes a.env db a.call) I) :
    I (step hashes db a) := by
  unfold step
  cases hcommit : transact hashes a.env db a.call with
  | error e => exact h
  | ok db' => exact hall db' hcommit

end Rules

end ProjectControl.HostResources
