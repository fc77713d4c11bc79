import ProjectControl.HostCommits

/-! The rows that the calls of `HostCoordinator` can insert, and what follows for every
registry that they reach. -/

set_option autoImplicit false

namespace ProjectControl.HostResources

open Sql

variable {hashes : Hashes} {env : Env} {db db' : Registry} {I : Registry → Prop} {id : OwnerId}
  {o : Owner} {request : Request} {call : Call} {a : Action}

section Issued

/-- The row that a call inserts into `host_owners`, if it gets that far. -/
def Call.newOwner (hashes : Hashes) (env : Env) : Call → Option Owner
  | .reserveBackground projectRoot jobId attemptId request pid =>
    some (reservedOwner env (backgroundOwnerId hashes projectRoot jobId attemptId) .background
      projectRoot request pid .backgroundCuda (some jobId) (some attemptId) none)
  | .reserveService projectRoot serviceId request pid priorityClass =>
    some (reservedOwner env (serviceOwnerId hashes env projectRoot serviceId) .service projectRoot
      request pid priorityClass none none (some serviceId))
  | .beginForeground projectRoot request pid priorityClass =>
    some (foregroundOwner env projectRoot request pid priorityClass)
  | _ => none

/-- The owner that a call inserts reservations for, if it gets that far. -/
def Call.holder (hashes : Hashes) (env : Env) : Call → Option OwnerId
  | .reserveBackground projectRoot jobId attemptId _ _ =>
    some (backgroundOwnerId hashes projectRoot jobId attemptId)
  | .reserveService projectRoot serviceId _ _ _ =>
    some (serviceOwnerId hashes env projectRoot serviceId)
  | .activateForeground id _ => some id
  | _ => none

/-- The process whose identity a call writes. -/
def Call.process? : Call → Option ℕ
  | .reserveBackground _ _ _ _ pid | .reserveService _ _ _ pid _ | .beginForeground _ _ pid _
  | .recordResidencyProcess _ pid _ _ => some pid
  | .heartbeat _ pid => pid
  | _ => none

/-- The statements that the transaction of a call runs, by the state that they run in. -/
def Statement.issuedBy (hashes : Hashes) (env : Env) (call : Call) (db : Registry) :
    Statement → Prop
  | .setResources resources => (db.resources.map (·.id)).Nodup → (resources.map (·.id)).Nodup
  | .insertOwner new => call.newOwner hashes env = some new
  | .insertReservation new => call.holder hashes env = some new.ownerId
  | .insertIntent new => new.ownerId = foregroundOwnerId env
  | .protect id _ => ∃ o, db.owner? id = some o ∧ o.ownerKind = .service
  | .beat _ _ pid start =>
    pid = call.process? ∧ start = (pid.filter (· ≠ 0)).bind env.processStart
  | .recordProcess _ _ pid start _ => call.process? = some pid ∧ env.processStart pid = some start
  | .deleteOwners _ | .deleteReservations _ | .deleteIntents _ => False
  | _ => True

/-- A rule for the invariants that the statements of a call keep. -/
def Keeps (hashes : Hashes) (env : Env) (call : Call) (I : Registry → Prop) : Prop :=
  ∀ db s, s.issuedBy hashes env call db → I db → Ensures (db.exec s) I

theorem upsertResource_ids (resources : List Resource) (new : Resource)
    (h : (resources.map (·.id)).Nodup) : ((upsertResource resources new).map (·.id)).Nodup := by
  unfold upsertResource
  split
  · have hsame : (resources.map (fun r => if r.id = new.id then new else r)).map (·.id) =
        resources.map (·.id) := by
      rw [List.map_map]
      refine List.map_congr_left (fun r _ => ?_)
      by_cases hid : r.id = new.id <;> simp [hid]
    rw [hsame]
    exact h
  · rename_i hfresh
    rw [List.map_append, List.nodup_append]
    refine ⟨h, List.nodup_singleton _, fun x hx y hy heq => hfresh ?_⟩
    obtain ⟨r, hr, rfl⟩ := List.mem_map.mp hx
    have hy' : y = new.id := by simpa using hy
    exact List.any_eq_true.mpr ⟨r, hr, decide_eq_true (heq.trans hy')⟩

theorem upsertResources_ids {items : List Resource} {resources : List Resource}
    (h : (resources.map (·.id)).Nodup) : ((items.foldl (fun resources item =>
      upsertResource resources { item with updatedAt := env.clock }) resources).map
        (·.id)).Nodup := by
  induction items generalizing resources with
  | nil => exact h
  | cons item rest ih => exact ih (upsertResource_ids _ _ h)

theorem Keeps.release (hI : Keeps hashes env call I) {state : OwnerState} (h : I db) :
    Ensures (releaseLocked env db id state) I :=
  Ensures.bind (hI _ _ trivial h) (fun _ h => Ensures.bind (hI _ _ trivial h)
    (fun _ h => hI _ _ trivial h))

theorem Keeps.sweep (hI : Keeps hashes env call I) {staleSeconds : ℚ} (h : I db) :
    Ensures (sweepLocked env db staleSeconds) I :=
  ensures_sweep (fun _ _ h => hI.release h) (fun _ h => hI _ _ trivial h) h

theorem Keeps.preemptAll (hI : Keeps hashes env call I) {victims : List Owner} (h : I db) :
    Ensures (preemptAll env db victims) I :=
  ensures_preemptAll (fun _ _ _ h => hI _ _ trivial h) h

theorem Keeps.requestPreemption (hI : Keeps hashes env call I) {priorityClass : PriorityClass}
    (h : I db) : Ensures (requestPreemptionLocked env db request priorityClass)
      (fun r => I r.1) := by
  refine Ensures.bind (P := fun _ => True) (fun _ _ => trivial) (fun choice _ => ?_)
  cases choice with
  | none => exact Ensures.pure h
  | some c => exact Ensures.bind (hI.preemptAll h) (fun _ h => Ensures.pure h)

theorem Keeps.insertReservations (hI : Keeps hashes env call I) {resources : List ResourceId}
    (hholder : call.holder hashes env = some id) (h : I db) :
    Ensures (insertReservations env db id resources) I :=
  Ensures.foldlM h (fun _ _ _ h => hI _ (.insertReservation _) hholder h)

theorem Keeps.reserve (hI : Keeps hashes env call I) {new : Owner}
    (hnew : call.newOwner hashes env = some new)
    (hholder : call.holder hashes env = some new.id) (h : I db) :
    Ensures (reserveLocked env db request new) (fun r => I r.1) := by
  refine Ensures.bind (P := fun _ => True) (fun _ _ => trivial) (fun selected _ => ?_)
  cases selected with
  | none => exact Ensures.bind (hI.requestPreemption h) (fun _ h => Ensures.pure h)
  | some resources =>
    exact Ensures.bind (hI _ (.insertOwner new) hnew h) (fun _ h =>
      Ensures.bind (hI.insertReservations hholder h) (fun _ h => Ensures.pure h))

theorem Keeps.foregroundResources {priorityClass : PriorityClass} (hI : Keeps hashes env call I)
    (h : I db) : Ensures (foregroundResources env db request priorityClass) (fun r => I r.1) := by
  refine Ensures.bind (P := fun _ => True) (fun _ _ => trivial) (fun selected _ => ?_)
  cases selected with
  | some resources => exact Ensures.pure h
  | none =>
    refine Ensures.bind (hI.requestPreemption h) (fun r hr => ?_)
    dsimp only
    refine Ensures.ite (fun _ => Ensures.pure hr) (fun _ => ?_)
    exact Ensures.bind (P := fun _ => True) (fun _ _ => trivial) (fun _ _ => Ensures.pure hr)

theorem Keeps.foreground {projectRoot : String} {pid : ℕ} {priorityClass : PriorityClass}
    (hI : Keeps hashes env (.beginForeground projectRoot request pid priorityClass) I)
    (h : I db) : Ensures (beginForeground env db projectRoot request pid priorityClass)
      (fun r => I r.1) := by
  refine Ensures.bind (hI.sweep h) (fun swept h => ?_)
  refine Ensures.bind (hI.foregroundResources h) ?_
  rintro ⟨db₁, resources⟩ h
  refine Ensures.bind (hI _ (.insertOwner _) rfl h) (fun _ h => ?_)
  refine Ensures.bind (hI _ (.insertIntent _) rfl h) (fun _ h => ?_)
  exact Ensures.bind (hI.preemptAll h) (fun _ h => Ensures.pure h)

/-- What every statement of a call keeps, the call keeps. -/
theorem Keeps.transact (hI : Keeps hashes env call I) (h : I db) :
    Ensures (transact hashes env db call) I := by
  cases call with
  | upsertResources items => exact hI _ (.setResources _) upsertResources_ids h
  | replaceResources kind items =>
    refine Ensures.ite (fun _ => Ensures.error) (fun _ => hI _ (.setResources _) (fun hids => ?_) h)
    refine upsertResources_ids ?_
    rw [List.map_map]
    refine (List.map_congr_left (fun r _ => ?_)).symm ▸ hids
    by_cases hkind : r.kind = kind <;> simp [hkind]
  | sweepStale staleSeconds =>
    exact Ensures.map (Ensures.bind (hI.sweep h) (fun _ h => Ensures.pure h))
  | reconcileCurrentServiceOwners projectRoot pid live =>
    exact Ensures.map (ensures_reconcile (fun _ _ h => hI.release h) h)
  | reserveBackground projectRoot jobId attemptId request pid =>
    exact Ensures.map (Ensures.bind (hI.sweep h) (fun _ h => hI.reserve rfl rfl h))
  | reserveService projectRoot serviceId request pid priorityClass =>
    exact Ensures.map (Ensures.bind (hI.sweep h) (fun _ h => hI.reserve rfl rfl h))
  | setPriority n priorityClass => exact Ensures.map (ensures_setPriority h (hI _ _ trivial h))
  | requestPreemption n =>
    exact Ensures.map (Ensures.bind (hI _ _ trivial h) (fun _ h => Ensures.pure h))
  | beginForeground projectRoot request pid priorityClass => exact Ensures.map (hI.foreground h)
  | activateForeground n resources =>
    exact Ensures.map (ensures_activateForeground (hI.sweep h)
      (fun _ _ h => hI _ (.insertReservation _) rfl h) (fun _ h => hI _ _ trivial h))
  | heartbeat n pid =>
    exact Ensures.bind (hI _ (.beat _ _ _ _) ⟨rfl, rfl⟩ h) (fun _ h => hI _ _ trivial h)
  | protectResidency n baseline =>
    refine Ensures.map (ensures_protectResidency (fun o ho hprotectable _ => hI _ _ ?_ h))
    refine ⟨o, ho, ?_⟩
    unfold protectable at hprotectable
    simp only [Bool.and_eq_true, decide_eq_true_eq] at hprotectable
    tauto
  | recordResidencyProcess n pid capability generation =>
    exact ensures_recordResidencyProcess (fun _ _ _ _ hstart _ _ _ =>
      hI _ (.recordProcess _ _ _ _ _) ⟨rfl, hstart⟩ h)
  | release n proof capability generation =>
    refine ensures_release (fun _ => hI.release h) (fun _ db' _ _ _ hdb' => ?_)
    exact hI.release (hI _ (.unprotect n) trivial h db' hdb')

/-- And so does a run. -/
theorem run_of_keeps (hI : ∀ env call, Keeps hashes env call I) (actions : List Action)
    (h : I db) : I (actions.foldl (step hashes) db) := by
  induction actions generalizing db with
  | nil => exact h
  | cons a rest ih => exact ih (step_of_ensures h ((hI a.env a.call).transact h))

end Issued

section Outcomes

variable {new : Owner} {reply : OwnerId × List ResourceId}

/-- A reservation that is granted inserts its owner and then the selected resources. -/
theorem reserve_granted (h : reserveLocked env db request new = .ok (db', some reply)) :
    ∃ resources db₁, selectLocked env db request = .ok (some resources) ∧
      db.insertOwner new = .ok db₁ ∧ insertReservations env db₁ new.id resources = .ok db' ∧
      reply = (new.id, resources.filter isAccelerator) := by
  have hcases : Ensures (reserveLocked env db request new) (fun out => ∀ reply, out.2 = some reply →
      ∃ resources db₁, selectLocked env db request = .ok (some resources) ∧
        db.insertOwner new = .ok db₁ ∧ insertReservations env db₁ new.id resources = .ok out.1 ∧
        reply = (new.id, resources.filter isAccelerator)) := by
    refine Ensures.bind Ensures.of_eq (fun selected hselected => ?_)
    cases selected with
    | none =>
      exact Ensures.bind (P := fun _ => True) (fun _ _ => trivial)
        (fun _ _ => Ensures.pure (fun reply hreply => by cases hreply))
    | some resources =>
      refine Ensures.bind Ensures.of_eq (fun db₁ hdb₁ => ?_)
      refine Ensures.bind Ensures.of_eq (fun db₂ hdb₂ => Ensures.pure (fun reply hreply => ?_))
      cases hreply
      exact ⟨resources, db₁, hselected, hdb₁, hdb₂, rfl⟩
  exact hcases _ h reply rfl

/-- One that is not granted only signals. -/
theorem reserve_refused (h : reserveLocked env db request new = .ok (db', none)) :
    selectLocked env db request = .ok none ∧
      ∃ resources, requestPreemptionLocked env db request new.priorityClass =
        .ok (db', resources) := by
  have hcases : Ensures (reserveLocked env db request new) (fun out => out.2 = none →
      selectLocked env db request = .ok none ∧
        ∃ resources, requestPreemptionLocked env db request new.priorityClass =
          .ok (out.1, resources)) := by
    refine Ensures.bind Ensures.of_eq (fun selected hselected => ?_)
    cases selected with
    | none =>
      exact Ensures.bind Ensures.of_eq
        (fun out hout => Ensures.pure (fun _ => ⟨hselected, out.2, hout⟩))
    | some resources =>
      refine Ensures.bind (P := fun _ => True) (fun _ _ => trivial) (fun _ _ => ?_)
      exact Ensures.bind (P := fun _ => True) (fun _ _ => trivial)
        (fun _ _ => Ensures.pure (fun hnone => by cases hnone))
  exact hcases _ h rfl

/-- A resource is taken by its holder or claimed by an intent. -/
theorem mem_activeResourceIds {r : ResourceId} : r ∈ activeResourceIds db ↔
    (∃ n, db.active r n) ∨ ∃ i ∈ db.intents, i.state = .active ∧ r ∈ i.resources := by
  unfold activeResourceIds
  rw [List.mem_append, List.mem_map, List.mem_flatMap]
  refine or_congr ⟨?_, ?_⟩ ⟨?_, ?_⟩
  · rintro ⟨x, hx, rfl⟩
    obtain ⟨hx, hs⟩ := List.mem_filter.mp hx
    exact ⟨x.ownerId, x, hx, rfl, rfl, by simpa using hs⟩
  · rintro ⟨n, x, hx, rfl, -, hs⟩
    exact ⟨x, List.mem_filter.mpr ⟨hx, by simp [hs]⟩, rfl⟩
  · rintro ⟨i, hi, hr⟩
    obtain ⟨hi, hs⟩ := List.mem_filter.mp hi
    exact ⟨i, hi, by simpa using hs, hr⟩
  · rintro ⟨i, hi, hs, hr⟩
    exact ⟨i, List.mem_filter.mpr ⟨hi, by simp [hs]⟩, hr⟩

/-- The resources that are selected are distinct, and none of them is taken or claimed. -/
theorem select_free : Ensures (selectLocked env db request) (fun out => ∀ resources,
    out = some resources → resources.Nodup ∧ ∀ r ∈ resources, r ∉ activeResourceIds db) := by
  refine Ensures.ite (fun _ => Ensures.pure (fun _ h => by cases h)) (fun _ => ?_)
  refine Ensures.bind (P := fun _ => True) (fun _ _ => trivial) (fun found _ => Ensures.pure ?_)
  intro resources hfound
  obtain ⟨bundle, -, rfl⟩ := List.mem_map.mp (List.mem_of_find?_eq_some hfound)
  have hsel := List.find?_some hfound
  exact ⟨sortedSet_nodup _, fun r hr => by simpa using List.all_eq_true.mp hsel r hr⟩

/-- What `reserve_background` and `reserve_service` return. -/
def reservation (hashes : Hashes) (env : Env) (db : Registry) :
    Call → Except HostError (Registry × Option (OwnerId × List ResourceId))
  | .reserveBackground projectRoot jobId attemptId request pid =>
    reserveBackground hashes env db projectRoot jobId attemptId request pid
  | .reserveService projectRoot serviceId request pid priorityClass =>
    reserveService hashes env db projectRoot serviceId request pid priorityClass
  | _ => pure (db, none)

/-- The request of a call that can create an owner. -/
def Call.request? : Call → Option Request
  | .reserveBackground _ _ _ request _ | .reserveService _ _ request _ _
  | .beginForeground _ request _ _ => some request
  | _ => none

/-- A reservation that succeeds in a registry: what its sweep left, its owner, its request, what
it selected and the registry with the owner. -/
structure Reserves (hashes : Hashes) (env : Env) (db : Registry) (call : Call) (db' : Registry)
    (swept : Registry) (new : Owner) (request : Request) (resources : List ResourceId)
    (owned : Registry) : Prop where
  sweep : sweepLocked env db staleSeconds = .ok swept
  owner : call.newOwner hashes env = some new
  asked : call.request? = some request
  state : new.state = .active
  charge : new.cpuThreads = cpuThreads env request ∧ new.ramBytes = request.ramBytes
  select : selectLocked env swept request = .ok (some resources)
  insert : swept.insertOwner new = .ok owned
  reserve : insertReservations env owned new.id resources = .ok db'
  commit : transact hashes env db call = .ok db'

theorem reservation_succeeds (h : reservation hashes env db call = .ok (db', some reply)) :
    ∃ swept new request resources owned,
      Reserves hashes env db call db' swept new request resources owned ∧
        reply = (new.id, resources.filter isAccelerator) := by
  cases call with
  | reserveBackground projectRoot jobId attemptId request pid =>
    have hcommit : transact hashes env db (.reserveBackground projectRoot jobId attemptId request
        pid) = .ok db' := by
      show Prod.fst <$> reservation hashes env db (.reserveBackground projectRoot jobId attemptId
        request pid) = _
      rw [h]
      rfl
    have hcases : Ensures (reservation hashes env db (.reserveBackground projectRoot jobId attemptId
        request pid)) (fun out => ∃ swept, sweepLocked env db staleSeconds = .ok swept ∧
          reserveLocked env swept request (reservedOwner env (backgroundOwnerId hashes projectRoot
            jobId attemptId) .background projectRoot request pid .backgroundCuda (some jobId)
            (some attemptId) none) = .ok out) :=
      Ensures.bind Ensures.of_eq (fun swept hswept out hout => ⟨swept, hswept, hout⟩)
    obtain ⟨swept, hswept, hreserve⟩ := hcases _ h
    obtain ⟨resources, owned, hselect, hinsert, hloop, hreply⟩ := reserve_granted hreserve
    exact ⟨swept, _, request, resources, owned,
      ⟨hswept, rfl, rfl, rfl, ⟨rfl, rfl⟩, hselect, hinsert, hloop, hcommit⟩, hreply⟩
  | reserveService projectRoot serviceId request pid priorityClass =>
    have hcommit : transact hashes env db (.reserveService projectRoot serviceId request pid
        priorityClass) = .ok db' := by
      show Prod.fst <$> reservation hashes env db (.reserveService projectRoot serviceId request pid
        priorityClass) = _
      rw [h]
      rfl
    have hcases : Ensures (reservation hashes env db (.reserveService projectRoot serviceId request
        pid priorityClass)) (fun out => ∃ swept, sweepLocked env db staleSeconds = .ok swept ∧
          reserveLocked env swept request (reservedOwner env (serviceOwnerId hashes env projectRoot
            serviceId) .service projectRoot request pid priorityClass none none
            (some serviceId)) = .ok out) :=
      Ensures.bind Ensures.of_eq (fun swept hswept out hout => ⟨swept, hswept, hout⟩)
    obtain ⟨swept, hswept, hreserve⟩ := hcases _ h
    obtain ⟨resources, owned, hselect, hinsert, hloop, hreply⟩ := reserve_granted hreserve
    exact ⟨swept, _, request, resources, owned,
      ⟨hswept, rfl, rfl, rfl, ⟨rfl, rfl⟩, hselect, hinsert, hloop, hcommit⟩, hreply⟩
  | upsertResources | replaceResources | sweepStale | reconcileCurrentServiceOwners | setPriority
  | requestPreemption | beginForeground | activateForeground | heartbeat | protectResidency
  | recordResidencyProcess | release => cases h

/-- The reservation succeeds. -/
def Admitted (hashes : Hashes) (db : Registry) (a : Action) : Prop :=
  ∃ db' reply, reservation hashes a.env db a.call = .ok (db', some reply)

end Outcomes

section Labels

theorem startsWith_append (start rest : String) : startsWith (start ++ rest) start = true := by
  simp [startsWith, String.toList_append]

/-- Ids tell the owners apart: a service has a `service:` id, only services are protected, and
intents are of owners with a `foreground:` id. -/
structure Labelled (db : Registry) : Prop where
  service : ∀ id o, db.owner? id = some o → o.ownerKind = .service →
    startsWith id "service:" = true
  guarded : ∀ id o, db.owner? id = some o → o.residencyProtected = true → o.ownerKind = .service
  intents : ∀ id, db.intends id → startsWith id "foreground:" = true

theorem Labelled.not_protects (h : Labelled db) (hid : startsWith id "service:" = false) :
    db.protects id = false := by
  apply Bool.eq_false_iff.mpr
  intro hp
  obtain ⟨o, ho, hprotected, -⟩ := protects_iff.mp hp
  have hservice := h.service id o ho (h.guarded id o ho hprotected)
  rw [hid] at hservice
  cases hservice

theorem not_service_of_foreground (h : startsWith id "foreground:" = true) :
    startsWith id "service:" = false := by
  unfold startsWith at h ⊢
  cases hid : id.toList with
  | nil =>
    rw [hid] at h
    cases h
  | cons c rest =>
    -- the two words differ in their first letter
    rw [hid] at h
    have hc : c = 'f' := by
      have hfirst := h
      simp only [String.reduceToList, List.isPrefixOf_cons_cons, Bool.and_eq_true, beq_iff_eq] at hfirst
      exact hfirst.1.symm
    rw [hc]
    rfl

theorem labelled_new {new : Owner} (hnew : call.newOwner hashes env = some new) :
    (new.ownerKind = .service → startsWith new.id "service:" = true) ∧
      new.residencyProtected = false := by
  cases call with
  | reserveBackground => cases hnew; exact ⟨fun h => (nomatch h), rfl⟩
  | beginForeground => cases hnew; exact ⟨fun h => (nomatch h), rfl⟩
  | reserveService projectRoot serviceId request pid priorityClass =>
    cases hnew
    refine ⟨fun _ => ?_, rfl⟩
    show startsWith ("service:" ++ _ ++ ":" ++ _ ++ ":" ++ _) "service:" = true
    simp only [String.append_assoc]
    exact startsWith_append _ _
  | upsertResources | replaceResources | sweepStale | reconcileCurrentServiceOwners | setPriority
  | requestPreemption | activateForeground | heartbeat | protectResidency
  | recordResidencyProcess | release => cases hnew

theorem keeps_labelled : Keeps hashes env call Labelled := by
  intro db s hs h db' hdb'
  have hrow : ∀ id o', db'.owner? id = some o' →
      (o'.ownerKind = .service → startsWith id "service:" = true) ∧
        (o'.residencyProtected = true → o'.ownerKind = .service) := by
    intro id o' ho'
    cases ho : db.owner? id with
    | none =>
      rcases exec_fresh hdb' ho with hnone | ⟨new, rfl, rfl, hnew⟩
      · rw [hnone] at ho'
        cases ho'
      · rw [hnew] at ho'
        cases ho'
        obtain ⟨hkind, hplain⟩ := labelled_new hs
        refine ⟨hkind, fun hp => ?_⟩
        rw [hplain] at hp
        cases hp
    | some o =>
      have hold := h.service id o ho
      have hguarded := h.guarded id o ho
      rcases exec_owner hdb' ho with hsame | ⟨o₁, ho₁, hwrite, -⟩ | ⟨selected, rfl, -⟩
      · rw [hsame] at ho'
        cases ho'
        exact ⟨hold, hguarded⟩
      · rw [ho₁] at ho'
        cases ho'
        cases hwrite with
        | protect metadata =>
          obtain ⟨p, hp, hkind⟩ := hs
          have hsame : p = o := by
            have hid := id_of_owner? ho
            rw [hid, ho] at hp
            exact (Option.some.inj hp).symm
          exact ⟨hold, fun _ => hsame ▸ hkind⟩
        | unprotect => exact ⟨hold, fun hp => by cases hp⟩
        | preempt | preemptActive | setPriority | activate | beat | releaseOwner
        | recordProcess => exact ⟨hold, hguarded⟩
      · exact hs.elim
  refine ⟨fun id o' ho' => (hrow id o' ho').1, fun id o' ho' => (hrow id o' ho').2,
    fun id hintends => ?_⟩
  rcases exec_intends_of hdb' hintends with hold | ⟨new, rfl, rfl⟩
  · exact h.intents id hold
  · have howner : new.ownerId = foregroundOwnerId env := hs
    rw [howner]
    exact startsWith_append _ _

theorem labelled_empty : Labelled {} :=
  ⟨fun _ _ h => (nomatch h), fun _ _ h => (nomatch h), fun _ ⟨_, h, _⟩ => (nomatch h)⟩

theorem labelled_run (actions : List Action) : Labelled (actions.foldl (step hashes) {}) :=
  run_of_keeps (fun _ _ => keeps_labelled) actions labelled_empty

end Labels

section Resources

/-- Only discovery writes the resources. -/
theorem exec_resources {s : Statement} (hs : ∀ resources, s ≠ .setResources resources)
    (h : db.exec s = .ok db') : db'.resources = db.resources := by
  cases s with
  | setResources resources => exact absurd rfl (hs resources)
  | insertOwner new =>
    change db.insertOwner new = .ok db' at h
    unfold Registry.insertOwner at h
    split at h
    · cases h
      rfl
    · split at h <;> cases h
      rfl
  | insertReservation new =>
    change db.insertReservation new = .ok db' at h
    unfold Registry.insertReservation at h
    split at h
    · cases h
      rfl
    · split at h <;> cases h
      rfl
  | insertIntent new =>
    change db.insertIntent new = .ok db' at h
    unfold Registry.insertIntent at h
    split at h
    · cases h
      rfl
    · split at h <;> cases h
      rfl
  | deleteOwners | deleteReservations | deleteIntents | preempt | preemptActive | setPriority
  | activate | beat | beatReservations | releaseReservations | releaseOwner | releaseIntents
  | releaseOrphanIntents | protect | recordProcess | unprotect =>
    cases h
    rfl

/-- No two resources have the same id. -/
def ResourceKeys (db : Registry) : Prop := (db.resources.map (·.id)).Nodup

theorem keeps_resourceKeys : Keeps hashes env call ResourceKeys := by
  intro db s hs h db' hdb'
  by_cases hset : ∃ resources, s = .setResources resources
  · obtain ⟨resources, rfl⟩ := hset
    cases hdb'
    exact hs h
  · unfold ResourceKeys
    rw [exec_resources (fun resources heq => hset ⟨resources, heq⟩) hdb']
    exact h

theorem resourceKeys_run (actions : List Action) :
    ResourceKeys (actions.foldl (step hashes) {}) :=
  run_of_keeps (fun _ _ => keeps_resourceKeys) actions List.nodup_nil

end Resources

end ProjectControl.HostResources
