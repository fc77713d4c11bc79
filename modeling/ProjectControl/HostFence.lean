import ProjectControl.HostReclaim
import ProjectControl.HostRows

/-! The fence of a foreground intent: what its owner asked for is granted to nobody else
while the intent stands. -/

set_option autoImplicit false

namespace ProjectControl.HostResources

open Sql

variable {hashes : Hashes} {env : Env} {db db' : Registry} {id n : OwnerId} {o : Owner}
  {r : ResourceId} {R : List ResourceId} {s : Statement} {call : Call} {a : Action}

section Intents

/-- The owner has an active intent on these resources. -/
def Registry.claims (db : Registry) (id : OwnerId) (R : List ResourceId) : Prop :=
  ∃ i ∈ db.intents, i.ownerId = id ∧ i.state = .active ∧ i.resources = R

theorem claims_update {selected : Intent → Bool} {c : Change Intent.Distinct}
    (hkept : ∀ i : Intent, i.ownerId = id → selected i = false) (h : db.claims id R) :
    (db.updateIntents selected c).claims id R := by
  obtain ⟨i, hi, hid, hrest⟩ := h
  refine ⟨i, (Table.mem_update i).mpr ⟨i, hi, ?_⟩, hid, hrest⟩
  rw [hkept i hid]
  rfl

/-- What an intent claims is not selected. -/
theorem mem_active_of_claims (h : db.claims id R) (hr : r ∈ R) : r ∈ activeResourceIds db := by
  obtain ⟨i, hi, -, hs, rfl⟩ := h
  exact mem_activeResourceIds.mpr (.inr ⟨i, hi, hs, hr⟩)

/-- A live foreground owner and its intent. -/
structure Fenced (id : OwnerId) (R : List ResourceId) (db : Registry) : Prop where
  owner : ∃ o, db.owner? id = some o ∧ o.ownerKind = .foreground ∧ o.state.live = true
  claim : db.claims id R

/-- The statements that may end an owner or its intent. -/
def Statement.ends (id : OwnerId) : Statement → Prop
  | .deleteOwners _ | .deleteIntents _ => True
  | .releaseOwner _ n _ | .releaseIntents _ n => n = id
  | _ => False

theorem fenced_owner (hs : ¬ s.ends id) (h : db.exec s = .ok db') (hfenced : Fenced id R db) :
    ∃ o, db'.owner? id = some o ∧ o.ownerKind = .foreground ∧ o.state.live = true := by
  obtain ⟨o, ho, hkind, hlive⟩ := hfenced.owner
  rcases exec_owner h ho with hsame | ⟨o', ho', hwrite, -⟩ | ⟨selected, rfl, -⟩
  · exact ⟨o, hsame, hkind, hlive⟩
  · refine ⟨o', ho', ?_⟩
    cases hwrite with
    | releaseOwner now o state => exact absurd (id_of_owner? ho) hs
    | activate => exact ⟨hkind, rfl⟩
    | preempt | preemptActive | setPriority | beat | protect | recordProcess | unprotect =>
      exact ⟨hkind, hlive⟩
  · exact absurd trivial hs

theorem fenced_claim (hs : ¬ s.ends id) (h : db.exec s = .ok db') (hfenced : Fenced id R db) :
    db'.claims id R := by
  have hclaim := hfenced.claim
  have hsame : db'.intents = db.intents → db'.claims id R := by
    intro hintents
    unfold Registry.claims
    rw [hintents]
    exact hclaim
  cases s with
  | insertOwner new =>
    rcases owner?_insertOwner h with ⟨-, rfl⟩ | ⟨-, -, -, hintents⟩
    · exact hclaim
    · exact hsame hintents
  | insertReservation new => exact hsame (insertReservation_cases h).2.1
  | insertIntent new =>
    obtain ⟨-, -, rfl | hmem⟩ := insertIntent_cases h
    · exact hclaim
    · obtain ⟨i, hi, hrest⟩ := hclaim
      exact ⟨i, (hmem i).mpr (.inl hi), hrest⟩
  | deleteOwners | deleteIntents => exact absurd trivial hs
  | releaseIntents now n =>
    cases h
    refine claims_update (fun i hid => ?_) hclaim
    have hne : i.ownerId ≠ n := fun heq => hs (heq.symm.trans hid)
    simp [hne]
  | releaseOrphanIntents now =>
    cases h
    refine claims_update (fun i hid => ?_) hclaim
    -- the owner of the intent is live
    obtain ⟨o, ho, -, hlive⟩ := hfenced.owner
    have horphan : db.owners.rows.any (fun o => o.id = i.ownerId && !o.state.live) = false := by
      apply Bool.eq_false_iff.mpr
      intro hany
      obtain ⟨o₁, hmem, hcond⟩ := List.any_eq_true.mp hany
      simp only [Bool.and_eq_true, decide_eq_true_eq] at hcond
      have hfind := owner?_eq_some.mpr ⟨hmem, hcond.1.trans hid⟩
      rw [ho] at hfind
      cases hfind
      rw [hlive] at hcond
      cases hcond.2
    rw [horphan, Bool.and_false]
  | setResources | deleteReservations | beatReservations | releaseReservations | preempt
  | preemptActive | setPriority | activate | beat | releaseOwner | protect | recordProcess
  | unprotect =>
    cases h
    exact hsame rfl

theorem fenced_exec (hs : ¬ s.ends id) (h : Fenced id R db) :
    Ensures (db.exec s) (Fenced id R) :=
  fun _ hdb' => ⟨fenced_owner hs hdb' h, fenced_claim hs hdb' h⟩

/-- The statements that end nothing. -/
def Statement.lasting : Statement → Bool
  | .deleteOwners _ | .deleteIntents _ | .releaseOwner _ _ _ | .releaseIntents _ _ => false
  | _ => true

theorem fenced_write (hs : s.lasting = true) (h : Fenced id R db) :
    Ensures (db.exec s) (Fenced id R) := by
  refine fenced_exec (fun hends => ?_) h
  cases s with
  | deleteOwners | deleteIntents | releaseOwner | releaseIntents => cases hs
  | setResources | insertOwner | insertReservation | insertIntent | deleteReservations
  | preempt | preemptActive | setPriority | activate | beat | beatReservations
  | releaseReservations | releaseOrphanIntents | protect | recordProcess | unprotect =>
    exact hends

theorem fenced_release {state : OwnerState} (hne : n ≠ id) (h : Fenced id R db) :
    Ensures (releaseLocked env db n state) (Fenced id R) := by
  refine Ensures.bind (fenced_write rfl h) (fun _ h => ?_)
  refine Ensures.bind (fenced_exec hne h) (fun _ h => ?_)
  exact fenced_exec hne h

/-- A sweep that spares the owner. -/
theorem fenced_sweep {window : ℚ} (hspared : ∀ o, db.owner? id = some o → Spared env window o)
    (h : Fenced id R db) : Ensures (sweepLocked env db window) (Fenced id R) := by
  refine Ensures.bind (Ensures.foldlM h (fun db₁ o hmem h₁ => ?_))
    (fun _ h => fenced_write rfl h)
  refine Ensures.ite (fun _ => Ensures.pure h₁) (fun hplain => ?_)
  refine Ensures.ite (fun _ => Ensures.pure h₁) (fun hdead => fenced_release ?_ h₁)
  rintro rfl
  obtain ⟨hrow, hstale⟩ := List.mem_filter.mp hmem
  simp only [Bool.and_eq_true, decide_eq_true_eq] at hstale
  rcases hspared o (owner?_eq_some.mpr ⟨hrow, rfl⟩) with hp | ha | hbeat
  · exact hplain hp
  · exact hdead ha
  · exact absurd hstale.2 (not_lt.mpr hbeat)

theorem fenced_requests : Requests env (fun _ => True) (Fenced id R) where
  insertOwner _ _ _ _ _ h := fenced_write rfl h
  insertReservation _ _ _ _ h := fenced_write rfl h
  insertIntent _ _ _ h := fenced_write rfl h
  preempt _ _ _ h := fenced_write rfl h

/-- It releases services only. -/
theorem fenced_reconcile {projectRoot : String} {pid : ℕ} {live : List OwnerId}
    (h : Fenced id R db) :
    Ensures (reconcileCurrentServiceOwners env db projectRoot pid live)
      (fun out => Fenced id R out.1) := by
  obtain ⟨o, ho, hkind, -⟩ := h.owner
  unfold reconcileCurrentServiceOwners
  split
  · exact Ensures.pure h
  · refine Ensures.foldlM h (fun acc o₁ hmem hacc => ?_)
    refine Ensures.ite (fun _ => Ensures.pure hacc) (fun _ => ?_)
    refine Ensures.ite (fun _ => Ensures.pure hacc) (fun _ => ?_)
    refine Ensures.bind (fenced_release ?_ hacc) (fun _ h => Ensures.pure h)
    rintro rfl
    obtain ⟨hrow, hservice⟩ := List.mem_filter.mp hmem
    have hfind := owner?_eq_some.mpr ⟨hrow, rfl⟩
    rw [ho] at hfind
    cases hfind
    simp [hkind] at hservice

/-- The owner is released, or it is swept as stale. -/
def Ends (hashes : Hashes) (id : OwnerId) (db : Registry) (a : Action) : Prop :=
  (∃ proof capability generation, a.call = .release id proof capability generation) ∨
  (∃ window o, a.call.sweeps = some window ∧ db.owner? id = some o ∧ ¬ Spared a.env window o ∧
    ∃ db', transact hashes a.env db a.call = .ok db')

theorem fenced_transact (hends : ¬ Ends hashes id db a) (h : Fenced id R db) :
    Ensures (transact hashes a.env db a.call) (Fenced id R) := by
  obtain ⟨env, call⟩ := a
  obtain ⟨hrelease, hsweep⟩ := not_or.mp hends
  intro db' hcommit
  have hspared : ∀ window, call.sweeps = some window → ∀ o, db.owner? id = some o →
      Spared env window o := by
    intro window hwindow o ho
    by_contra hstale
    exact hsweep ⟨window, o, hwindow, ho, hstale, db', hcommit⟩
  refine (?_ : Ensures (transact hashes env db call) (Fenced id R)) db' hcommit
  cases call with
  | upsertResources items => exact fenced_write (s := .setResources _) rfl h
  | replaceResources kind items =>
    exact Ensures.ite (fun _ => Ensures.error) (fun _ => fenced_write rfl h)
  | sweepStale window =>
    exact Ensures.map (Ensures.bind (fenced_sweep (hspared _ rfl) h) (fun _ h => Ensures.pure h))
  | reconcileCurrentServiceOwners projectRoot pid live => exact Ensures.map (fenced_reconcile h)
  | reserveBackground | reserveService | beginForeground =>
    exact ensures_requests fenced_requests rfl (fun _ _ => trivial)
      (fenced_sweep (hspared _ rfl) h)
  | setPriority n priorityClass =>
    exact Ensures.map (ensures_setPriority h (fenced_write rfl h))
  | requestPreemption n =>
    exact Ensures.map (Ensures.bind (fenced_write rfl h) (fun _ h => Ensures.pure h))
  | activateForeground n resources =>
    exact Ensures.map (ensures_activateForeground (fenced_sweep (hspared _ rfl) h)
      (fun _ _ h => fenced_write rfl h) (fun _ h => fenced_write rfl h))
  | heartbeat n pid =>
    exact Ensures.bind (fenced_write rfl h) (fun _ h => fenced_write rfl h)
  | protectResidency n baseline =>
    exact Ensures.map (ensures_protectResidency (fun _ _ _ _ => fenced_write rfl h))
  | recordResidencyProcess n pid capability generation =>
    exact ensures_recordResidencyProcess (fun _ _ _ _ _ _ _ _ => fenced_write rfl h)
  | release n proof capability generation =>
    have hne : n ≠ id := by
      rintro rfl
      exact hrelease ⟨proof, capability, generation, rfl⟩
    refine ensures_release (fun _ => fenced_release hne h) (fun _ db' _ _ _ hdb' => ?_)
    exact fenced_release hne (fenced_write (s := .unprotect n) rfl h db' hdb')

theorem fenced_step (hends : ¬ Ends hashes id db a) (h : Fenced id R db) :
    Fenced id R (step hashes db a) := step_of_ensures h (fenced_transact hends h)

end Intents

section Begin

theorem insertIntent_claims {new : Intent} (hlabelled : Labelled db) (hactive : new.state = .active)
    (h : db.insertIntent new = .ok db') :
    db'.owners = db.owners ∧ db'.claims new.ownerId new.resources := by
  refine ⟨(insertIntent_cases h).1, ?_⟩
  have hguard : (intentInsertGuard db new).holds = false := by
    apply Bool.eq_false_iff.mpr
    intro hholds
    obtain ⟨old, hold, hcond⟩ := List.any_eq_true.mp ((Truth.holds_of _).mp hholds)
    simp only [Bool.and_eq_true, decide_eq_true_eq] at hcond
    have hforeground := hlabelled.intents old.ownerId ⟨old, hold, rfl, hcond.1.2⟩
    rw [hlabelled.not_protects (not_service_of_foreground hforeground)] at hcond
    cases hcond.2
  unfold Registry.insertIntent at h
  rw [hguard] at h
  split at h
  · rename_i hnever
    cases hnever
  · split at h
    · rename_i intents hinsert
      cases h
      exact ⟨new, (Table.mem_insert? hinsert new).mpr (.inr rfl), rfl, hactive, rfl⟩
    · cases h

/-- What `begin_foreground` returns is fenced. -/
theorem fenced_begin (hashes : Hashes) {projectRoot : String} {request : Request} {pid : ℕ}
    {priorityClass : PriorityClass} (h : Labelled db) :
    Ensures (beginForeground env db projectRoot request pid priorityClass)
      (fun out => Fenced out.2.1 out.2.2 out.1) := by
  have hkeeps : Keeps hashes env (.beginForeground projectRoot request pid priorityClass)
      Labelled := keeps_labelled
  have hid : startsWith (foregroundOwnerId env) "foreground:" = true := startsWith_append _ _
  refine Ensures.bind (hkeeps.sweep h) (fun swept h => ?_)
  refine Ensures.bind (hkeeps.foregroundResources h) ?_
  rintro ⟨db₁, resources⟩ h₁
  refine Ensures.bind (Ensures.and Ensures.of_eq (hkeeps _ (.insertOwner _) rfl h₁)) ?_
  rintro db₂ ⟨hinsert, h₂⟩
  refine Ensures.bind Ensures.of_eq (fun db₃ hintent => ?_)
  obtain ⟨howners, hclaims⟩ := insertIntent_claims h₂ rfl hintent
  have howner : db₃.owner? (foregroundOwnerId env) =
      some (foregroundOwner env projectRoot request pid priorityClass) := by
    have hsame : db₃.owner? (foregroundOwnerId env) = db₂.owner? (foregroundOwnerId env) := by
      rw [Registry.owner?, howners]
      rfl
    rw [hsame]
    rcases owner?_insertOwner hinsert with ⟨hprotects, -⟩ | ⟨-, hlookup, -⟩
    · have hprotects' : db₁.protects (foregroundOwnerId env) = true := hprotects
      rw [h₁.not_protects (not_service_of_foreground hid)] at hprotects'
      cases hprotects'
    · exact (hlookup _).trans (if_pos rfl)
  have hfenced : Fenced (foregroundOwnerId env) resources db₃ := ⟨⟨_, howner, rfl, rfl⟩, hclaims⟩
  refine Ensures.bind (ensures_preemptAll (fun _ _ _ h => fenced_write rfl h) hfenced) ?_
  exact fun _ h => Ensures.pure h

end Begin

section Holders

/-- Nobody holds more than in another registry. -/
def HeldIn (db₀ db : Registry) : Prop := ∀ r n, db.active r n → db₀.active r n

/-- Only a reservation or an activation inserts reservations. -/
theorem keeps_heldIn {db₀ : Registry} (h : call.holder hashes env = none) :
    Keeps hashes env call (HeldIn db₀) := by
  intro db s hs hheld db' hdb' r n hactive
  rcases exec_active_of hdb' hactive with hold | ⟨new, rfl, -, -⟩
  · exact hheld r n hold
  · have hholder : call.holder hashes env = some new.ownerId := hs
    rw [h] at hholder
    cases hholder

theorem active_insertReservations {resources : List ResourceId} :
    Ensures (insertReservations env db id resources) (fun db' => ∀ r n, db'.active r n →
      db.active r n ∨ n = id ∧ r ∈ resources) := by
  refine Ensures.foldlM (fun _ _ h => .inl h) (fun db₁ r₁ hmem h₁ db₂ h₂ r n hactive => ?_)
  rcases exec_active_of h₂ hactive with hold | ⟨new, hnew, hr, hn⟩
  · exact h₁ r n hold
  · cases hnew
    exact .inr ⟨hn.symm, hr ▸ hmem⟩

theorem Reserves.active {swept : Registry} {new : Owner} {request : Request}
    {resources : List ResourceId} {owned : Registry}
    (h : Reserves hashes env db call db' swept new request resources owned)
    (hactive : db'.active r n) : db.active r n ∨ n = new.id ∧ r ∈ resources := by
  have hkeeps : Keeps hashes env (.sweepStale 0) (HeldIn db) := keeps_heldIn rfl
  refine (active_insertReservations db' h.reserve r n hactive).imp_left (fun howned => ?_)
  refine hkeeps.sweep (fun _ _ h => h) swept h.sweep r n ?_
  rcases owner?_insertOwner h.insert with ⟨-, rfl⟩ | ⟨-, -, hsame, -⟩
  · exact howned
  · exact (active_congr hsame).mp howned

/-- A reservation that is refused brings no holder. -/
theorem refused_heldIn (h : reservation hashes env db call = .ok (db', none)) : HeldIn db db' := by
  have hkeeps : Keeps hashes env (.sweepStale 0) (HeldIn db) := keeps_heldIn rfl
  have hsweep : Ensures (sweepLocked env db staleSeconds) (HeldIn db) :=
    hkeeps.sweep (fun _ _ h => h)
  have hrefused : ∀ request new, Ensures (sweepLocked env db staleSeconds >>= fun swept =>
      reserveLocked env swept request new) (fun out => out.2 = none → HeldIn db out.1) := by
    intro request new
    refine Ensures.bind hsweep (fun swept hswept => ?_)
    rintro ⟨db₁, reply⟩ hreserve rfl
    obtain ⟨-, resources, hrequest⟩ := reserve_refused hreserve
    exact hkeeps.requestPreemption hswept _ hrequest
  cases call with
  | reserveBackground => exact hrefused _ _ _ h rfl
  | reserveService => exact hrefused _ _ _ h rfl
  | upsertResources | replaceResources | sweepStale | reconcileCurrentServiceOwners | setPriority
  | requestPreemption | beginForeground | activateForeground | heartbeat | protectResidency
  | recordResidencyProcess | release =>
    cases h
    exact fun _ _ h => h

/-- What a transaction adds to the holders: a reservation that is granted, or an activation
for resources that are free after its sweep. -/
inductive Adds (hashes : Hashes) (env : Env) (db : Registry) (call : Call) (db' : Registry)
    (r : ResourceId) (n : OwnerId) : Prop where
  | reserve {swept owned : Registry} {new : Owner} {request : Request}
      {resources : List ResourceId}
      (h : Reserves hashes env db call db' swept new request resources owned) (hn : n = new.id)
      (hr : r ∈ resources)
  | activate {swept : Registry} {resources : List ResourceId}
      (hcall : call = .activateForeground n resources)
      (hsweep : sweepLocked env db staleSeconds = .ok swept)
      (hfree : resources.any swept.taken = false) (hr : r ∈ resources)

theorem adds_activation {resources : List ResourceId} :
    Ensures (activateForeground env db id resources) (fun out => out.1.active r n →
      db.active r n ∨ Adds hashes env db (.activateForeground id resources) out.1 r n) := by
  have hkeeps : Keeps hashes env (.sweepStale 0) (HeldIn db) := keeps_heldIn rfl
  refine Ensures.bind (Ensures.and Ensures.of_eq (hkeeps.sweep (fun _ _ h => h))) ?_
  rintro swept ⟨hsweep, hswept⟩
  refine Ensures.ite (fun _ => Ensures.pure (fun h => .inl (hswept r n h))) (fun htaken => ?_)
  refine Ensures.bind active_insertReservations (fun db₁ h₁ => ?_)
  refine Ensures.bind Ensures.of_eq (fun db₂ h₂ => Ensures.pure (fun hactive => ?_))
  rcases exec_active_of h₂ hactive with hold | ⟨_, hnew, -⟩
  · rcases h₁ r n hold with hold | ⟨rfl, hr⟩
    · exact .inl (hswept r n hold)
    · exact .inr (.activate rfl hsweep (Bool.eq_false_iff.mpr htaken) hr)
  · cases hnew

theorem active_of_transact : Ensures (transact hashes env db call) (fun db' => db'.active r n →
    db.active r n ∨ Adds hashes env db call db' r n) := by
  have hreservation : Ensures (reservation hashes env db call) (fun out => out.1.active r n →
      db.active r n ∨ Adds hashes env db call out.1 r n) := by
    rintro ⟨db', out⟩ hout hactive
    cases out with
    | none => exact .inl (refused_heldIn hout r n hactive)
    | some reply =>
      obtain ⟨swept, new, request, resources, owned, hreserves, -⟩ := reservation_succeeds hout
      exact (hreserves.active hactive).imp_right (fun ⟨hn, hr⟩ => .reserve hreserves hn hr)
  have hquiet : call.holder hashes env = none → Ensures (transact hashes env db call)
      (fun db' => db'.active r n → db.active r n ∨ Adds hashes env db call db' r n) := by
    intro hholder
    have hkeeps : Keeps hashes env call (HeldIn db) := keeps_heldIn hholder
    exact (hkeeps.transact (fun _ _ h => h)).mono (fun _ h hactive => .inl (h r n hactive))
  cases call with
  | reserveBackground => exact Ensures.map hreservation
  | reserveService => exact Ensures.map hreservation
  | activateForeground id resources => exact Ensures.map adds_activation
  | upsertResources | replaceResources | sweepStale | reconcileCurrentServiceOwners | setPriority
  | requestPreemption | beginForeground | heartbeat | protectResidency
  | recordResidencyProcess | release => exact hquiet rfl

theorem Reserves.sweeps {swept : Registry} {new : Owner} {request : Request}
    {resources : List ResourceId} {owned : Registry}
    (h : Reserves hashes env db call db' swept new request resources owned) :
    call.sweeps = some staleSeconds := by
  have howner := h.owner
  cases call with
  | reserveBackground | reserveService | beginForeground => rfl
  | upsertResources | replaceResources | sweepStale | reconcileCurrentServiceOwners | setPriority
  | requestPreemption | activateForeground | heartbeat | protectResidency
  | recordResidencyProcess | release => cases howner

/-- A resource that an intent claims is not granted. -/
theorem claimed_is_not_reserved {swept : Registry} {new : Owner} {request : Request}
    {resources : List ResourceId} {owned : Registry} (hends : ¬ Ends hashes id db a)
    (hfenced : Fenced id R db)
    (h : Reserves hashes a.env db a.call db' swept new request resources owned) (hr : r ∈ R) :
    r ∉ resources := by
  have hspared : ∀ o, db.owner? id = some o → Spared a.env staleSeconds o := by
    intro o ho
    by_contra hstale
    exact hends (.inr ⟨staleSeconds, o, h.sweeps, ho, hstale, db', h.commit⟩)
  have hswept : Fenced id R swept := fenced_sweep hspared hfenced swept h.sweep
  intro hmem
  exact (select_free _ h.select resources rfl).2 r hmem (mem_active_of_claims hswept.claim hr)

end Holders

section Outsiders

/-- The owner of a foreground request. -/
def ForegroundOwner (db : Registry) (id : OwnerId) : Prop :=
  ∃ o, db.owner? id = some o ∧ o.ownerKind = .foreground

/-- A holder that is no foreground owner. -/
def Outsider (db : Registry) (r : ResourceId) (n : OwnerId) : Prop :=
  db.active r n ∧ ¬ ForegroundOwner db n

theorem keeps_foregroundOwner :
    Keeps hashes env call (fun db => ForegroundOwner db n) := by
  rintro db s hs ⟨o, ho, hkind⟩ db' hdb'
  rcases exec_owner hdb' ho with hsame | ⟨o', ho', hwrite, -⟩ | ⟨selected, rfl, -⟩
  · exact ⟨o, hsame, hkind⟩
  · refine ⟨o', ho', ?_⟩
    cases hwrite <;> exact hkind
  · exact hs.elim

/-- An activation that names no foreground owner, for resources that are free after its sweep
and of which one is claimed. -/
def Intrudes (R : List ResourceId) (db : Registry) (a : Action) : Prop :=
  ∃ n resources swept, a.call = .activateForeground n resources ∧ ¬ ForegroundOwner db n ∧
    sweepLocked a.env db staleSeconds = .ok swept ∧ resources.any swept.taken = false ∧
    ∃ r ∈ R, r ∈ resources

theorem outsider_step (hends : ¬ Ends hashes id db a) (hfenced : Fenced id R db)
    (hintrudes : ¬ Intrudes R db a) (hr : r ∈ R) :
    Outsider (step hashes db a) r n → Outsider db r n := by
  refine step_of_ensures (I := fun db' => Outsider db' r n → Outsider db r n) (fun h => h) ?_
  have hkind : ForegroundOwner db n →
      Ensures (transact hashes a.env db a.call) (fun db' => ForegroundOwner db' n) :=
    keeps_foregroundOwner.transact
  intro db' hdb' ⟨hactive, hplain⟩
  have hplain₀ : ¬ ForegroundOwner db n := fun h => hplain (hkind h db' hdb')
  rcases active_of_transact db' hdb' hactive with hold | hadds
  · exact ⟨hold, hplain₀⟩
  · cases hadds with
    | reserve h hn hmem => exact absurd hmem (claimed_is_not_reserved hends hfenced h hr)
    | activate hcall hsweep hfree hmem =>
      exact absurd ⟨n, _, _, hcall, hplain₀, hsweep, hfree, r, hr, hmem⟩ hintrudes

theorem fenced_run {actions : List Action} (h : Fenced id R db)
    (hstands : Runs.Along (step hashes) (fun db a => ¬ Ends hashes id db a) db actions) :
    Fenced id R (actions.foldl (step hashes) db) :=
  hstands.invariant (fun _ _ h hends => fenced_step hends h) h

theorem outsider_run {actions : List Action} (hr : r ∈ R) (hfenced : Fenced id R db)
    (hstands : Runs.Along (step hashes) (fun db a => ¬ Ends hashes id db a) db actions)
    (hintrudes : Runs.Along (step hashes) (fun db a => ¬ Intrudes R db a) db actions) :
    Outsider (actions.foldl (step hashes) db) r n → Outsider db r n := by
  induction actions generalizing db with
  | nil => exact fun h => h
  | cons a rest ih =>
    intro h
    have hrest := ih (fenced_step hstands.1 hfenced) hstands.2 hintrudes.2 h
    exact outsider_step hstands.1 hfenced hintrudes.1 hr hrest

/-- While the intent of a foreground request stands, no reservation is granted a resource that
it claims, and the other holders of such a resource only become fewer, if no activation
intrudes. -/
theorem foreground_fence (hashes : Hashes) (before first second : List Action) (env : Env)
    (projectRoot : String) (request : Request) (pid : ℕ) (priorityClass : PriorityClass)
    (db₁ : Registry) (owner : OwnerId) (R : List ResourceId)
    (hbegin : beginForeground env (before.foldl (step hashes) {}) projectRoot request pid
      priorityClass = .ok (db₁, owner, R))
    (hstands : Runs.Along (step hashes) (fun db a => ¬ Ends hashes owner db a) db₁
      (first ++ second)) :
    let db₂ := first.foldl (step hashes) db₁
    (∀ a, ¬ Ends hashes owner db₂ a → ∀ db' reply,
      reservation hashes a.env db₂ a.call = .ok (db', some reply) →
        ∀ r ∈ R, r ∉ reply.2 ∧ ∀ n, db'.active r n → db₂.active r n) ∧
    (Runs.Along (step hashes) (fun db a => ¬ Intrudes R db a) db₂ second →
      ∀ r ∈ R, ∀ n, Outsider (second.foldl (step hashes) db₂) r n → Outsider db₂ r n) := by
  intro db₂
  have hfenced₁ : Fenced owner R db₁ := fenced_begin hashes (labelled_run before) _ hbegin
  have hfenced₂ : Fenced owner R db₂ := fenced_run hfenced₁ hstands.left
  refine ⟨fun a hends db' reply hreply r hr => ?_, fun hintrudes r hr n => ?_⟩
  · obtain ⟨swept, new, asked, resources, owned, h, rfl⟩ := reservation_succeeds hreply
    have hfree : r ∉ resources := claimed_is_not_reserved hends hfenced₂ h hr
    refine ⟨fun hmem => hfree (List.mem_filter.mp hmem).1, fun n hactive => ?_⟩
    exact (h.active hactive).resolve_right (fun h => hfree h.2)
  · exact outsider_run hr hfenced₂ hstands.right hintrudes

end Outsiders

section Runs

def deviceB : Resource := ⟨"accelerator:b", "accelerator", [], true, 0⟩

/-- Two devices, and a job that holds none of them. -/
def idleJob : List Action :=
  [⟨hostAt 0, .upsertResources [deviceA, deviceB]⟩,
    ⟨hostAt 0, .reserveBackground "/p" "job" "attempt" {} 7⟩]

/-- A foreground request for one of them. -/
def requestA : Request := { ids := ["accelerator:a"] }

def claimA : Except HostError (Registry × OwnerId × List ResourceId) :=
  beginForeground (hostAt 1) (idleJob.foldl (step plainHashes) {}) "/p" requestA 7 .foregroundGpu

/-- A job for any one device. -/
def anyDevice : Action := ⟨hostAt 2, .reserveBackground "/p" "other" "attempt" { count := 1 } 7⟩

/-- The job gets the device that is not claimed. -/
theorem other_device_is_granted : ∃ db₁ owner R db' reply, claimA = .ok (db₁, owner, R) ∧
    reservation plainHashes (hostAt 2) db₁ anyDevice.call = .ok (db', some reply) ∧
    "accelerator:a" ∈ R ∧ "accelerator:a" ∉ reply.2 := by
  have hruns : claimA.toOption.map (fun out => (decide ("accelerator:a" ∈ out.2.2),
      (out.1.owner? out.2.1).map (fun o => (hostAt 2).alive o.pid o.processStart),
      (reservation plainHashes (hostAt 2) out.1 anyDevice.call).toOption.map
        (fun out => out.2.isSome))) = some (true, some true, some true) := by
    decide +kernel
  obtain ⟨⟨db₁, owner, R⟩, hclaim, hfacts⟩ := Option.map_eq_some_iff.mp hruns
  simp only [Prod.mk.injEq, decide_eq_true_eq] at hfacts
  obtain ⟨hmem, halive, hreply⟩ := hfacts
  obtain ⟨⟨db', granted⟩, hout, hsome⟩ := Option.map_eq_some_iff.mp hreply
  obtain ⟨reply, rfl⟩ := Option.isSome_iff_exists.mp hsome
  have hstands : ¬ Ends plainHashes owner db₁ anyDevice := by
    rintro (⟨proof, capability, generation, h⟩ | ⟨window, o, -, ho, hstale, -⟩)
    · cases h
    · rw [ho] at halive
      exact hstale (.inr (.inl (Option.some.inj halive)))
  have hfence := foreground_fence plainHashes idleJob [] [] (hostAt 1) "/p" requestA 7
    .foregroundGpu db₁ owner R (Ensures.ok_of_toOption hclaim) trivial
  have hgrant := hfence.1 anyDevice hstands db' reply (Ensures.ok_of_toOption hout)
  exact ⟨db₁, owner, R, db', reply, Ensures.ok_of_toOption hclaim, Ensures.ok_of_toOption hout,
    hmem, (hgrant _ hmem).1⟩

/-- An activation that names the owner of the idle job. -/
def intrusion : Action :=
  ⟨hostAt 2, .activateForeground (backgroundOwnerId plainHashes "/p" "job" "attempt")
    ["accelerator:a"]⟩

/-- It makes the job a holder of the claimed device while the intent stands. -/
theorem activation_breaks_the_fence :
    let job := backgroundOwnerId plainHashes "/p" "job" "attempt"
    let db₁ := (claimA.toOption.map Prod.fst).getD {}
    let db₂ := step plainHashes db₁ intrusion
    claimA.toOption.map Prod.snd = some ("foreground:u1", ["accelerator:a"]) ∧
    db₁.reserved job = [] ∧ db₂.reserved job = ["accelerator:a"] ∧
    (db₂.owner? job).map (·.ownerKind) = some .background ∧
    (db₂.owner? "foreground:u1").map (·.state) = some .intent ∧
    db₂.intents.rows.map (fun i => (i.ownerId, i.resources, i.state)) =
      [("foreground:u1", ["accelerator:a"], .active)] := by
  decide +kernel

end Runs

end ProjectControl.HostResources
