import ProjectControl.HostTransactions

/-! The holders of resources are active owners and an owner that ended stays ended, in
every run whose foreground activations name an owner that is still there. -/

set_option autoImplicit false

namespace ProjectControl.HostResources

variable {hashes : Hashes} {env : Env} {db db' : Registry} {id n : OwnerId} {o : Owner}
variable {r : ResourceId} {s : Statement} {exempt ended : OwnerId → Prop}

/-- An active reservation belongs to an active owner, the exempt ones apart. -/
def HeldByActive (exempt : OwnerId → Prop) (db : Registry) : Prop :=
  ∀ r id, db.active r id → exempt id ∨ ∃ o, db.owner? id = some o ∧ o.state = .active

/-- The owner was released, or found stale or orphaned. -/
def Terminal (db : Registry) (id : OwnerId) : Prop :=
  ∃ o, db.owner? id = some o ∧ o.state.live = false

/-- The invariant of a run: `ended` are the owners that had ended when it began. -/
structure Owned (exempt ended : OwnerId → Prop) (db : Registry) : Prop where
  held : HeldByActive exempt db
  terminal : ∀ id, ended id → Terminal db id

theorem not_active_of_terminal (h : HeldByActive (fun _ => False) db) (ht : Terminal db id) :
    ¬ db.active r id := by
  intro hactive
  obtain ⟨o, ho, hs⟩ := ht
  rcases h r id hactive with h | ⟨o', ho', hs'⟩
  · exact h
  · rw [ho] at ho'
    cases ho'
    rw [hs'] at hs
    cases hs

section Statements

/-- The statements that neither delete an owner nor set its state. -/
def Statement.keepsStates : Statement → Bool
  | .deleteOwners _ | .activate _ _ | .releaseOwner _ _ _ => false
  | _ => true

def Statement.reserves : Statement → Bool
  | .insertReservation _ => true
  | _ => false

theorem exec_keeps_state (hs : s.keepsStates = true) (h : db.exec s = .ok db')
    (ho : db.owner? id = some o) : ∃ o', db'.owner? id = some o' ∧ o'.state = o.state := by
  rcases exec_owner h ho with h | ⟨o', ho', hwrite, -⟩ | ⟨selected, rfl, -⟩
  · exact ⟨o, h, rfl⟩
  · refine ⟨o', ho', ?_⟩
    cases hwrite with
    | activate | releaseOwner => cases hs
    | preempt | preemptActive | setPriority | beat | protect | recordProcess | unprotect => rfl
  · cases hs

/-- A statement that keeps the states keeps the invariant, unless it reserves for an owner
that is not active. -/
theorem owned_exec (hs : s.keepsStates = true)
    (hreserve : ∀ new, s = .insertReservation new → exempt new.ownerId ∨
      ∃ o, db.owner? new.ownerId = some o ∧ o.state = .active)
    (h : Owned exempt ended db) : Ensures (db.exec s) (Owned exempt ended) := by
  intro db' hdb'
  have hkept : ∀ id, (∃ o, db.owner? id = some o ∧ o.state = .active) →
      ∃ o, db'.owner? id = some o ∧ o.state = .active := by
    rintro id ⟨o, ho, hactive⟩
    obtain ⟨o', ho', hsame⟩ := exec_keeps_state hs hdb' ho
    exact ⟨o', ho', hsame.trans hactive⟩
  refine ⟨fun r id hactive => ?_, fun id hid => ?_⟩
  · rcases exec_active_of hdb' hactive with hold | ⟨new, hnew, -, howner⟩
    · exact (h.held r id hold).imp_right (hkept id)
    · rw [← howner]
      exact (hreserve new hnew).imp_right (hkept new.ownerId)
  · obtain ⟨o, ho, hdead⟩ := h.terminal id hid
    obtain ⟨o', ho', hsame⟩ := exec_keeps_state hs hdb' ho
    exact ⟨o', ho', by rw [hsame, hdead]⟩

/-- In particular one that reserves nothing. -/
theorem owned_write (hs : (s.keepsStates && !s.reserves) = true) (h : Owned exempt ended db) :
    Ensures (db.exec s) (Owned exempt ended) := by
  simp only [Bool.and_eq_true, Bool.not_eq_true'] at hs
  refine owned_exec hs.1 (fun new hnew => ?_) h
  subst hnew
  cases hs.2

/-- The guard keeps the state of a protected owner. -/
theorem guard_of_state {o' : Owner} (hp : o.residencyProtected = true) (ha : o.state = .active)
    (hp' : o'.residencyProtected = true) (hne : o'.state ≠ o.state) :
    (ownerUpdateGuard o o').holds = true := by
  rw [ha] at hne
  simp [ownerUpdateGuard, hp, ha, hp', hne]

theorem releaseOwner_states {now : ℚ} {state : OwnerState} (hstate : state.live = false)
    (h : db.exec (.releaseOwner now n state) = .ok db') (ho : db.owner? id = some o) :
    ∃ o', db'.owner? id = some o' ∧
      (o'.state = o.state ∨ id = n ∧ db.protects n = false ∧ o'.state = state) := by
  rcases exec_owner h ho with h | ⟨o', ho', hwrite, hguard⟩ | ⟨selected, hs, -⟩
  · exact ⟨o, h, .inl rfl⟩
  · refine ⟨o', ho', ?_⟩
    cases hwrite
    refine .inr ⟨(id_of_owner? ho).symm, ?_, rfl⟩
    cases hp : db.protects o.id with
    | false => rfl
    | true =>
      obtain ⟨o₁, ho₁, hprotected, hactive⟩ := protects_iff.mp hp
      rw [id_of_owner? ho, ho] at ho₁
      cases ho₁
      have hne : state ≠ o.state := by
        rw [hactive]
        rintro rfl
        cases hstate
      have hholds : (ownerUpdateGuard o { o with state := state, heartbeatAt := now }).holds =
          true := guard_of_state hprotected hactive hprotected hne
      rw [hholds] at hguard
      cases hguard
  · cases hs

theorem owned_release {state : OwnerState} (hstate : state.live = false)
    (h : Owned exempt ended db) :
    Ensures (releaseLocked env db n state) (Owned exempt ended) := by
  refine Ensures.bind (Ensures.and Ensures.of_eq
    (owned_write rfl h)) ?_
  rintro db₁ ⟨hfreed, h₁⟩
  refine Ensures.bind (P := Owned exempt ended) ?_
    (fun db₂ h₂ => owned_write rfl h₂)
  intro db₂ hdb₂
  have hprotects : db₁.protects n = db.protects n := by
    cases hfreed
    rfl
  refine ⟨fun r id hactive => ?_, fun id hid => ?_⟩
  · rcases exec_active_of hdb₂ hactive with hold | ⟨_, hnew, -⟩
    · refine (h₁.held r id hold).imp_right (fun ⟨o, ho, hs⟩ => ?_)
      obtain ⟨o', ho', hsame | ⟨rfl, hp, -⟩⟩ := releaseOwner_states hstate hdb₂ ho
      · exact ⟨o', ho', hsame.trans hs⟩
      · -- an owner that is not protected has no reservation left
        rw [hprotects] at hp
        exact absurd hold (releaseReservations_frees hfreed hp)
    · cases hnew
  · obtain ⟨o, ho, hdead⟩ := h₁.terminal id hid
    obtain ⟨o', ho', hsame | ⟨-, -, hs⟩⟩ := releaseOwner_states hstate hdb₂ ho
    · exact ⟨o', ho', by rw [hsame, hdead]⟩
    · exact ⟨o', ho', by rw [hs, hstate]⟩

theorem owned_background : Background env (fun _ => True) (Owned exempt ended) where
  resources _ _ h := owned_write rfl h
  release _ _ _ hstate h := owned_release hstate h
  orphans _ h := owned_write rfl h
  insertOwner _ _ _ _ _ h := owned_write rfl h
  insertReservation _ _ _ howner h := owned_exec rfl
    (fun _ hnew => by
      cases hnew
      exact .inr howner) h
  insertIntent _ _ _ h := owned_write rfl h
  preempt _ _ _ h := owned_write rfl h

theorem Owned.weaken (h : Owned (fun _ => False) ended db) : Owned exempt ended db :=
  ⟨fun r id hactive => (h.held r id hactive).imp_left False.elim, h.terminal⟩

end Statements

section Activate

/-- An owner that exists is active once it is activated. -/
theorem activate_activates {now : ℚ} (h : db.exec (.activate now id) = .ok db')
    (ho : db.owner? id = some o) : ∃ o', db'.owner? id = some o' ∧ o'.state = .active := by
  cases h
  show ∃ o', (Registry.updateOwners _ _ _).owner? id = some o' ∧ _
  rw [owner?_updateOwners, ho]
  refine ⟨_, rfl, ?_⟩
  show Owner.state (if _ then _ else _) = _
  split
  · rfl
  · rename_i hkept
    have hguard : (ownerUpdateGuard o { o with state := .active, heartbeatAt := now }).holds =
        true := by
      simp only [id_of_owner? ho, decide_true, Bool.true_and, Bool.not_eq_true',
        Bool.not_eq_false] at hkept
      exact hkept
    simp only [ownerUpdateGuard, Sql.Truth.holds_all, List.forall_mem_cons,
      Sql.Truth.holds_of] at hguard
    exact hguard.2.1

theorem owned_activate {now : ℚ} (hended : ¬ ended id)
    (hexists : ∀ r, db.active r id → ∃ o, db.owner? id = some o)
    (h : Owned (fun n => n = id) ended db) :
    Ensures (db.exec (.activate now id)) (Owned (fun _ => False) ended) := by
  intro db' hdb'
  have hactive_of : ∀ r n, db'.active r n → db.active r n := by
    intro r n hactive
    rcases exec_active_of hdb' hactive with h | ⟨_, hnew, -⟩
    · exact h
    · cases hnew
  refine ⟨fun r n hactive => .inr ?_, fun n hn => ?_⟩
  · by_cases hid : n = id
    · subst hid
      obtain ⟨o, ho⟩ := hexists r (hactive_of r n hactive)
      exact activate_activates hdb' ho
    · obtain ⟨o, ho, hs⟩ := (h.held r n (hactive_of r n hactive)).resolve_left hid
      rcases exec_owner hdb' ho with h | ⟨o', ho', hwrite, -⟩ | ⟨_, h, -⟩
      · exact ⟨o, h, hs⟩
      · cases hwrite
        exact ⟨_, ho', rfl⟩
      · cases h
  · obtain ⟨o, ho, hdead⟩ := h.terminal n hn
    rcases exec_owner hdb' ho with h | ⟨o', ho', hwrite, -⟩ | ⟨_, h, -⟩
    · exact ⟨o, h, hdead⟩
    · cases hwrite
      rw [id_of_owner? ho] at hended
      exact absurd hn hended
    · cases h

/-- The activation names a live owner that the sweep in it spares, asks for a resource
that such an owner holds, or has nothing to write. -/
def ActivatesLive (db : Registry) (a : Action) : Prop :=
  ∀ id resources, a.call = .activateForeground id resources →
    (∃ o, db.owner? id = some o ∧ o.state.live = true ∧ Spared a.env staleSeconds o) ∨
    (∃ r ∈ resources, ∃ n o, db.active r n ∧ db.owner? n = some o ∧
      Spared a.env staleSeconds o) ∨
    (db.owner? id = none ∧ resources = [])

theorem sweep_keeps_none {staleSeconds : ℚ} (h : db.owner? id = none) :
    Ensures (sweepLocked env db staleSeconds) (fun db' => db'.owner? id = none) := by
  refine ensures_sweep (fun db n hdb db' hdb' => ?_) (fun db hdb db' hdb' => ?_) h
  · cases hdb'
    show (Registry.updateOwners _ _ _).owner? id = none
    rw [owner?_updateOwners]
    show (db.owner? id).map _ = none
    rw [hdb]
    rfl
  · cases hdb'
    exact hdb

theorem owned_insertReservations {resources : List ResourceId}
    (h : Owned (fun n => n = id) ended db) :
    Ensures (insertReservations env db id resources) (fun db' =>
      Owned (fun n => n = id) ended db' ∧ db'.owners = db.owners) := by
  refine Ensures.foldlM ⟨h, rfl⟩ (fun db₁ r _ h₁ => ?_)
  refine Ensures.and (owned_exec rfl (fun _ hnew => ?_) h₁.1) (fun db₂ h₂ => ?_)
  · cases hnew
    exact .inl rfl
  · exact (insertReservation_cases h₂).1.trans h₁.2

theorem owned_activateForeground {resources : List ResourceId}
    (hlive : ActivatesLive db ⟨env, .activateForeground id resources⟩)
    (h : Owned (fun _ => False) ended db) :
    Ensures (activateForeground env db id resources)
      (fun out => Owned (fun _ => False) ended out.1) := by
  refine Ensures.bind (Ensures.and Ensures.of_eq (owned_background.sweep h)) ?_
  rintro swept ⟨hsweep, hswept⟩
  refine Ensures.ite (fun _ => Ensures.pure hswept) (fun htaken => ?_)
  refine Ensures.bind (Ensures.and Ensures.of_eq (owned_insertReservations hswept.weaken)) ?_
  rintro db₁ ⟨hinsert, h₁, howners⟩
  have hrow : db₁.owner? id = swept.owner? id := by
    rw [Registry.owner?, howners]
    rfl
  refine Ensures.bind ?_ (fun db₂ h₂ => Ensures.pure h₂)
  rcases hlive id resources rfl with ⟨o, ho, hs, hspared⟩ | ⟨r, hr, n, o, hactive, ho, hspared⟩ |
    ⟨hnone, rfl⟩
  · have hid : db₁.owner? id = some o := hrow.trans (sweep_spares ho hspared swept hsweep).row
    refine owned_activate (fun hended => ?_) (fun _ _ => ⟨o, hid⟩) h₁
    obtain ⟨o', ho', hdead⟩ := h₁.terminal id hended
    rw [hid] at ho'
    cases ho'
    rw [hs] at hdead
    cases hdead
  · -- the resource is still held, and the call has returned
    have hheld := (sweep_spares ho hspared swept hsweep).held r hactive
    exact absurd (List.any_eq_true.mpr ⟨r, hr, taken_iff.mpr ⟨n, hheld⟩⟩) htaken
  · have hid : db₁.owner? id = none := hrow.trans (sweep_keeps_none hnone swept hsweep)
    cases hinsert
    refine owned_activate (fun hended => ?_) (fun r hactive => ?_) h₁
    · obtain ⟨o', ho', -⟩ := h₁.terminal id hended
      rw [hid] at ho'
      cases ho'
    · obtain ⟨o', ho', -⟩ := (hswept.held r id hactive).resolve_left (fun h => h)
      exact ⟨o', ho'⟩

end Activate

/-- One transaction keeps the invariant. -/
theorem owned_step {a : Action} (hlive : ActivatesLive db a)
    (h : Owned (fun _ => False) ended db) :
    Owned (fun _ => False) ended (step hashes db a) := by
  refine step_of_ensures h ?_
  obtain ⟨env, call⟩ := a
  cases call with
  | upsertResources | replaceResources | sweepStale | reconcileCurrentServiceOwners
  | reserveBackground | reserveService | beginForeground =>
    exact ensures_background owned_background rfl (fun _ _ => trivial) h
  | setPriority id priorityClass => exact Ensures.map (ensures_setPriority h (owned_write rfl h))
  | requestPreemption id =>
    exact Ensures.map (Ensures.bind (owned_write rfl h) (fun _ h => Ensures.pure h))
  | activateForeground id resources => exact Ensures.map (owned_activateForeground hlive h)
  | heartbeat id pid => exact Ensures.bind (owned_write rfl h) (fun _ h => owned_write rfl h)
  | protectResidency id baseline =>
    exact Ensures.map (ensures_protectResidency (fun _ _ _ _ => owned_write rfl h))
  | recordResidencyProcess id pid capability generation =>
    exact ensures_recordResidencyProcess (fun _ _ _ _ _ _ _ _ => owned_write rfl h)
  | release id proof capability generation =>
    refine ensures_release (fun _ => owned_release rfl h) (fun _ db' _ _ _ hdb' => ?_)
    exact owned_release rfl (owned_write (s := .unprotect id) rfl h db' hdb')

/-- In every run of clients whose foreground activations name a live owner, a resource has
one active reservation, its owner is active, and an owner that ended stays ended and holds
nothing. -/
theorem holders_are_active_owners (hashes : Hashes) (before after : List Action)
    (hlive : Runs.Along (step hashes) ActivatesLive {} (before ++ after)) :
    let db := before.foldl (step hashes) {}
    let db' := after.foldl (step hashes) db
    (∀ x ∈ db'.reservations, ∀ y ∈ db'.reservations, x.resourceId = y.resourceId →
      x.state = .active → y.state = .active → x = y) ∧
    (∀ r id, db'.active r id → ∃ o, db'.owner? id = some o ∧ o.state = .active) ∧
    (∀ id, Terminal db id → Terminal db' id ∧ ∀ r, ¬ db'.active r id) := by
  intro db db'
  have hbefore : Owned (fun _ => False) (fun _ => False) db :=
    hlive.left.invariant (fun _ _ h hl => owned_step hl h)
      ⟨fun _ _ ⟨_, hx, _⟩ => (by cases hx), fun _ h => h.elim⟩
  have hafter : Owned (fun _ => False) (Terminal db) db' :=
    hlive.right.invariant (fun _ _ h hl => owned_step hl h) ⟨hbefore.held, fun _ h => h⟩
  refine ⟨fun x hx y hy hr hxs hys => ?_, fun r id h => ?_, fun id h => ?_⟩
  · exact reservation_unique hx hy hr hxs hys
  · exact (hafter.held r id h).resolve_left (fun h => h)
  · exact ⟨hafter.terminal id h, fun r => not_active_of_terminal hafter.held (hafter.terminal id h)⟩

section Runs

def plainHashes : Hashes := ⟨fun text => text, fun text => text⟩

/-- A host on which process 7 runs, observed at a time. -/
def hostAt (now : ℚ) : Env where
  cutoffClock := now
  clock := now
  pid := 7
  signals := fun pid => pid = 7
  processStart := fun pid => if pid = 7 then some "100" else none
  bootId := "boot"
  cpuCapacity := 8
  memoryCapacityBytes := 1000
  ownerUuid := "u1"
  intentUuid := "i1"
  generation := "g1"
  capability := "c1"

def deviceA : Resource := ⟨"accelerator:a", "accelerator", [], true, 0⟩

/-- A foreground request for a free device. -/
def requested : List Action :=
  [⟨hostAt 0, .upsertResources [deviceA]⟩,
    ⟨hostAt 1, .beginForeground "/p" { ids := ["accelerator:a"] } 7 .foregroundGpu⟩]

def activation (now : ℚ) : Action :=
  ⟨hostAt now, .activateForeground "foreground:u1" ["accelerator:a"]⟩

/-- The owner of the request is activated while it waits. -/
theorem waiting_owner_is_activated :
    ∃ o, ([activation 2].foldl (step plainHashes)
      (requested.foldl (step plainHashes) {})).owner? "foreground:u1" = some o ∧
      o.state = .active := by
  have hrow : ((requested.foldl (step plainHashes) {}).owner? "foreground:u1").map
      (fun o => (o.state.live, (hostAt 2).alive o.pid o.processStart)) = some (true, true) := by
    decide +kernel
  have hlive : Runs.Along (step plainHashes) ActivatesLive {} (requested ++ [activation 2]) := by
    refine ⟨fun _ _ h => (by cases h), fun _ _ h => (by cases h), fun id resources h => ?_, trivial⟩
    cases h
    obtain ⟨o, ho, hprops⟩ := Option.map_eq_some_iff.mp hrow
    exact .inl ⟨o, ho, congrArg Prod.fst hprops, .inr (.inl (congrArg Prod.snd hprops))⟩
  obtain ⟨-, hheld, -⟩ := holders_are_active_owners plainHashes requested [activation 2] hlive
  refine hheld "accelerator:a" "foreground:u1" ?_
  have htaken : ([activation 2].foldl (step plainHashes)
      (requested.foldl (step plainHashes) {})).reserved "foreground:u1" = ["accelerator:a"] := by
    decide +kernel
  have hmem : "accelerator:a" ∈ ([activation 2].foldl (step plainHashes)
      (requested.foldl (step plainHashes) {})).reserved "foreground:u1" := by
    rw [htaken]
    exact List.mem_singleton.mpr rfl
  obtain ⟨x, hx, hr⟩ := List.mem_map.mp hmem
  obtain ⟨hmem, hsel⟩ := List.mem_filter.mp hx
  simp only [Bool.and_eq_true, decide_eq_true_eq] at hsel
  exact ⟨x, hmem, hr, hsel.1, hsel.2⟩

def releasing : Action := ⟨hostAt 2, .release "foreground:u1" none none none⟩

/-- The activation of a released owner makes it active again, and one of an owner that does
not exist leaves a reservation without an owner. -/
theorem activation_revives_released_owner :
    (((requested ++ [releasing]).foldl (step plainHashes) {}).owner? "foreground:u1").map
      (·.state) = some .released ∧
    (((requested ++ [releasing, activation 3]).foldl (step plainHashes) {}).owner?
      "foreground:u1").map (·.state) = some .active ∧
    ((requested ++ [releasing, activation 3]).foldl (step plainHashes) {}).reserved
      "foreground:u1" = ["accelerator:a"] ∧
    (([activation 3].foldl (step plainHashes) {}).owner? "foreground:u1").isNone = true ∧
    ([activation 3].foldl (step plainHashes) {}).reserved "foreground:u1" = ["accelerator:a"] := by
  decide +kernel

end Runs

end ProjectControl.HostResources
