import ProjectControl.HostOwners

/-! The residency guards: a protected owner keeps its row and its resources, whatever the
coordinator and older clients without the guards in their code run, until a release that
passes every check. -/

set_option autoImplicit false

namespace ProjectControl.HostResources

open Sql

variable {hashes : Hashes} {env : Env} {db db' : Registry} {id n : OwnerId} {o o' o'' : Owner}
variable {s : Statement}

/-- What stays of a protected owner. Its metadata and its process change together, once. -/
structure Kept (o o' : Owner) : Prop where
  id : o'.id = o.id
  active : o'.state = .active
  isProtected : o'.residencyProtected = true
  ownerKind : o'.ownerKind = o.ownerKind
  projectRoot : o'.projectRoot = o.projectRoot
  jobId : o'.jobId = o.jobId
  attemptId : o'.attemptId = o.attemptId
  serviceId : o'.serviceId = o.serviceId
  acquiredAt : o'.acquiredAt = o.acquiredAt
  cpuThreads : o'.cpuThreads = o.cpuThreads
  ramBytes : o'.ramBytes = o.ramBytes
  metadata : ∃ m m', o.residencyMetadata = some m ∧ o'.residencyMetadata = some m' ∧
    m'.generation = m.generation ∧
    m'.residencyCapabilitySha256 = m.residencyCapabilitySha256 ∧
    m'.origin = m.origin ∧ m'.baseline = m.baseline ∧ m'.resourceIds = m.resourceIds ∧
    (m' = m ∧ o'.pid = o.pid ∧ o'.processStart = o.processStart ∨
      m.phase = .reserved ∧ m'.phase = .spawned ∧ o'.pid = m'.modelPid ∧
        o'.processStart = m'.processStart)

theorem Kept.refl {m : ResidencyMetadata} (ha : o.state = .active)
    (hp : o.residencyProtected = true) (hm : o.residencyMetadata = some m) : Kept o o where
  id := rfl
  active := ha
  isProtected := hp
  ownerKind := rfl
  projectRoot := rfl
  jobId := rfl
  attemptId := rfl
  serviceId := rfl
  acquiredAt := rfl
  cpuThreads := rfl
  ramBytes := rfl
  metadata := ⟨m, m, hm, hm, rfl, rfl, rfl, rfl, rfl, .inl ⟨rfl, rfl, rfl⟩⟩

theorem Kept.trans (h : Kept o o') (h' : Kept o' o'') : Kept o o'' where
  id := h'.id.trans h.id
  active := h'.active
  isProtected := h'.isProtected
  ownerKind := h'.ownerKind.trans h.ownerKind
  projectRoot := h'.projectRoot.trans h.projectRoot
  jobId := h'.jobId.trans h.jobId
  attemptId := h'.attemptId.trans h.attemptId
  serviceId := h'.serviceId.trans h.serviceId
  acquiredAt := h'.acquiredAt.trans h.acquiredAt
  cpuThreads := h'.cpuThreads.trans h.cpuThreads
  ramBytes := h'.ramBytes.trans h.ramBytes
  metadata := by
    obtain ⟨m, m', hm, hm', hg, hc, ho, hb, hr, hphase⟩ := h.metadata
    obtain ⟨m₁, m'', hm₁, hm'', hg', hc', ho', hb', hr', hphase'⟩ := h'.metadata
    rw [hm'] at hm₁
    cases hm₁
    refine ⟨m, m'', hm, hm'', hg'.trans hg, hc'.trans hc, ho'.trans ho, hb'.trans hb,
      hr'.trans hr, ?_⟩
    rcases hphase with ⟨rfl, hpid, hstart⟩ | ⟨hreserved, hspawned, hpid, hstart⟩
    · rcases hphase' with ⟨rfl, hpid', hstart'⟩ | hchanged
      · exact .inl ⟨rfl, hpid'.trans hpid, hstart'.trans hstart⟩
      · exact .inr hchanged
    · rcases hphase' with ⟨rfl, hpid', hstart'⟩ | ⟨hreserved', -⟩
      · exact .inr ⟨hreserved, hspawned, hpid'.trans hpid, hstart'.trans hstart⟩
      · -- the phase does not go back
        rw [hspawned] at hreserved'
        cases hreserved'

section Guard

variable {m m' : ResidencyMetadata}

/-- What the guard lets pass of an update that keeps the protection. A NULL in the condition
on the recorded process lets the change of the process pass as well. -/
theorem guard_allows (hp : o.residencyProtected = true) (ha : o.state = .active)
    (hp' : o'.residencyProtected = true) (hguard : (ownerUpdateGuard o o').holds = false) :
    o'.state = .active ∧ o'.id = o.id ∧ o'.ownerKind = o.ownerKind ∧
      o'.projectRoot = o.projectRoot ∧ o'.jobId = o.jobId ∧ o'.attemptId = o.attemptId ∧
      o'.serviceId = o.serviceId ∧ o'.acquiredAt = o.acquiredAt ∧
      o'.cpuThreads = o.cpuThreads ∧ o'.ramBytes = o.ramBytes ∧
      o'.residencyMetadata.map (·.generation) = o.residencyMetadata.map (·.generation) ∧
      o'.residencyMetadata.map (·.residencyCapabilitySha256) =
        o.residencyMetadata.map (·.residencyCapabilitySha256) ∧
      o'.residencyMetadata.map (·.origin) = o.residencyMetadata.map (·.origin) ∧
      o'.residencyMetadata.map (·.baseline) = o.residencyMetadata.map (·.baseline) ∧
      o'.residencyMetadata.map (·.resourceIds) = o.residencyMetadata.map (·.resourceIds) ∧
      (¬ o'.pid = o.pid ∨ ¬ o'.processStart = o.processStart →
        (recordsSpawn o o').not.holds = false) := by
  have hnot : ¬ (ownerUpdateGuard o o').holds = true := by
    rw [hguard]
    simp
  simpa [ownerUpdateGuard, hp, ha, hp'] using hnot

/-- The condition is false, not NULL, where the phase stays. -/
theorem recordsSpawn_no (hm : o.residencyMetadata = some m) (hm' : o'.residencyMetadata = some m')
    (hphase : m'.phase = m.phase) : recordsSpawn o o' = .no := by
  apply Truth.not_all_of_mem
  rw [hm, hm']
  simp only [Option.map_some, hphase]
  cases m.phase with
  | reserved => exact List.mem_cons_of_mem _ List.mem_cons_self
  | spawned => exact List.mem_cons_self

theorem kept_of_guard (hp : o.residencyProtected = true) (ha : o.state = .active)
    (hm : o.residencyMetadata = some m) (hp' : o'.residencyProtected = true)
    (hm' : o'.residencyMetadata = some m') (hguard : (ownerUpdateGuard o o').holds = false)
    (hrecord : m' = m ∨ m.phase = .reserved ∧ m'.phase = .spawned ∧ o'.pid = m'.modelPid ∧
      o'.processStart = m'.processStart) : Kept o o' := by
  obtain ⟨hstate, hid, hkind, hroot, hjob, hattempt, hservice, hacquired, hcpu, hram, hgeneration,
    hcapability, horigin, hbaseline, hresources, hidentity⟩ := guard_allows hp ha hp' hguard
  rw [hm, hm'] at hgeneration hcapability horigin hbaseline hresources
  refine ⟨hid, hstate, hp', hkind, hroot, hjob, hattempt, hservice, hacquired, hcpu, hram, ?_⟩
  refine ⟨m, m', hm, hm', Option.some.inj hgeneration, Option.some.inj hcapability,
    Option.some.inj horigin, Option.some.inj hbaseline, Option.some.inj hresources, ?_⟩
  rcases hrecord with rfl | hspawn
  · have hsame : o'.pid = o.pid ∧ o'.processStart = o.processStart := by
      by_contra hchanged
      have hpass := hidentity (not_and_or.mp hchanged)
      rw [recordsSpawn_no hm hm' rfl] at hpass
      cases hpass
    exact .inl ⟨rfl, hsame⟩
  · exact .inr hspawn

end Guard

section Statements

variable {base : Owner} {resources : List ResourceId}

/-- The protected owner is there with its resources. -/
structure Resident (base : Owner) (resources : List ResourceId) (id : OwnerId) (db : Registry) :
    Prop where
  row : ∃ o, db.owner? id = some o ∧ Kept base o
  held : ∀ r ∈ resources, db.active r id

/-- The statements other than those that begin, record or end a protection. -/
def Statement.unguarded : Statement → Bool
  | .protect _ _ | .recordProcess _ _ _ _ _ | .unprotect _ => false
  | _ => true

theorem resident_exec (h : Resident base resources id db)
    (hwrite : ∀ o o', db.owner? id = some o → Kept base o → OwnerWrite s o o' →
      (ownerUpdateGuard o o').holds = false → Kept o o') :
    Ensures (db.exec s) (Resident base resources id) := by
  intro db' hdb'
  obtain ⟨o, ho, hkept⟩ := h.row
  refine ⟨?_, fun r hr => ?_⟩
  · rcases exec_owner hdb' ho with hsame | ⟨o', ho', hw, hguard⟩ | ⟨selected, rfl, hguard⟩
    · exact ⟨o, hsame, hkept⟩
    · exact ⟨o', ho', hkept.trans (hwrite o o' ho hkept hw hguard)⟩
    · have hfires : (ownerDeleteGuard o).holds = true := Truth.holds_and.mpr
        ⟨(Truth.holds_of _).mpr hkept.isProtected, (Truth.holds_of _).mpr hkept.active⟩
      rw [hfires] at hguard
      cases hguard
  · have hprotects : db.protects id = true :=
      protects_iff.mpr ⟨o, ho, hkept.isProtected, hkept.active⟩
    rcases exec_active hdb' (h.held r hr) with hactive | ⟨hp, -⟩
    · exact hactive
    · rw [hprotects] at hp
      cases hp

theorem resident_unguarded (hs : s.unguarded = true) (h : Resident base resources id db) :
    Ensures (db.exec s) (Resident base resources id) := by
  refine resident_exec h (fun o o' ho hkept hwrite hguard => ?_)
  obtain ⟨-, m, -, hm, -⟩ := hkept.metadata
  cases hwrite with
  | protect | recordProcess | unprotect => cases hs
  | preempt | preemptActive | setPriority | activate | beat | releaseOwner =>
    exact kept_of_guard hkept.isProtected hkept.active hm hkept.isProtected hm hguard (.inl rfl)

/-- A statement on another owner. -/
theorem resident_other (htarget : s.target ≠ some id) (h : Resident base resources id db) :
    Ensures (db.exec s) (Resident base resources id) := by
  refine resident_exec h (fun o o' ho _ hwrite _ => absurd ?_ htarget)
  rw [← id_of_owner? ho]
  cases hwrite <;> rfl

theorem resident_release {state : OwnerState} (h : Resident base resources id db) :
    Ensures (releaseLocked env db n state) (Resident base resources id) :=
  Ensures.bind (resident_unguarded rfl h) (fun _ h =>
    Ensures.bind (resident_unguarded rfl h) (fun _ h => resident_unguarded rfl h))

theorem resident_background : Background env (fun _ => True) (Resident base resources id) where
  insertOwner _ _ _ _ _ h := resident_unguarded rfl h
  insertReservation _ _ _ _ h := resident_unguarded rfl h
  insertIntent _ _ _ h := resident_unguarded rfl h
  preempt _ _ _ h := resident_unguarded rfl h
  resources _ _ h := resident_unguarded rfl h
  release _ _ _ _ h := resident_release h
  orphans _ h := resident_unguarded rfl h

end Statements

/-- A statement of a client that does not know the columns of the protection. -/
def Statement.legacy : Statement → Bool
  | .insertOwner new => !new.residencyProtected && new.residencyMetadata = none &&
      !new.residencyReleaseVerified
  | s => s.unguarded

/-- What happens to the registry: an operation of the coordinator, or a statement of an
older client. -/
inductive Event where
  | operation (a : Action)
  | statement (s : Statement) (hs : s.legacy = true)

def apply (hashes : Hashes) (db : Registry) : Event → Registry
  | .operation a => step hashes db a
  | .statement s _ => (db.exec s).toOption.getD db

/-- The event is no release of the owner that passes the checks. -/
def Retains (hashes : Hashes) (id : OwnerId) (db : Registry) (e : Event) : Prop :=
  ∀ env proof capability generation, e = .operation ⟨env, .release id proof capability generation⟩ →
    ∀ o, db.owner? id = some o →
      verifyRelease hashes env db o proof capability generation ≠ .ok ()

section Events

variable {base : Owner} {resources : List ResourceId}

theorem unguarded_of_legacy (hs : s.legacy = true) : s.unguarded = true := by
  cases s with
  | insertOwner => rfl
  | _ => exact hs

theorem resident_step {a : Action} (hretains : Retains hashes id db (.operation a))
    (h : Resident base resources id db) : Resident base resources id (step hashes db a) := by
  refine step_of_ensures h ?_
  obtain ⟨env, call⟩ := a
  obtain ⟨o, ho, hkept⟩ := h.row
  cases call with
  | upsertResources | replaceResources | sweepStale | reconcileCurrentServiceOwners
  | reserveBackground | reserveService | beginForeground =>
    exact ensures_background resident_background rfl (fun _ _ => trivial) h
  | setPriority n priorityClass =>
    exact Ensures.map (ensures_setPriority h (resident_unguarded rfl h))
  | requestPreemption n =>
    exact Ensures.map (Ensures.bind (resident_unguarded rfl h) (fun _ h => Ensures.pure h))
  | activateForeground n resources =>
    exact Ensures.map (ensures_activateForeground (resident_background.sweep h)
      (fun _ _ h => resident_unguarded rfl h) (fun _ h => resident_unguarded rfl h))
  | heartbeat n pid =>
    exact Ensures.bind (resident_unguarded rfl h) (fun _ h => resident_unguarded rfl h)
  | protectResidency n baseline =>
    refine Ensures.map (ensures_protectResidency (fun o' ho' _ hplain => resident_other ?_ h))
    intro htarget
    cases htarget
    -- the owner is protected already
    rw [ho] at ho'
    cases ho'
    rw [hkept.isProtected] at hplain
    cases hplain
  | recordResidencyProcess n pid capability generation =>
    refine ensures_recordResidencyProcess (fun o₁ m start ho₁ _ _ hm₁ hsame => ?_)
    refine resident_exec h (fun o o' ho hkept hwrite hguard => ?_)
    cases hwrite
    rw [id_of_owner? ho, ho] at ho₁
    cases ho₁
    refine kept_of_guard hkept.isProtected hkept.active hm₁ hkept.isProtected rfl hguard ?_
    cases hphase : m.phase with
    | reserved => exact .inr ⟨rfl, rfl, rfl, rfl⟩
    | spawned =>
      obtain ⟨hpid, hstart⟩ := hsame hphase
      rw [← hpid, ← hstart, ← hphase]
      exact .inl rfl
  | release n proof capability generation =>
    refine ensures_release (fun _ => resident_release h)
      (fun o' db' ho' _ hverify hdb' => resident_release ?_)
    refine resident_other (s := .unprotect n) (fun htarget => ?_) h db' hdb'
    cases htarget
    exact hretains env proof capability generation rfl o' ho' hverify

theorem resident_apply {e : Event} (hretains : Retains hashes id db e)
    (h : Resident base resources id db) : Resident base resources id (apply hashes db e) := by
  cases e with
  | operation a => exact resident_step hretains h
  | statement s hs =>
    have hall : Ensures (db.exec s) (Resident base resources id) :=
      resident_unguarded (unguarded_of_legacy hs) h
    show Resident base resources id ((db.exec s).toOption.getD db)
    cases hexec : db.exec s with
    | error e => exact h
    | ok db' => exact hall db' hexec

theorem protect_protects {baseline : List (String × Option ℚ)} {p : Protection}
    (h : protectResidency hashes env db id baseline = .ok (db', p)) :
    ∃ o, db'.owner? id = some o ∧ o.state = .active ∧ o.residencyProtected = true ∧
      o.residencyMetadata = some (reservedMetadata hashes env db id baseline) ∧
      ∀ r ∈ p.resourceIds, db'.active r id := by
  unfold protectResidency at h
  split at h
  · cases h
  · rename_i o ho
    split at h
    · cases h
    · rename_i hprotectable
      split at h
      · cases h
      · rename_i hplain
        cases h
        have hactive : o.state = .active := by
          simp only [protectable, Bool.not_eq_true', Bool.not_eq_false, Bool.and_eq_true,
            decide_eq_true_eq] at hprotectable
          exact hprotectable.1.1.1.1.1.1
        refine ⟨{ o with
          residencyProtected := true
          residencyMetadata := some (reservedMetadata hashes env db id baseline) },
          ?_, hactive, rfl, rfl, fun r hr => ?_⟩
        · show (Registry.updateOwners _ _ _).owner? id = _
          rw [owner?_updateOwners, ho]
          simp [id_of_owner? ho, ownerUpdateGuard, ownerChange, hplain]
        · have hmem : r ∈ db.reserved id := (List.mem_insertionSort _).mp hr
          obtain ⟨x, hx, hxr⟩ := List.mem_map.mp hmem
          obtain ⟨hrow, hsel⟩ := List.mem_filter.mp hx
          simp only [Bool.and_eq_true, decide_eq_true_eq] at hsel
          exact ⟨x, hrow, hxr, hsel.1, hsel.2⟩

end Events

/-- From the protection of an owner until its release passes every check, through any
operations and any statements of older clients, its row stays as it was, its resources stay
its own and its process changes once, to the one that the metadata records. -/
theorem protected_owner_stays (hashes : Hashes) (env : Env) (db₀ db : Registry) (id : OwnerId)
    (baseline : List (String × Option ℚ)) (p : Protection)
    (hprotect : protectResidency hashes env db₀ id baseline = .ok (db, p))
    (events later : List Event)
    (hretains : Runs.Along (apply hashes) (Retains hashes id) db (events ++ later)) :
    let db₁ := events.foldl (apply hashes) db
    let db₂ := later.foldl (apply hashes) db₁
    ∃ o o₁ o₂, db.owner? id = some o ∧ db₁.owner? id = some o₁ ∧ db₂.owner? id = some o₂ ∧
      o.residencyMetadata = some (reservedMetadata hashes env db₀ id baseline) ∧
      Kept o o₁ ∧ Kept o₁ o₂ ∧
      ∀ r ∈ p.resourceIds, db₂.active r id ∧ ∀ n, db₂.active r n → n = id := by
  intro db₁ db₂
  obtain ⟨o, ho, ha, hp, hm, hactive⟩ := protect_protects hprotect
  have h₁ : Resident o p.resourceIds id db₁ :=
    hretains.left.invariant (fun _ _ h hr => resident_apply hr h) ⟨⟨o, ho, .refl ha hp hm⟩, hactive⟩
  obtain ⟨o₁, ho₁, hkept₁⟩ := h₁.row
  obtain ⟨-, m₁, -, hm₁, -⟩ := hkept₁.metadata
  have h₂ : Resident o₁ p.resourceIds id db₂ :=
    hretains.right.invariant (fun _ _ h hr => resident_apply hr h)
      ⟨⟨o₁, ho₁, .refl hkept₁.active hkept₁.isProtected hm₁⟩, h₁.held⟩
  obtain ⟨o₂, ho₂, hkept₂⟩ := h₂.row
  refine ⟨o, o₁, o₂, ho, ho₁, ho₂, hm, hkept₁, hkept₂, fun r hr => ⟨h₂.held r hr, fun n hn => ?_⟩⟩
  exact active_unique hn (h₂.held r hr)

section Runs

/-- A service of process 7 that holds the device. -/
def serviceRun : List Action :=
  [⟨hostAt 0, .upsertResources [deviceA]⟩,
    ⟨hostAt 1, .reserveService "/p" "core4-local-1" { ids := ["accelerator:a"] } 7
      .idleModelResidency⟩]

def service : OwnerId := serviceOwnerId plainHashes (hostAt 1) "/p" "core4-local-1"

/-- An older client releases the owner and deletes what it holds. -/
def oldRelease : List Event :=
  [.statement (.releaseReservations 3 service) rfl, .statement (.releaseOwner 3 service .released) rfl,
    .statement (.deleteReservations (fun _ => true)) rfl,
    .statement (.deleteOwners (fun _ => true)) rfl]

theorem protected_service_stays : ∃ db p,
    protectResidency plainHashes (hostAt 2) (serviceRun.foldl (step plainHashes) {}) service
      [("a", some 0)] = .ok (db, p) ∧
    (oldRelease.foldl (apply plainHashes) db).active "accelerator:a" service := by
  have hcommit : ((protectResidency plainHashes (hostAt 2)
      (serviceRun.foldl (step plainHashes) {}) service [("a", some 0)]).toOption.map
        (·.2.resourceIds)) = some ["accelerator:a"] := by
    decide +kernel
  obtain ⟨⟨db, p⟩, hsome, hresources⟩ := Option.map_eq_some_iff.mp hcommit
  have hprotect := Ensures.ok_of_toOption hsome
  have hretains : Runs.Along (apply plainHashes) (Retains plainHashes service) db
      (oldRelease ++ []) :=
    ⟨fun _ _ _ _ h => (by cases h), fun _ _ _ _ h => (by cases h), fun _ _ _ _ h => (by cases h),
      fun _ _ _ _ h => (by cases h), trivial⟩
  obtain ⟨-, -, -, -, -, -, -, -, -, hheld⟩ := protected_owner_stays plainHashes (hostAt 2) _ db
    service _ p hprotect oldRelease [] hretains
  refine ⟨db, p, hprotect, (hheld "accelerator:a" ?_).1⟩
  rw [hresources]
  exact List.mem_singleton.mpr rfl

end Runs

end ProjectControl.HostResources
