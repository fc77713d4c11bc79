import Mathlib.Algebra.Order.Ring.Rat
import ProjectControl.SqlTable

/-! The tables of the host resource registry, the residency guards installed on them,
and the statements that its clients run. -/

set_option autoImplicit false

namespace ProjectControl.HostResources

open Sql

abbrev OwnerId := String

abbrev ResourceId := String

inductive OwnerKind where
  | background
  | service
  | foreground
  deriving DecidableEq, Repr

inductive OwnerState where
  | active
  | intent
  | released
  | stale
  | orphaned
  deriving DecidableEq, Repr

/-- `state IN ('active','intent')`. -/
def OwnerState.live : OwnerState → Bool
  | .active | .intent => true
  | .released | .stale | .orphaned => false

/-- The state of a reservation or of a foreground intent. -/
inductive RowState where
  | active
  | released
  deriving DecidableEq, Repr

/-- `PRIORITY_CLASSES`. -/
inductive PriorityClass where
  | idleModelResidency
  | backgroundCuda
  | foregroundGpu
  | activeLocalDelegation
  | cleanCudaForeground
  deriving DecidableEq, Repr

/-- `priority_value`. -/
def PriorityClass.value : PriorityClass → ℕ
  | .idleModelResidency => 20
  | .backgroundCuda => 40
  | .foregroundGpu => 60
  | .activeLocalDelegation => 80
  | .cleanCudaForeground => 100

inductive ResidencyPhase where
  | reserved
  | spawned
  deriving DecidableEq, Repr

structure Origin where
  pid : ℕ
  processStart : Option String
  bootId : String
  deriving DecidableEq, Repr

/-- The object in `residency_metadata_json`. A baseline value that is not a finite
number is `none`. -/
structure ResidencyMetadata where
  phase : ResidencyPhase
  modelPid : Option ℕ
  processStart : Option String
  baseline : List (String × Option ℚ)
  origin : Origin
  generation : String
  resourceIds : List ResourceId
  residencyCapabilitySha256 : String
  deriving DecidableEq, Repr

structure Resource where
  id : ResourceId
  kind : String
  tags : List (String × String)
  enabled : Bool
  updatedAt : ℚ
  deriving DecidableEq, Repr

structure Owner where
  id : OwnerId
  ownerKind : OwnerKind
  projectRoot : Option String
  jobId : Option String := none
  attemptId : Option String := none
  serviceId : Option String := none
  pid : Option ℕ
  processStart : Option String
  state : OwnerState
  preemptRequested : Bool := false
  priorityClass : PriorityClass
  preemptible : Bool
  residencyProtected : Bool := false
  /-- The empty object of the column's default is `none`. -/
  residencyMetadata : Option ResidencyMetadata := none
  residencyReleaseVerified : Bool := false
  cpuThreads : ℤ
  ramBytes : ℤ
  acquiredAt : ℚ
  heartbeatAt : ℚ
  deriving DecidableEq, Repr

structure Reservation where
  resourceId : ResourceId
  ownerId : OwnerId
  state : RowState
  acquiredAt : ℚ
  heartbeatAt : ℚ
  deriving DecidableEq, Repr

structure Intent where
  id : String
  ownerId : OwnerId
  resources : List ResourceId
  cpuThreads : ℤ
  ramBytes : ℤ
  state : RowState
  createdAt : ℚ
  heartbeatAt : ℚ
  deriving DecidableEq, Repr

/-- The primary key of `host_owners`. -/
def Owner.Distinct (a b : Owner) : Prop := a.id ≠ b.id

instance : DecidableRel Owner.Distinct := fun a b => inferInstanceAs (Decidable (a.id ≠ b.id))

/-- The primary key of `host_reservations` and `idx_host_resource_exclusive`. -/
def Reservation.Distinct (a b : Reservation) : Prop :=
  a.resourceId = b.resourceId →
    a.ownerId ≠ b.ownerId ∧ ¬ (a.state = .active ∧ b.state = .active)

instance : DecidableRel Reservation.Distinct := fun a b =>
  inferInstanceAs (Decidable (a.resourceId = b.resourceId → _))

/-- The primary key of `host_foreground_intents`. -/
def Intent.Distinct (a b : Intent) : Prop := a.id ≠ b.id

instance : DecidableRel Intent.Distinct := fun a b => inferInstanceAs (Decidable (a.id ≠ b.id))

structure Registry where
  resources : List Resource := []
  owners : Table Owner Owner.Distinct := .empty
  reservations : Table Reservation Reservation.Distinct := .empty
  intents : Table Intent Intent.Distinct := .empty

/-- Why a transaction is rolled back. -/
inductive HostError where
  | integrity
  | value (message : String)
  | key (name : String)
  deriving DecidableEq, Repr

def ownerChange (f : Owner → Owner) (h : ∀ o, (f o).id = o.id) : Change Owner.Distinct where
  apply := f
  left a b hab := by
    show (f a).id ≠ b.id
    rw [h]
    exact hab
  right a b hab := by
    show a.id ≠ (f b).id
    rw [h]
    exact hab

def reservationChange (f : Reservation → Reservation)
    (h : ∀ r, (f r).resourceId = r.resourceId ∧ (f r).ownerId = r.ownerId ∧
      ((f r).state = .active → r.state = .active)) : Change Reservation.Distinct where
  apply := f
  left a b hab := by
    obtain ⟨hresource, howner, hstate⟩ := h a
    intro heq
    rw [hresource] at heq
    obtain ⟨hne, hactive⟩ := hab heq
    rw [howner]
    exact ⟨hne, fun ⟨ha, hb⟩ => hactive ⟨hstate ha, hb⟩⟩
  right a b hab := by
    obtain ⟨hresource, howner, hstate⟩ := h b
    intro heq
    rw [hresource] at heq
    obtain ⟨hne, hactive⟩ := hab heq
    rw [howner]
    exact ⟨hne, fun ⟨ha, hb⟩ => hactive ⟨ha, hstate hb⟩⟩

def intentChange (f : Intent → Intent) (h : ∀ i, (f i).id = i.id) : Change Intent.Distinct where
  apply := f
  left a b hab := by
    show (f a).id ≠ b.id
    rw [h]
    exact hab
  right a b hab := by
    show a.id ≠ (f b).id
    rw [h]
    exact hab

section Guards

/-- `EXISTS(SELECT 1 FROM host_owners WHERE id=? AND residency_protected=1 AND state='active')`. -/
def Registry.protects (db : Registry) (id : OwnerId) : Bool :=
  db.owners.rows.any (fun o => o.id = id && o.residencyProtected && o.state = .active)

/-- A row of the two tables that name an owner, in use by a protected one. -/
def Registry.inUse (db : Registry) (state : RowState) (owner : OwnerId) : Truth :=
  (Truth.of (state = .active)).and (.of (db.protects owner))

def ownerInsertGuard (db : Registry) (new : Owner) : Truth := .of (db.protects new.id)

def ownerDeleteGuard (old : Owner) : Truth :=
  (Truth.of old.residencyProtected).and (.of (old.state = .active))

/-- Whether the new metadata records the process that the new row names. -/
def recordsSpawn (old new : Owner) : Truth :=
  .all [.eq (old.residencyMetadata.map (·.phase)) (some .reserved),
    .eq (new.residencyMetadata.map (·.phase)) (some .spawned),
    .eq (new.residencyMetadata.bind (·.modelPid)) new.pid,
    .eq (new.residencyMetadata.bind (·.processStart)) new.processStart]

def ownerUpdateGuard (old new : Owner) : Truth :=
  .all [.of old.residencyProtected, .of (old.state = .active), .any [
    (Truth.of (!new.residencyProtected)).and
      ((Truth.of new.residencyReleaseVerified).and (.of (!old.residencyReleaseVerified))).not,
    (Truth.of new.residencyProtected).and (.any [
      .isNot new.state old.state,
      .isNot new.id old.id,
      .isNot new.ownerKind old.ownerKind,
      .isNot new.projectRoot old.projectRoot,
      .isNot new.jobId old.jobId,
      .isNot new.attemptId old.attemptId,
      .isNot new.serviceId old.serviceId,
      .isNot new.acquiredAt old.acquiredAt,
      .isNot new.cpuThreads old.cpuThreads,
      .isNot new.ramBytes old.ramBytes,
      .isNot (new.residencyMetadata.map (·.generation)) (old.residencyMetadata.map (·.generation)),
      .isNot (new.residencyMetadata.map (·.residencyCapabilitySha256))
        (old.residencyMetadata.map (·.residencyCapabilitySha256)),
      .isNot (new.residencyMetadata.map (·.origin)) (old.residencyMetadata.map (·.origin)),
      .isNot (new.residencyMetadata.map (·.baseline)) (old.residencyMetadata.map (·.baseline)),
      .isNot (new.residencyMetadata.map (·.resourceIds))
        (old.residencyMetadata.map (·.resourceIds)),
      ((Truth.isNot new.pid old.pid).or (.isNot new.processStart old.processStart)).and
        (recordsSpawn old new).not])]]

def reservationInsertGuard (db : Registry) (new : Reservation) : Truth :=
  .of (db.reservations.rows.any (fun old =>
    old.resourceId = new.resourceId && old.state = .active && db.protects old.ownerId))

def reservationDeleteGuard (db : Registry) (old : Reservation) : Truth :=
  db.inUse old.state old.ownerId

def reservationUpdateGuard (db : Registry) (old new : Reservation) : Truth :=
  (db.inUse old.state old.ownerId).and (.any [
    .isNot new.state old.state,
    .isNot new.ownerId old.ownerId,
    .isNot new.resourceId old.resourceId,
    .isNot new.acquiredAt old.acquiredAt])

def intentInsertGuard (db : Registry) (new : Intent) : Truth :=
  .of (db.intents.rows.any (fun old =>
    old.id = new.id && old.state = .active && db.protects old.ownerId))

def intentDeleteGuard (db : Registry) (old : Intent) : Truth :=
  db.inUse old.state old.ownerId

def intentUpdateGuard (db : Registry) (old new : Intent) : Truth :=
  (db.inUse old.state old.ownerId).and (.any [
    .isNot new.state old.state,
    .isNot new.ownerId old.ownerId,
    .isNot new.id old.id,
    .isNot new.createdAt old.createdAt,
    .isNot new.resources old.resources,
    .isNot new.cpuThreads old.cpuThreads,
    .isNot new.ramBytes old.ramBytes])

end Guards

namespace Registry

variable (db : Registry)

/-- `SELECT * FROM host_owners WHERE id=?`. -/
def owner? (id : OwnerId) : Option Owner := db.owners.rows.find? (fun o => o.id = id)

/-- `INSERT INTO host_owners`; a guard that fires skips the row before the key is checked. -/
def insertOwner (new : Owner) : Except HostError Registry :=
  if (ownerInsertGuard db new).holds then .ok db
  else match db.owners.insert? new with
    | some owners => .ok { db with owners := owners }
    | none => .error .integrity

def insertReservation (new : Reservation) : Except HostError Registry :=
  if (reservationInsertGuard db new).holds then .ok db
  else match db.reservations.insert? new with
    | some reservations => .ok { db with reservations := reservations }
    | none => .error .integrity

def insertIntent (new : Intent) : Except HostError Registry :=
  if (intentInsertGuard db new).holds then .ok db
  else match db.intents.insert? new with
    | some intents => .ok { db with intents := intents }
    | none => .error .integrity

def deleteOwners (selected : Owner → Bool) : Registry :=
  { db with owners := db.owners.delete (fun o => selected o && !(ownerDeleteGuard o).holds) }

def deleteReservations (selected : Reservation → Bool) : Registry :=
  { db with
    reservations := db.reservations.delete
      (fun r => selected r && !(reservationDeleteGuard db r).holds) }

def deleteIntents (selected : Intent → Bool) : Registry :=
  { db with
    intents := db.intents.delete
      (fun i => selected i && !(intentDeleteGuard db i).holds) }

def updateOwners (selected : Owner → Bool) (c : Change Owner.Distinct) : Registry :=
  { db with
    owners := db.owners.update
      (fun o => selected o && !(ownerUpdateGuard o (c.apply o)).holds) c }

def updateReservations (selected : Reservation → Bool) (c : Change Reservation.Distinct) :
    Registry :=
  { db with
    reservations := db.reservations.update
      (fun r => selected r && !(reservationUpdateGuard db r (c.apply r)).holds) c }

def updateIntents (selected : Intent → Bool) (c : Change Intent.Distinct) : Registry :=
  { db with
    intents := db.intents.update
      (fun i => selected i && !(intentUpdateGuard db i (c.apply i)).holds) c }

end Registry

/-- The statements that clients run on the registry, one for each text in the source. -/
inductive Statement where
  | setResources (resources : List Resource)
  | insertOwner (new : Owner)
  | insertReservation (new : Reservation)
  | insertIntent (new : Intent)
  | deleteOwners (selected : Owner → Bool)
  | deleteReservations (selected : Reservation → Bool)
  | deleteIntents (selected : Intent → Bool)
  | preempt (now : ℚ) (id : OwnerId)
  | preemptActive (now : ℚ) (id : OwnerId)
  | setPriority (now : ℚ) (id : OwnerId) (priorityClass : PriorityClass)
  | activate (now : ℚ) (id : OwnerId)
  | beat (now : ℚ) (id : OwnerId) (pid : Option ℕ) (processStart : Option String)
  | beatReservations (now : ℚ) (id : OwnerId)
  | releaseReservations (now : ℚ) (id : OwnerId)
  | releaseOwner (now : ℚ) (id : OwnerId) (state : OwnerState)
  | releaseIntents (now : ℚ) (id : OwnerId)
  | releaseOrphanIntents (now : ℚ)
  | protect (id : OwnerId) (metadata : ResidencyMetadata)
  | recordProcess (now : ℚ) (id : OwnerId) (pid : ℕ) (processStart : String)
      (metadata : ResidencyMetadata)
  | unprotect (id : OwnerId)

namespace Registry

/-- `UPDATE host_owners SET .. WHERE id=?`. -/
def updateOwner (db : Registry) (id : OwnerId) (f : Owner → Owner) (h : ∀ o, (f o).id = o.id) :
    Registry :=
  db.updateOwners (fun o => o.id = id) (ownerChange f h)

def exec (db : Registry) : Statement → Except HostError Registry
  | .setResources resources => .ok { db with resources := resources }
  | .insertOwner new => db.insertOwner new
  | .insertReservation new => db.insertReservation new
  | .insertIntent new => db.insertIntent new
  | .deleteOwners selected => .ok (db.deleteOwners selected)
  | .deleteReservations selected => .ok (db.deleteReservations selected)
  | .deleteIntents selected => .ok (db.deleteIntents selected)
  | .preempt now id => .ok (db.updateOwner id
      (fun o => { o with preemptRequested := true, heartbeatAt := now }) (fun _ => rfl))
  | .preemptActive now id => .ok (db.updateOwners
      (fun o => o.id = id && o.state = .active && o.preemptible)
      (ownerChange (fun o => { o with preemptRequested := true, heartbeatAt := now })
        (fun _ => rfl)))
  | .setPriority now id priorityClass => .ok (db.updateOwner id
      (fun o => { o with priorityClass := priorityClass, heartbeatAt := now }) (fun _ => rfl))
  | .activate now id => .ok (db.updateOwner id
      (fun o => { o with state := .active, heartbeatAt := now }) (fun _ => rfl))
  | .beat now id pid processStart => .ok (db.updateOwner id
      (fun o => { o with
        heartbeatAt := now
        pid := pid.orElse (fun _ => o.pid)
        processStart := processStart.orElse (fun _ => o.processStart) }) (fun _ => rfl))
  | .beatReservations now id => .ok (db.updateReservations
      (fun r => r.ownerId = id && r.state = .active)
      (reservationChange (fun r => { r with heartbeatAt := now }) (fun _ => ⟨rfl, rfl, fun h => h⟩)))
  | .releaseReservations now id => .ok (db.updateReservations
      (fun r => r.ownerId = id && r.state = .active)
      (reservationChange (fun r => { r with state := .released, heartbeatAt := now })
        (fun _ => ⟨rfl, rfl, fun h => (by cases h)⟩)))
  | .releaseOwner now id state => .ok (db.updateOwner id
      (fun o => { o with state := state, heartbeatAt := now }) (fun _ => rfl))
  | .releaseIntents now id => .ok (db.updateIntents
      (fun i => i.ownerId = id && i.state = .active)
      (intentChange (fun i => { i with state := .released, heartbeatAt := now }) (fun _ => rfl)))
  | .releaseOrphanIntents now => .ok (db.updateIntents
      (fun i => i.state = .active &&
        db.owners.rows.any (fun o => o.id = i.ownerId && !o.state.live))
      (intentChange (fun i => { i with state := .released, heartbeatAt := now }) (fun _ => rfl)))
  | .protect id metadata => .ok (db.updateOwner id
      (fun o => { o with residencyProtected := true, residencyMetadata := some metadata })
      (fun _ => rfl))
  | .recordProcess now id pid processStart metadata => .ok (db.updateOwner id
      (fun o => { o with
        pid := some pid
        processStart := some processStart
        residencyMetadata := some metadata
        heartbeatAt := now }) (fun _ => rfl))
  | .unprotect id => .ok (db.updateOwner id
      (fun o => { o with residencyProtected := false, residencyReleaseVerified := true })
      (fun _ => rfl))

end Registry

end ProjectControl.HostResources
