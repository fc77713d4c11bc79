import Mathlib.Data.List.Sort
import ProjectControl.HostRegistry

/-! The operations of `HostCoordinator`. Each is one transaction: what it returns is
committed and an error rolls it back. -/

set_option autoImplicit false

namespace ProjectControl.HostResources

open Sql

/-- What an operation reads of the host while its transaction is open. -/
structure Env where
  /-- The reading of the clock that a sweep computes its cutoff from. -/
  cutoffClock : ℚ
  /-- The reading of the clock that the statements write. -/
  clock : ℚ
  /-- `os.getpid()`. -/
  pid : ℕ
  /-- Whether `os.kill(pid, 0)` succeeds. -/
  signals : ℕ → Bool
  /-- `_process_start` of a process whose stat text is UTF-8. With a name that is cut inside a
  character the read raises out of the whole operation; such processes are left out. -/
  processStart : ℕ → Option String
  bootId : String
  cpuCapacity : ℕ
  memoryCapacityBytes : ℕ
  /-- The fresh values that the operation draws. -/
  ownerUuid : String
  intentUuid : String
  generation : String
  capability : String

/-- The hash functions. -/
structure Hashes where
  sha256 : String → String
  digest : String → String

/-- The `request` of a reservation. -/
structure Request where
  kind : String := "accelerator"
  tags : List (String × String) := []
  ids : List ResourceId := []
  count : ℤ := 0
  exclusiveResources : List ResourceId := []
  isolatePcieRoot : Bool := false
  isolateNvlinkDomain : Bool := false
  cpuThreads : ℤ := 0
  cpuHeavy : Bool := false
  ramBytes : ℤ := 0
  deriving DecidableEq, Repr

section Text

def startsWith (text start : String) : Bool := start.toList.isPrefixOf text.toList

/-- `text LIKE 'start%'`, which ignores case. -/
def likePrefix (text start : String) : Bool :=
  start.toList.isPrefixOf (text.toList.map Char.toLower)

def removePrefix (text start : String) : String :=
  if startsWith text start then String.ofList (text.toList.drop start.length) else text

/-- `sorted(set(texts))`. -/
def sortedSet (texts : List String) : List String := texts.dedup.insertionSort (· ≤ ·)

/-- `itertools.combinations`. -/
def combinations {α : Type} : ℕ → List α → List (List α)
  | 0, _ => [[]]
  | _ + 1, [] => []
  | n + 1, a :: rest => (combinations n rest).map (a :: ·) ++ combinations (n + 1) rest

end Text

/-- `_alive`. -/
def Env.alive (env : Env) (pid : Option ℕ) (expected : Option String) : Bool :=
  match pid with
  | none => false
  | some 0 => false
  | some p => env.signals p &&
      ((expected.getD "" = "") || ((env.processStart p).getD "" = "") ||
        expected = env.processStart p)

section Resources

variable (env : Env) (db : Registry)

/-- `INSERT .. ON CONFLICT(id) DO UPDATE` of one resource. -/
def upsertResource (resources : List Resource) (new : Resource) : List Resource :=
  if resources.any (fun r => r.id = new.id) then
    resources.map (fun r => if r.id = new.id then new else r)
  else resources ++ [new]

/-- `upsert_resources`. -/
def upsertResources (items : List Resource) : Except HostError Registry :=
  db.exec (.setResources (items.foldl
    (fun resources item => upsertResource resources { item with updatedAt := env.clock })
    db.resources))

/-- `replace_resources`. -/
def replaceResources (kind : String) (items : List Resource) : Except HostError Registry := do
  if items.any (fun item => item.kind ≠ kind) then
    throw (.value "replacement resources must share one kind")
  let retired := db.resources.map (fun r =>
    if r.kind = kind then { r with enabled := false, updatedAt := env.clock } else r)
  db.exec (.setResources (items.foldl
    (fun resources item => upsertResource resources { item with updatedAt := env.clock })
    retired))

end Resources

section Sweep

variable (env : Env) (db : Registry)

/-- `_release_locked`. -/
def releaseLocked (id : OwnerId) (state : OwnerState) : Except HostError Registry := do
  let db ← db.exec (.releaseReservations env.clock id)
  let db ← db.exec (.releaseOwner env.clock id state)
  db.exec (.releaseIntents env.clock id)

/-- The rows that a sweep looks at. -/
def sweepRows (staleSeconds : ℚ) : List Owner :=
  db.owners.rows.filter (fun o => o.state.live && o.heartbeatAt < env.cutoffClock - staleSeconds)

/-- The body of the loop of `_sweep_locked`. -/
def sweepOwner (db : Registry) (o : Owner) : Except HostError Registry :=
  if o.residencyProtected then pure db
  else if env.alive o.pid o.processStart then pure db
  else releaseLocked env db o.id .stale

/-- `_sweep_locked`. -/
def sweepLocked (staleSeconds : ℚ) : Except HostError Registry := do
  let db ← (sweepRows env db staleSeconds).foldlM (sweepOwner env) db
  db.exec (.releaseOrphanIntents env.clock)

def liveOwners : ℕ := db.owners.rows.countP (fun o => o.state.live)

/-- `sweep_stale`. -/
def sweepStale (staleSeconds : ℚ) : Except HostError (Registry × ℤ) := do
  let before := liveOwners db
  let db ← sweepLocked env db staleSeconds
  return (db, before - liveOwners db)

/-- The body of the loop of `reconcile_current_service_owners`. -/
def reconcileOwner (live : List OwnerId) (acc : Registry × List OwnerId) (o : Owner) :
    Except HostError (Registry × List OwnerId) :=
  if o.id ∈ live then pure acc
  else if ((acc.1.owner? o.id).map (·.residencyProtected)).getD false then pure acc
  else do
    let db ← releaseLocked env acc.1 o.id .orphaned
    return (db, acc.2 ++ [o.id])

/-- `reconcile_current_service_owners`. -/
def reconcileCurrentServiceOwners (projectRoot : String) (pid : ℕ) (live : List OwnerId) :
    Except HostError (Registry × List OwnerId) :=
  match env.processStart pid with
  | none => pure (db, [])
  | some start =>
    let rows := db.owners.rows.filter (fun o => o.ownerKind = .service &&
      o.projectRoot = some projectRoot && o.pid = some pid && o.processStart = some start &&
      (o.serviceId.map (likePrefix · "core4-local-")).getD false && o.state.live)
    rows.foldlM (reconcileOwner env live) (db, [])

end Sweep

section Select

variable (env : Env) (db : Registry) (request : Request)

/-- `json.loads(row["tags_json"]).get(key)` where it is neither missing nor empty. -/
def Resource.tag? (r : Resource) (key : String) : Option String :=
  (r.tags.lookup key).filter (· ≠ "")

/-- `_extra_ids`. -/
def extraIds (selected : List Resource) : List ResourceId :=
  let pcie := if request.isolatePcieRoot then
    selected.filterMap (fun r => (r.tag? "pcie_root").map ("interference:pcie:" ++ ·)) else []
  let nvlink := if request.isolateNvlinkDomain then
    selected.filterMap (fun r => (r.tag? "nvlink_domain").map ("interference:nvlink:" ++ ·))
    else []
  sortedSet (request.exclusiveResources ++ pcie ++ nvlink)

/-- `_active_resource_ids`. -/
def activeResourceIds : List ResourceId :=
  (db.reservations.rows.filter (fun r => r.state = .active)).map (·.resourceId) ++
    (db.intents.rows.filter (fun i => i.state = .active)).flatMap (·.resources)

def cpuLimit : ℕ := max 1 (env.cpuCapacity * 3 / 4)

def ramLimit : ℕ := env.memoryCapacityBytes * 4 / 5

/-- `_cpu_threads`. -/
def cpuThreads : ℤ :=
  if request.cpuThreads ≠ 0 then request.cpuThreads
  else if request.cpuHeavy then cpuLimit env else 0

/-- `_pressure_available`. -/
def pressureAvailable : Bool :=
  let live := db.owners.rows.filter (fun o => o.state.live)
  (live.map (·.cpuThreads)).sum + cpuThreads env request ≤ cpuLimit env &&
    (live.map (·.ramBytes)).sum + request.ramBytes ≤ ramLimit env

/-- `SELECT * FROM host_resources WHERE enabled=1 AND kind=? ORDER BY id`, and the tags.
A tag that is missing reads as `None`. -/
def eligible : List Resource :=
  let rows := (db.resources.filter (fun r => r.enabled && r.kind = request.kind)).insertionSort
    (fun a b => a.id ≤ b.id)
  rows.filter (fun r => request.tags.all (fun tag => (r.tags.lookup tag.1).getD "None" = tag.2))

/-- The bundles of resources that meet a request, in the order they are tried. -/
def bundles : Except HostError (List (List Resource)) :=
  let rows := eligible db request
  if request.ids ≠ [] then
    let selected := rows.filter (fun r => r.id ∈ request.ids)
    pure (if selected.length = request.ids.length then [selected] else [])
  else if request.count < 0 then throw (.value "r must be non-negative")
  else pure (combinations request.count.toNat rows)

/-- `sorted(set(resource_ids + extra))`. -/
def expanded (bundle : List Resource) : List ResourceId :=
  sortedSet (bundle.map (·.id) ++ extraIds request bundle)

/-- `_select_locked`. -/
def selectLocked : Except HostError (Option (List ResourceId)) := do
  if !pressureAvailable env db request then return none
  let found ← bundles db request
  return (found.map (expanded request)).find?
    (fun ids => ids.all (fun id => id ∉ activeResourceIds db))

/-- `_candidate_resources_locked`. -/
def candidateResourcesLocked : Except HostError (List (List ResourceId)) := do
  let found ← bundles db request
  return found.map (expanded request)

/-- `_conflicting_owners_locked`. -/
def conflictingOwnersLocked (resources : List ResourceId) : List Owner :=
  db.owners.rows.filter (fun o => o.state = .active &&
    db.reservations.rows.any (fun r => r.ownerId = o.id && r.state = .active &&
      r.resourceId ∈ resources))

/-- A bundle with the owners that would have to give way. -/
structure Candidate where
  resources : List ResourceId
  owners : List Owner

def Candidate.weight (c : Candidate) : ℕ :=
  (c.owners.map (·.priorityClass.value)).foldl (· + ·) 0

/-- The order of `min` on the candidates. -/
def Candidate.before (a b : Candidate) : Bool :=
  a.owners.length < b.owners.length || (a.owners.length = b.owners.length &&
    (a.weight < b.weight || (a.weight = b.weight && a.resources < b.resources)))

/-- The first least element, as `min` returns it. -/
def leastCandidate : List Candidate → Option Candidate
  | [] => none
  | first :: rest => some (rest.foldl (fun best c => if c.before best then c else best) first)

/-- The bundle and the victims that `_request_preemption_locked` chooses. -/
def preemptionChoice (priorityClass : PriorityClass) : Except HostError (Option Candidate) := do
  let found ← candidateResourcesLocked db request
  let candidates := found.map (fun resources =>
    (⟨resources, conflictingOwnersLocked db resources⟩ : Candidate))
  return leastCandidate (candidates.filter (fun c => !c.owners.isEmpty &&
    c.owners.all (fun o => o.preemptible && o.priorityClass.value < priorityClass.value)))

/-- The statements that signal a list of owners. -/
def preemptAll (victims : List Owner) : Except HostError Registry :=
  victims.foldlM (fun db o => db.exec (.preempt env.clock o.id)) db

/-- `_request_preemption_locked`. -/
def requestPreemptionLocked (priorityClass : PriorityClass) :
    Except HostError (Registry × List ResourceId) := do
  match ← preemptionChoice db request priorityClass with
  | none => return (db, [])
  | some c =>
    let db ← preemptAll env db c.owners
    return (db, c.resources)

end Select

section Reserve

variable (hashes : Hashes) (env : Env) (db : Registry)

def isAccelerator (id : ResourceId) : Bool := startsWith id "accelerator:"

/-- One `INSERT INTO host_reservations` for each resource. -/
def insertReservations (id : OwnerId) (resources : List ResourceId) : Except HostError Registry :=
  resources.foldlM (fun db r =>
    db.exec (.insertReservation ⟨r, id, .active, env.clock, env.clock⟩)) db

/-- The row that `_reserve_locked` inserts. -/
def reservedOwner (id : OwnerId) (kind : OwnerKind) (projectRoot : String) (request : Request)
    (pid : ℕ) (priorityClass : PriorityClass) (jobId attemptId serviceId : Option String) :
    Owner where
  id := id
  ownerKind := kind
  projectRoot := some projectRoot
  jobId := jobId
  attemptId := attemptId
  serviceId := serviceId
  pid := some pid
  processStart := env.processStart pid
  state := .active
  priorityClass := priorityClass
  preemptible := true
  cpuThreads := cpuThreads env request
  ramBytes := request.ramBytes
  acquiredAt := env.clock
  heartbeatAt := env.clock

/-- `_reserve_locked`, for an owner that is active once it is inserted. -/
def reserveLocked (request : Request) (new : Owner) :
    Except HostError (Registry × Option (OwnerId × List ResourceId)) := do
  match ← selectLocked env db request with
  | none =>
    let (db, _) ← requestPreemptionLocked env db request new.priorityClass
    return (db, none)
  | some resources =>
    let db ← db.exec (.insertOwner new)
    let db ← insertReservations env db new.id resources
    return (db, some (new.id, resources.filter isAccelerator))

/-- The first 16 digits of a digest. -/
def shortDigest (text : String) : String := String.ofList ((hashes.digest text).toList.take 16)

/-- `background_owner_id`. -/
def backgroundOwnerId (projectRoot jobId attemptId : String) : OwnerId :=
  "background:" ++ shortDigest hashes projectRoot ++ ":" ++ jobId ++ ":" ++ attemptId

def serviceOwnerId (projectRoot serviceId : String) : OwnerId :=
  "service:" ++ shortDigest hashes projectRoot ++ ":" ++ serviceId ++ ":" ++ env.ownerUuid

/-- The default of `stale_seconds`. -/
def staleSeconds : ℚ := 30

/-- `reserve_background`. -/
def reserveBackground (projectRoot jobId attemptId : String) (request : Request) (pid : ℕ) :
    Except HostError (Registry × Option (OwnerId × List ResourceId)) := do
  let db ← sweepLocked env db staleSeconds
  reserveLocked env db request (reservedOwner env (backgroundOwnerId hashes projectRoot jobId
    attemptId) .background projectRoot request pid .backgroundCuda (some jobId) (some attemptId)
    none)

/-- `reserve_service`. -/
def reserveService (projectRoot serviceId : String) (request : Request) (pid : ℕ)
    (priorityClass : PriorityClass) :
    Except HostError (Registry × Option (OwnerId × List ResourceId)) := do
  let db ← sweepLocked env db staleSeconds
  reserveLocked env db request (reservedOwner env (serviceOwnerId hashes env projectRoot serviceId)
    .service projectRoot request pid priorityClass none none (some serviceId))

/-- `set_priority`. -/
def setPriority (id : OwnerId) (priorityClass : PriorityClass) :
    Except HostError (Registry × Bool) :=
  match db.owner? id with
  | none => pure (db, false)
  | some o =>
    if o.state ≠ .active ∨ o.preemptRequested then pure (db, false)
    else do
      let db ← db.exec (.setPriority env.clock id priorityClass)
      return (db, true)

/-- `request_preemption`; the reply tells whether a row was changed. -/
def requestPreemption (id : OwnerId) : Except HostError (Registry × Bool) := do
  let changed := ((db.owner? id).map (fun o => o.state = .active && o.preemptible)).getD false
  let db ← db.exec (.preemptActive env.clock id)
  return (db, changed)

/-- `heartbeat`. -/
def heartbeat (id : OwnerId) (pid : Option ℕ) : Except HostError Registry := do
  let start := (pid.filter (· ≠ 0)).bind env.processStart
  let db ← db.exec (.beat env.clock id pid start)
  db.exec (.beatReservations env.clock id)

end Reserve

section Foreground

variable (env : Env) (db : Registry)

def foregroundOwnerId : OwnerId := "foreground:" ++ env.ownerUuid

/-- The row that `begin_foreground` inserts. -/
def foregroundOwner (projectRoot : String) (request : Request) (pid : ℕ)
    (priorityClass : PriorityClass) : Owner where
  id := foregroundOwnerId env
  ownerKind := .foreground
  projectRoot := some projectRoot
  pid := some pid
  processStart := env.processStart pid
  state := .intent
  priorityClass := priorityClass
  preemptible := false
  cpuThreads := request.cpuThreads
  ramBytes := request.ramBytes
  acquiredAt := env.clock
  heartbeatAt := env.clock

/-- The owners that the loop of `begin_foreground` signals. -/
def foregroundVictims (request : Request) (priorityClass : PriorityClass)
    (resources : List ResourceId) : List Owner :=
  let active := db.owners.rows.filter (fun o => o.state = .active)
  let pressure := cpuLimit env < (active.map (·.cpuThreads)).sum + request.cpuThreads ||
    ramLimit env < (active.map (·.ramBytes)).sum + request.ramBytes
  active.filter (fun o => o.preemptible && o.priorityClass.value < priorityClass.value &&
    (pressure || db.reservations.rows.any (fun r => r.ownerId = o.id && r.state = .active &&
      r.resourceId ∈ resources)))

/-- The resources that `begin_foreground` asks for: free ones, the ones of victims, or
the first bundle. -/
def foregroundResources (request : Request) (priorityClass : PriorityClass) :
    Except HostError (Registry × List ResourceId) := do
  match ← selectLocked env db request with
  | some resources => return (db, resources)
  | none =>
    let (db, resources) ← requestPreemptionLocked env db request priorityClass
    if resources ≠ [] then return (db, resources)
    let candidates ← candidateResourcesLocked db request
    return (db, candidates.headD [])

/-- `begin_foreground`. -/
def beginForeground (projectRoot : String) (request : Request) (pid : ℕ)
    (priorityClass : PriorityClass) : Except HostError (Registry × OwnerId × List ResourceId) := do
  let db ← sweepLocked env db staleSeconds
  let (db, resources) ← foregroundResources env db request priorityClass
  let db ← db.exec (.insertOwner (foregroundOwner env projectRoot request pid priorityClass))
  let db ← db.exec (.insertIntent ⟨env.intentUuid, foregroundOwnerId env, resources,
    request.cpuThreads, request.ramBytes, .active, env.clock, env.clock⟩)
  let db ← preemptAll env db (foregroundVictims env db request priorityClass resources)
  return (db, foregroundOwnerId env, resources)

/-- Whether a resource is actively reserved. -/
def Registry.taken (db : Registry) (r : ResourceId) : Bool :=
  db.reservations.rows.any (fun x => x.resourceId = r && x.state = .active)

/-- `activate_foreground`. -/
def activateForeground (id : OwnerId) (resources : List ResourceId) :
    Except HostError (Registry × Bool) := do
  let db ← sweepLocked env db staleSeconds
  if resources.any db.taken then return (db, false)
  let db ← insertReservations env db id resources
  let db ← db.exec (.activate env.clock id)
  return (db, true)

end Foreground

section Residency

variable (hashes : Hashes) (env : Env) (db : Registry)

/-- The active reservations of an owner. -/
def Registry.reserved (db : Registry) (id : OwnerId) : List ResourceId :=
  (db.reservations.rows.filter (fun r => r.ownerId = id && r.state = .active)).map (·.resourceId)

/-- The devices among them, by their own names. -/
def Registry.devices (db : Registry) (id : OwnerId) : List String :=
  ((db.reserved id).filter (likePrefix · "accelerator:")).map (removePrefix · "accelerator:")

def sameSet (a b : List String) : Bool := a.all (· ∈ b) && b.all (· ∈ a)

def Env.origin (env : Env) : Origin := ⟨env.pid, env.processStart env.pid, env.bootId⟩

structure Protection where
  residencyCapability : String
  generation : String
  origin : Origin
  resourceIds : List ResourceId

/-- The checks of `protect_residency` on the owner it names. -/
def protectable (o : Owner) (baseline : List (String × Option ℚ)) : Bool :=
  o.state = .active && o.ownerKind = .service &&
    startsWith (o.serviceId.getD "None") "core4-local-" && o.pid = some env.pid &&
    sameSet (baseline.map Prod.fst) (db.devices o.id) && !(db.devices o.id).isEmpty &&
    baseline.all (fun entry => (entry.2.map (fun value => decide (0 ≤ value))).getD false)

/-- The metadata that `protect_residency` writes. -/
def reservedMetadata (id : OwnerId) (baseline : List (String × Option ℚ)) :
    ResidencyMetadata where
  phase := .reserved
  modelPid := none
  processStart := none
  baseline := baseline
  origin := env.origin
  generation := env.generation
  resourceIds := (db.reserved id).insertionSort (· ≤ ·)
  residencyCapabilitySha256 := hashes.sha256 env.capability

/-- `protect_residency`. -/
def protectResidency (id : OwnerId) (baseline : List (String × Option ℚ)) :
    Except HostError (Registry × Protection) :=
  match db.owner? id with
  | none => throw (.value "residency_protection_identity_invalid")
  | some o =>
    if !protectable env db o baseline then
      throw (.value "residency_protection_identity_invalid")
    else if o.residencyProtected then throw (.value "residency_protection_immutable")
    else do
      let metadata := reservedMetadata hashes env db id baseline
      let db ← db.exec (.protect id metadata)
      return (db, ⟨env.capability, env.generation, env.origin, metadata.resourceIds⟩)

/-- `_verify_residency_capability`. -/
def verifyResidencyCapability (metadata : ResidencyMetadata) (capability generation : Option String) :
    Except HostError Unit :=
  match capability with
  | none => throw (.value "residency_cleanup_capability_invalid")
  | some text =>
    if text.length ≠ 64 ∨ generation ≠ some metadata.generation ∨
        hashes.sha256 text ≠ metadata.residencyCapabilitySha256 then
      throw (.value "residency_cleanup_capability_invalid")
    else pure ()

/-- `_residency_origin_caller`. -/
def residencyOriginCaller (metadata : ResidencyMetadata) : Bool := metadata.origin = env.origin

/-- `record_residency_process`. -/
def recordResidencyProcess (id : OwnerId) (pid : ℕ) (capability generation : String) :
    Except HostError Registry :=
  match db.owner? id, (env.processStart pid).filter (· ≠ "") with
  | some o, some start =>
    if o.state ≠ .active ∨ !o.residencyProtected then
      throw (.value "residency_process_identity_invalid")
    else match o.residencyMetadata with
    | none => throw (.key "generation")
    | some metadata => do
      verifyResidencyCapability hashes metadata (some capability) (some generation)
      if !residencyOriginCaller env metadata then
        throw (.value "residency_process_owner_mismatch")
      if metadata.phase = .spawned ∧
          (metadata.modelPid ≠ some pid ∨ metadata.processStart ≠ some start) then
        throw (.value "residency_process_identity_immutable")
      if metadata.phase = .reserved ∧ o.pid ≠ some env.pid then
        throw (.value "residency_process_owner_mismatch")
      db.exec (.recordProcess env.clock id pid start { metadata with
        phase := .spawned, modelPid := some pid, processStart := some start })
  | _, _ => throw (.value "residency_process_identity_invalid")

/-- What an observer of the devices reports. -/
structure Observation where
  available : Bool
  /-- The devices with the memory in use, `none` if it is not a finite number. -/
  devices : List (String × Option ℚ)
  processes : List ℕ

/-- The `residency_quiescence` of a release. -/
structure Quiescence where
  format : String
  ownerId : OwnerId
  observedUnix : Option ℚ
  ownedPid : Option ℕ
  observation : Option Observation

/-- `_verify_residency_release`. -/
def verifyResidencyRelease (o : Owner) (metadata : ResidencyMetadata) (proof : Option Quiescence) :
    Except HostError Unit := do
  let some proof := proof | throw (.value "residency_release_requires_quiescence")
  if proof.format ≠ "CORE4-RESIDENCY-QUIESCENCE/1" ∨ proof.ownerId ≠ o.id then
    throw (.value "residency_release_requires_quiescence")
  let some observed := proof.observedUnix | throw (.value "residency_release_observation_stale")
  if ¬ (0 ≤ env.clock - observed ∧ env.clock - observed ≤ 5) then
    throw (.value "residency_release_observation_stale")
  if metadata.modelPid ≠ none ∧
      (o.pid ≠ metadata.modelPid ∨ o.processStart ≠ metadata.processStart) then
    throw (.value "residency_release_process_identity_changed")
  if proof.ownedPid ≠ metadata.modelPid ∨
      (metadata.modelPid ≠ none ∧ env.alive metadata.modelPid metadata.processStart) then
    throw (.value "residency_release_model_still_alive")
  let some observation := proof.observation
    | throw (.value "residency_release_observation_unavailable")
  if !observation.available then throw (.value "residency_release_observation_unavailable")
  if (db.reserved o.id).insertionSort (· ≤ ·) ≠ metadata.resourceIds then
    throw (.value "residency_release_resources_changed")
  if !sameSet (metadata.baseline.map Prod.fst) (db.devices o.id) ∨
      observation.devices.length ≠ (db.devices o.id).dedup.length then
    throw (.value "residency_release_resources_changed")
  if !sameSet (observation.devices.map Prod.fst) (db.devices o.id) ∨
      observation.devices.any (fun device => match device.2 with
        | none => true
        | some used => decide (used < 0) ||
            decide (((metadata.baseline.lookup device.1).join.getD 0) + 16 < used)) then
    throw (.value "residency_release_memory_not_quiescent")
  if observation.processes.any (fun p => some p = metadata.modelPid) ∨
      (metadata.phase = .reserved ∧ observation.processes ≠ []) then
    throw (.value "residency_release_process_not_quiescent")

/-- The checks of `release` on a protected owner. -/
def verifyRelease (o : Owner) (proof : Option Quiescence) (capability generation : Option String) :
    Except HostError Unit :=
  match o.residencyMetadata with
  | none => throw (.key "residency_capability_sha256")
  | some metadata => do
    verifyResidencyCapability hashes metadata capability generation
    if metadata.phase = .reserved ∧ !residencyOriginCaller env metadata then
      throw (.value "residency_release_reserved_recovery_blocked")
    if !residencyOriginCaller env metadata ∧
        env.alive (some metadata.origin.pid) metadata.origin.processStart then
      throw (.value "residency_release_owner_alive")
    verifyResidencyRelease env db o metadata proof

/-- `release`. -/
def release (id : OwnerId) (proof : Option Quiescence) (capability generation : Option String) :
    Except HostError Registry :=
  match (db.owner? id).filter (·.residencyProtected) with
  | none => releaseLocked env db id .released
  | some o => do
    verifyRelease hashes env db o proof capability generation
    let db ← db.exec (.unprotect id)
    releaseLocked env db id .released

end Residency

/-- The operations that change the registry. -/
inductive Call where
  | upsertResources (items : List Resource)
  | replaceResources (kind : String) (items : List Resource)
  | sweepStale (staleSeconds : ℚ)
  | reconcileCurrentServiceOwners (projectRoot : String) (pid : ℕ) (live : List OwnerId)
  | reserveBackground (projectRoot jobId attemptId : String) (request : Request) (pid : ℕ)
  | reserveService (projectRoot serviceId : String) (request : Request) (pid : ℕ)
      (priorityClass : PriorityClass)
  | setPriority (id : OwnerId) (priorityClass : PriorityClass)
  | requestPreemption (id : OwnerId)
  | beginForeground (projectRoot : String) (request : Request) (pid : ℕ)
      (priorityClass : PriorityClass)
  | activateForeground (id : OwnerId) (resources : List ResourceId)
  | heartbeat (id : OwnerId) (pid : Option ℕ)
  | protectResidency (id : OwnerId) (baseline : List (String × Option ℚ))
  | recordResidencyProcess (id : OwnerId) (pid : ℕ) (capability generation : String)
  | release (id : OwnerId) (proof : Option Quiescence) (capability generation : Option String)

/-- What a call commits, if it does. -/
def transact (hashes : Hashes) (env : Env) (db : Registry) : Call → Except HostError Registry
  | .upsertResources items => upsertResources env db items
  | .replaceResources kind items => replaceResources env db kind items
  | .sweepStale staleSeconds => Prod.fst <$> sweepStale env db staleSeconds
  | .reconcileCurrentServiceOwners projectRoot pid live =>
    Prod.fst <$> reconcileCurrentServiceOwners env db projectRoot pid live
  | .reserveBackground projectRoot jobId attemptId request pid =>
    Prod.fst <$> reserveBackground hashes env db projectRoot jobId attemptId request pid
  | .reserveService projectRoot serviceId request pid priorityClass =>
    Prod.fst <$> reserveService hashes env db projectRoot serviceId request pid priorityClass
  | .setPriority id priorityClass => Prod.fst <$> setPriority env db id priorityClass
  | .requestPreemption id => Prod.fst <$> requestPreemption env db id
  | .beginForeground projectRoot request pid priorityClass =>
    Prod.fst <$> beginForeground env db projectRoot request pid priorityClass
  | .activateForeground id resources => Prod.fst <$> activateForeground env db id resources
  | .heartbeat id pid => heartbeat env db id pid
  | .protectResidency id baseline => Prod.fst <$> protectResidency hashes env db id baseline
  | .recordResidencyProcess id pid capability generation =>
    recordResidencyProcess hashes env db id pid capability generation
  | .release id proof capability generation =>
    release hashes env db id proof capability generation

/-- A call and what it reads of the host. -/
structure Action where
  env : Env
  call : Call

/-- One transaction of one client: an error leaves the registry as it was. -/
def step (hashes : Hashes) (db : Registry) (a : Action) : Registry :=
  (transact hashes a.env db a.call).toOption.getD db

end ProjectControl.HostResources
