import Mathlib
import ProjectControl.SchedulerValues
import ProjectControl.Transaction

/-! The requirements of an external GPU lease: the old resource request is checked, and GPUs of
the inventory are chosen that can be reclaimed. -/

set_option autoImplicit false

namespace ProjectControl.Scheduler

open Values

section Request

/-- What `normalize_resource_request` returns. -/
structure ResourceRequest where
  kind : String
  ids : List String
  tags : List (String × String)
  exclusiveResources : List String
  isolatePcieRoot : Bool
  isolateNvlinkDomain : Bool
  cpuHeavy : Bool
  count : ℕ
  cpuThreads : ℕ
  ramBytes : ℕ

def requestFields : List String :=
  ["schema_version", "kind", "ids", "count", "tags", "exclusive_resources", "isolate_pcie_root",
    "isolate_nvlink_domain", "cpu_threads", "cpu_heavy", "ram_bytes"]

def texts? : List Value → Option (List String)
  | [] => some []
  | .str s :: rest => (texts? rest).map (s :: ·)
  | _ :: _ => none

def textFields? : Fields → Option (List (String × String))
  | [] => some []
  | (key, .str s) :: rest => (textFields? rest).map ((key, s) :: ·)
  | _ :: _ => none

/-- `_strings` of non-empty texts. -/
def strings (v : Value) (name : String) : Except String (List String) :=
  match v with
  | .arr items =>
    match texts? items with
    | some values =>
      if "" ∈ values then throw (name ++ " must be a list of strings")
      else if values.Nodup then pure values
      else throw (name ++ " must not contain duplicates")
    | none => throw (name ++ " must be a list of strings")
  | _ => throw (name ++ " must be a list of strings")

/-- A count of the request, zero where it is left out. -/
def natural (result : Fields) (field : String) : Except String ℕ :=
  match (result.lookup field).getD (.int 0) with
  | .int (.ofNat n) => pure n
  | _ => throw ("resource_request." ++ field ++ " must be a non-negative integer")

/-- `_object`, `_extra` and `_version`. -/
def requestObject (value : Value) : Except String Fields :=
  match if value.truthy then value else .obj [("schema_version", .int 1)] with
  | .obj fields =>
    let unknown := (fields.map Prod.fst).filter (· ∉ requestFields)
    if unknown ≠ [] then
      throw ("resource_request has unknown fields: " ++
        ", ".intercalate (unknown.dedup.insertionSort (· ≤ ·)))
    else if (Fields.get fields "schema_version").same (.int 1) = false then
      throw "resource_request.schema_version must be 1"
    else pure fields
  | _ => throw "resource_request must be an object"

def requestKind (fields : Fields) : Except String String :=
  match (fields.lookup "kind").getD (.str "accelerator") with
  | .str kind =>
    if kind = "" then throw "resource_request.kind must be a non-empty string" else pure kind
  | _ => throw "resource_request.kind must be a non-empty string"

def requestTags (fields : Fields) : Except String (List (String × String)) :=
  match (fields.lookup "tags").getD (.obj []) with
  | .obj tags =>
    match textFields? tags with
    | some tags => pure tags
    | none => throw "resource_request.tags must map strings to strings"
  | _ => throw "resource_request.tags must map strings to strings"

def normalizeResourceRequest (value : Value) : Except String ResourceRequest := do
  let fields ← requestObject value
  if (fields.lookup "ids").isSome ∧ (fields.lookup "count").isSome then
    throw "resource_request may declare ids or count, not both"
  let kind ← requestKind fields
  let ids ← strings ((fields.lookup "ids").getD (.arr [])) "resource_request.ids"
  let exclusiveResources ← strings ((fields.lookup "exclusive_resources").getD (.arr []))
    "resource_request.exclusive_resources"
  let tags ← requestTags fields
  let count ← natural fields "count"
  let cpuThreads ← natural fields "cpu_threads"
  let ramBytes ← natural fields "ram_bytes"
  pure {
    kind, ids, tags, exclusiveResources, count, cpuThreads, ramBytes
    isolatePcieRoot := (fields.get "isolate_pcie_root").truthy
    isolateNvlinkDomain := (fields.get "isolate_nvlink_domain").truthy
    cpuHeavy := (fields.get "cpu_heavy").truthy }

end Request

section Inventory

variable (py : Python)

/-- `_GPU_ALIASES`. -/
def gpuAliases : List String := ["accelerator", "gpu", "nvidia_gpu", "cuda_gpu"]

/-- The text of the value under a key, `""` where there is none. -/
def textOf (resource : Fields) (key : String) : String := ((resource.lookup key).map py.str).getD ""

/-- `_kind`. -/
def kindOf (resource : Fields) : String := textOf py resource "kind"

def isGpu (resource : Fields) : Bool := py.casefold (kindOf py resource) ∈ gpuAliases

/-- `_legacy_id`. -/
def legacyId (resource : Fields) : String :=
  match (resource.mapping "attributes").lookup "uuid" with
  | some (.str uuid) =>
    if isGpu py resource then "accelerator:" ++ uuid else textOf py resource "resource_id"
  | _ => textOf py resource "resource_id"

/-- `_domain_members`. -/
def domainMembers (resource : Fields) : List String :=
  if py.casefold (kindOf py resource) ≠ "isolation" then []
  else
    match (resource.mapping "attributes").lookup "member_resource_ids" with
    | some (.arr members) => members.map py.str
    | _ => []

/-- The value under a key that is not null. -/
def present (fields : Fields) (key : String) : Option Value :=
  (fields.lookup key).filter (fun v => !v.isNull)

/-- `_tags`. -/
def tagsOf (resource : Fields) (all : List Fields) : List (String × String) :=
  let attrs := resource.mapping "attributes"
  let caps := resource.mapping "capacities"
  let named (key target : String) := ((present attrs key).map (fun v => (target, py.str v))).toList
  let sized (fields : Fields) (key target : String) :=
    (((present fields key).bind py.mebibytes).map (fun text => (target, text))).toList
  let domains := all.filter (fun item => textOf py resource "resource_id" ∈ domainMembers py item)
  named "uuid" "uuid" ++ named "pci_bus_id" "pci_bus_id" ++ named "name" "name" ++
    named "index_observation" "index" ++
    sized attrs "memory_free_bytes_observation" "memory_free_mib" ++
    named "utilization_percent_observation" "utilization_percent" ++
    sized caps "memory_bytes" "memory_total_mib" ++
    match domains with
    | [domain] =>
      let value := ((domain.mapping "attributes").lookup "domain_id").getD
        ((domain.lookup "resource_id").getD (.str ""))
      [("nvlink_domain", py.str value)]
    | _ => []

/-- A resource as it is listed, with what a nested resource says of it. -/
def resourceOf : Value → Except Error Fields
  | .obj item =>
    match item.lookup "resource" with
    | some (.obj nested) => pure (item.filter (fun field => field.1 ≠ "resource") ++ nested)
    | _ => pure item
  | _ => throw (.scheduler "Device Scheduler returned an invalid resource")

/-- `_resources` on the answer of `resources.list`. -/
def resourcesOf (answer : Answer) : Except Error (List Fields) := do
  let result ← call py "resources.list" answer
  match result.lookup "resources" with
  | some (.arr values) => values.mapM resourceOf
  | _ => throw (.scheduler "resources.list omitted resources")

/-- Listing the resources raises a conflict or a plain error. -/
theorem resourcesOf_error {answer : Answer} :
    Raises (resourcesOf py answer) (fun e => (∃ code, e = .noGrant code) ∨
      ∃ code, e = .scheduler code) := by
  refine Raises.bind (fun e he => call_error he) (fun result _ => ?_)
  split
  · refine Raises.mapM (fun v _ => ?_)
    unfold resourceOf
    split
    · split <;> exact Raises.pure
    · exact Raises.throw (.inr ⟨_, rfl⟩)
  · exact Raises.throw (.inr ⟨_, rfl⟩)

end Inventory

section Requirements

variable (py : Python)

/-- One of the `requirements` of a lease request. -/
structure Requirement where
  resourceId : String
  memoryBytes : ℚ

def Requirement.value (r : Requirement) : Value :=
  .obj [("kind", .str "gpu"),
    ("quantities", .obj [("memory_bytes", .float (.finite r.memoryBytes))]),
    ("selectors", .obj [("resource_id", .str r.resourceId)]),
    ("mode", .str "exclusive"), ("same_host", .bool true)]

def validCapacity : Value → Bool
  | .int n => (roundInt n).any (0 < ·)
  | .float (.finite q) => 0 < q
  | _ => false

/-- A GPU of the inventory that has the wanted tags and can be reclaimed. -/
def isCandidate (tags : List (String × String)) (resources : List Fields) (item : Fields) : Bool :=
  let capability := item.mapping "external_lease"
  isGpu py item && !(item.get "available").isBool false &&
    validCapacity ((item.mapping "capacities").get "memory_bytes") &&
    (capability.get "supported").isBool true &&
    (capability.get "mode").isStr "exclusive_gpu_quiescence" &&
    (capability.get "required_allocation_mode").isStr "exclusive" &&
    (capability.get "release_method").isStr "repeatable_read_only_observation" &&
    tags.all (fun tag => (tagsOf py item resources).lookup tag.1 = some tag.2)

/-- The resources that were asked for by their ids. -/
def chooseIds (resources candidates : List Fields) (ids : List String) :
    Except Error (List Fields) :=
  ids.mapM fun id =>
    match (resources.reverse.find? (fun item => legacyId py item = id)) with
    | some item =>
      if candidates.any (fun other => Value.same (.obj item) (.obj other)) then pure item
      else throw (.unsupported
        ("requested GPU lacks a verified exclusive reclamation capability: " ++ id))
    | none => throw (.unsupported
        ("requested GPU lacks a verified exclusive reclamation capability: " ++ id))

def adapterId? (item : Fields) : Option String :=
  match item.lookup "source_adapter_id" with
  | some (.str adapter) => if adapter = "" then none else some adapter
  | _ => none

/-- The first so many candidates of the first adapter that has enough of them. -/
def chooseCount (candidates : List Fields) (count : ℕ) : Except Error (List Fields) :=
  let adapters := (candidates.filterMap adapterId?).dedup.insertionSort (· ≤ ·)
  let groups := adapters.map (fun adapter =>
    candidates.filter (fun item => adapterId? item = some adapter))
  match groups.filter (fun group => count ≤ group.length) with
  | [] => throw (.noGrant "insufficient_verified_gpu_resources")
  | group :: _ => pure (group.take count)

def unhashable : Value → Bool
  | .arr _ => true
  | .obj _ => true
  | _ => false

/-- All chosen resources belong to one adapter with a text for its id. -/
def checkAdapters (chosen : List Fields) : Except Error Unit :=
  let adapters := chosen.map (fun item => item.get "source_adapter_id")
  if adapters.any unhashable then throw .unhashable
  else
    match adapters with
    | .str adapter :: rest =>
      if rest.all (fun v => v.isStr adapter) then pure ()
      else throw (.unsupported "external GPU lease must use one trusted reclamation adapter")
    | _ => throw (.unsupported "external GPU lease must use one trusted reclamation adapter")

/-- `float(budget)` of a number that `math.isfinite` takes for one. -/
def finiteBudget : Value → Except Error ℚ
  | .int n =>
    match roundInt n with
    | some q => pure q
    | none => throw .overflow
  | .float (.finite q) => pure q
  | _ => throw (.unsupported "GPU admission budget is invalid")

/-- The requirement that a chosen resource becomes. -/
def requirementOf (item : Fields) : Except Error Requirement := do
  let capacity := (item.mapping "capacities").get "memory_bytes"
  let budget := ((item.mapping "external_lease").lookup "admission_memory_bytes").getD capacity
  let rounded ← finiteBudget budget
  match budget.amount?, capacity.amount? with
  | some amount, some limit =>
    if amount ≤ 0 ∨ limit < amount then
      throw (.unsupported "GPU admission budget is invalid")
    match item.lookup "resource_id" with
    | some id => pure ⟨py.str id, rounded⟩
    | none => throw (.key "resource_id")
  | _, _ => throw (.unsupported "GPU admission budget is invalid")

/-- The request, if GPU leases cover what it asks for. -/
def coveredRequest (raw : Value) : Except Error ResourceRequest :=
  match normalizeResourceRequest raw with
  | .error _ => throw (.scheduler "legacy resource request is invalid")
  | .ok request =>
    if py.casefold request.kind ∉ gpuAliases then
      throw (.unsupported "external DS leases currently support only GPU-only allocations")
    else if request.cpuHeavy ∨ request.cpuThreads ≠ 0 ∨ request.ramBytes ≠ 0 ∨
        request.exclusiveResources ≠ [] ∨ request.isolatePcieRoot ∨
        request.isolateNvlinkDomain then
      throw (.unsupported ("legacy CPU, memory, topology, and conflict-domain guarantees are " ++
        "not covered by GPU quiescence leases"))
    else if request.ids ≠ [] ↔ request.count ≠ 0 then
      throw (.scheduler "external GPU lease requires exactly one of ids or positive count")
    else pure request

def choose (request : ResourceRequest) (resources : List Fields) : Except Error (List Fields) :=
  let candidates := (resources.filter (isCandidate py request.tags resources)).insertionSort
    (fun a b => legacyId py a ≤ legacyId py b)
  if request.ids ≠ [] then chooseIds py resources candidates request.ids
  else chooseCount candidates request.count

/-- `_requirements` with the answer of `resources.list`. -/
def requirementsOf (raw : Value) (resources : Answer) : Except Error (List Requirement) := do
  let request ← coveredRequest py raw
  let resources ← resourcesOf py resources
  let chosen ← choose py request resources
  checkAdapters chosen
  chosen.mapM (requirementOf py)

theorem checkAdapters_ne_nil {chosen : List Fields} :
    Ensures (checkAdapters chosen) (fun _ => chosen ≠ []) := by
  rintro u h rfl
  cases h

/-- A lease is never asked for without a requirement. -/
theorem requirementsOf_ne_nil (raw : Value) (answer : Answer) :
    Ensures (requirementsOf py raw answer) (fun rs => rs ≠ []) := by
  refine Ensures.bind (P := fun _ => True) (fun _ _ => trivial) (fun request _ => ?_)
  refine Ensures.bind (P := fun _ => True) (fun _ _ => trivial) (fun resources _ => ?_)
  refine Ensures.bind (P := fun _ => True) (fun _ _ => trivial) (fun chosen _ => ?_)
  refine Ensures.bind checkAdapters_ne_nil (fun _ hchosen => ?_)
  refine (Ensures.mapM (R := fun _ _ => True) (fun _ _ _ _ => trivial)).mono (fun rs hrs => ?_)
  rintro rfl
  cases hrs
  exact hchosen rfl

end Requirements

end ProjectControl.Scheduler
