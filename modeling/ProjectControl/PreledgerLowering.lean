import Mathlib.Data.List.Count
import ProjectControl.Preledger

/-! Lowering a pre-ledger to a plan: the prerequisites that are named, and the dependencies of the
plan and records of external ones that they become. -/

set_option autoImplicit false

namespace ProjectControl.Preledger

section Sources

/-- The pairs in the order in which they were first seen, each with where it was found. -/
abbrev Sources := List (Pair × List String)

/-- `setdefault(pair, set()).add(source)`. -/
def addSource (pairs : Sources) (pair : Pair) (source : String) : Sources :=
  match pairs with
  | [] => [(pair, [source])]
  | (p, sources) :: rest =>
    if p = pair then (p, if source ∈ sources then sources else sources ++ [source]) :: rest
    else (p, sources) :: addSource rest pair source

def prerequisiteFields : List String :=
  ["builds_on", "prerequisite_tasks_or_checkpoints", "prerequisites"]

/-- The prerequisites that a task names in one of its fields. -/
def fieldDependencies (record : Dict) (field : String) : List String :=
  ((Dict.get record field).map dependencyIds).getD []

def addField (id : String) (record : Dict) (pairs : Sources) (field : String) : Sources :=
  (fieldDependencies record field).foldl (fun pairs p => addSource pairs (id, p) field) pairs

def addOwn (pairs : Sources) (task : Task) : Sources :=
  prerequisiteFields.foldl (addField task.id task.record) pairs

/-- What the indexes add to: the pairs, and the warnings about those that were not known. -/
structure Collected where
  pairs : Sources
  warnings : List String

def Collected.keys (c : Collected) : List Pair := c.pairs.map Prod.fst

def supplement (index source : String) (c : Collected) (pair : Pair) : Collected where
  pairs := addSource c.pairs pair source
  warnings := if pair ∈ c.keys then c.warnings
    else c.warnings ++ [index ++ " index supplemented task-local dependencies: " ++ pair.1 ++
      " -> " ++ pair.2]

/-- Both lists have the same pairs. -/
def sameKeys (a b : List Pair) : Bool := a.all (· ∈ b) && b.all (· ∈ a)

/-- Pairs are sorted by their first text, then by their second. -/
def pairLe (a b : Pair) : Prop := a.1 < b.1 ∨ a.1 = b.1 ∧ a.2 ≤ b.2

instance (a b : Pair) : Decidable (pairLe a b) := inferInstanceAs (Decidable (_ ∨ _))

/-- The error about an index that does not agree with what the tasks name. -/
def disagreement (index others : String) (own indexed : List Pair) : PreledgerError :=
  .disagrees index others ((own.filter (· ∉ indexed)).insertionSort pairLe)
    ((indexed.filter (· ∉ own)).dedup.insertionSort pairLe)

def addIndex (ts : Tasks) (c : Collected) : Option (String × Csv) → Except PreledgerError Collected
  | none => .ok c
  | some (file, rows) => do
    let (indexed, complete) ← csvDependencies file rows
    let own := c.keys.filter (fun pair => pair.1 ∈ ts.ids ∧ pair.2 ∈ ts.ids)
    if complete ∧ !sameKeys indexed own then
      throw (disagreement "dependency" "prerequisites" own indexed)
    return indexed.foldl (supplement "dependency" "dependency_edges.csv") c

def isReceipt (s : String) : Bool := "receipt:".toList <+: s.toList

def addExternal (c : Collected) : Option (String × Csv) → Except PreledgerError Collected
  | none => .ok c
  | some (file, rows) => do
    let indexed ← csvExternalDependencies file rows
    let own := c.keys.filter (fun pair => isReceipt pair.2)
    if !sameKeys indexed own then
      throw (disagreement "external dependency" "receipts" own indexed)
    return indexed.foldl (supplement "external dependency" "external_dependency_receipts.csv") c

/-- What a step adds to the pairs: they stay distinct, and those of `S` are there. -/
structure Adds (f : Sources → Sources) (S : Pair → Prop) : Prop where
  nodup : ∀ pairs, (pairs.map Prod.fst).Nodup → ((f pairs).map Prod.fst).Nodup
  mem : ∀ pairs pair, pair ∈ (f pairs).map Prod.fst ↔ pair ∈ pairs.map Prod.fst ∨ S pair

theorem keys_addSource (pairs : Sources) (pair : Pair) (source : String) :
    (addSource pairs pair source).map Prod.fst =
      if pair ∈ pairs.map Prod.fst then pairs.map Prod.fst else pairs.map Prod.fst ++ [pair] := by
  induction pairs with
  | nil => rfl
  | cons e rest ih =>
    obtain ⟨p, sources⟩ := e
    by_cases hp : p = pair
    · rw [addSource, if_pos hp, List.map_cons, List.map_cons,
        if_pos (List.mem_cons.mpr (Or.inl hp.symm))]
    · rw [addSource, if_neg hp, List.map_cons, List.map_cons, ih]
      have hmem : pair ∈ p :: rest.map Prod.fst ↔ pair ∈ rest.map Prod.fst := by
        rw [List.mem_cons, or_iff_right (fun h => hp h.symm)]
      by_cases hin : pair ∈ rest.map Prod.fst
      · rw [if_pos hin, if_pos (hmem.mpr hin)]
      · rw [if_neg hin, if_neg (fun h => hin (hmem.mp h)), List.cons_append]

theorem adds_addSource (pair : Pair) (source : String) :
    Adds (addSource · pair source) (· = pair) where
  nodup pairs hpairs := by
    rw [keys_addSource]
    by_cases hin : pair ∈ pairs.map Prod.fst
    · rwa [if_pos hin]
    · rw [if_neg hin, List.nodup_append]
      refine ⟨hpairs, List.nodup_singleton pair, fun a ha b hb => ?_⟩
      rw [List.mem_singleton.mp hb]
      exact fun h => hin (h ▸ ha)
  mem pairs p := by
    rw [keys_addSource]
    by_cases hin : pair ∈ pairs.map Prod.fst
    · rw [if_pos hin]
      constructor
      · exact Or.inl
      · rintro (h | rfl)
        · exact h
        · exact hin
    · rw [if_neg hin, List.mem_append, List.mem_singleton]

/-- A loop adds what its rounds add. -/
theorem adds_foldl {α : Type} {f : Sources → α → Sources} {S : α → Pair → Prop} {items : List α}
    (hf : ∀ a, Adds (f · a) (S a)) :
    Adds (fun pairs => items.foldl f pairs) (fun pair => ∃ a ∈ items, S a pair) := by
  induction items with
  | nil => exact ⟨fun _ h => h, fun _ _ => by simp⟩
  | cons a items ih =>
    refine ⟨fun pairs hpairs => ih.nodup _ ((hf a).nodup pairs hpairs), fun pairs pair => ?_⟩
    rw [List.foldl_cons, ih.mem, (hf a).mem, List.exists_mem_cons_iff, or_assoc]

/-- The pairs that a task names itself. -/
def Names (task : Task) (pair : Pair) : Prop :=
  ∃ field ∈ prerequisiteFields, ∃ p ∈ fieldDependencies task.record field, pair = (task.id, p)

theorem adds_addOwn (task : Task) : Adds (addOwn · task) (Names task) :=
  adds_foldl (fun field => adds_foldl (fun p => adds_addSource (task.id, p) field))

theorem pairs_supplement (index source : String) (indexed : List Pair) (c : Collected) :
    (indexed.foldl (supplement index source) c).pairs =
      indexed.foldl (addSource · · source) c.pairs := by
  induction indexed generalizing c with
  | nil => rfl
  | cons pair indexed ih => rw [List.foldl_cons, List.foldl_cons, ih, supplement]

/-- `dependency_pairs` of a package. -/
def collect (ts : Tasks) (dependencyIndex externalDependencies : Option (String × Csv)) :
    Except PreledgerError Collected := do
  let own : Collected := ⟨ts.items.foldl addOwn [], []⟩
  let indexed ← addIndex ts own dependencyIndex
  addExternal indexed externalDependencies

/-- The rows of the dependency index. -/
def indexRows : Option (String × Csv) → List Pair
  | none => []
  | some (file, rows) =>
    match csvDependencies file rows with
    | .ok found => found.1
    | .error _ => []

/-- The rows of the index of external dependencies. -/
def externalRows : Option (String × Csv) → List Pair
  | none => []
  | some (file, rows) =>
    match csvExternalDependencies file rows with
    | .ok found => found
    | .error _ => []

/-- A collection that has the pairs of `S`, each once. -/
structure Has (S : Pair → Prop) (c : Collected) : Prop where
  nodup : c.keys.Nodup
  mem : ∀ pair, pair ∈ c.keys ↔ S pair

variable {ts : Tasks} {c : Collected} {S : Pair → Prop}

theorem has_supplement (hc : Has S c) (index source : String) (indexed : List Pair) :
    Has (fun pair => S pair ∨ pair ∈ indexed) (indexed.foldl (supplement index source) c) := by
  have hadds : Adds (fun pairs => indexed.foldl (addSource · · source) pairs)
      (fun pair => ∃ a ∈ indexed, pair = a) := adds_foldl (fun a => adds_addSource a source)
  refine ⟨?_, fun pair => ?_⟩
  · rw [Collected.keys, pairs_supplement]
    exact hadds.nodup _ hc.nodup
  · rw [Collected.keys, pairs_supplement, hadds.mem, ← Collected.keys, hc.mem, exists_eq_right']

theorem addIndex_has (hc : Has S c) (index : Option (String × Csv)) :
    Ensures (addIndex ts c index) (Has (fun pair => S pair ∨ pair ∈ indexRows index)) := by
  cases index with
  | none =>
    refine .ok ⟨hc.nodup, fun pair => ?_⟩
    rw [hc.mem, indexRows]
    simp
  | some file =>
    refine .bind .of_eq (fun found hfound => ?_)
    have hrows : indexRows (some file) = found.1 := by rw [indexRows, hfound]
    rw [hrows]
    refine .ite (fun _ => .bind (P := fun _ => False) .throw (fun _ h => h.elim)) (fun _ => ?_)
    exact .pure (has_supplement hc _ _ found.1)

theorem addExternal_has (hc : Has S c) (index : Option (String × Csv)) :
    Ensures (addExternal c index) (Has (fun pair => S pair ∨ pair ∈ externalRows index)) := by
  cases index with
  | none =>
    refine .ok ⟨hc.nodup, fun pair => ?_⟩
    rw [hc.mem, externalRows]
    simp
  | some file =>
    refine .bind .of_eq (fun found hfound => ?_)
    have hrows : externalRows (some file) = found := by rw [externalRows, hfound]
    rw [hrows]
    refine .ite (fun _ => .bind (P := fun _ => False) .throw (fun _ h => h.elim)) (fun _ => ?_)
    exact .pure (has_supplement hc _ _ found)

/-- The pairs are those that the tasks name and those of the rows, each once. -/
theorem collect_has (index external : Option (String × Csv)) :
    Ensures (collect ts index external) (Has (fun pair =>
      ((∃ task ∈ ts.items, Names task pair) ∨ pair ∈ indexRows index) ∨
        pair ∈ externalRows external)) := by
  have hadds : Adds (fun pairs => ts.items.foldl addOwn pairs)
      (fun pair => ∃ task ∈ ts.items, Names task pair) := adds_foldl adds_addOwn
  have hown : Has (fun pair => ∃ task ∈ ts.items, Names task pair)
      ⟨ts.items.foldl addOwn [], []⟩ := by
    refine ⟨hadds.nodup [] List.nodup_nil, fun pair => ?_⟩
    rw [Collected.keys, hadds.mem, List.map_nil, or_iff_right List.not_mem_nil]
  exact .bind (addIndex_has hown index) (fun c hc => addExternal_has hc external)

end Sources

section Lowering

inductive Dependency where
  | task (taskId : String)
  | checkpoint (checkpointId : String)
  deriving DecidableEq

def Dependency.target : Dependency → String
  | .task id => id
  | .checkpoint id => id

def Dependency.toJson : Dependency → Json
  | .task id => .obj [("task_id", .str id), ("type", .str "task")]
  | .checkpoint id => .obj [("checkpoint_id", .str id), ("type", .str "checkpoint")]

structure ExternalDependency where
  taskId : String
  dependencyId : String
  dependencyRepository : Option String
  source : List String
  deriving DecidableEq

/-- What a pair becomes: an entry of `native_dependencies` under its task, or an external one. -/
inductive Lowered where
  | native (taskId : String) (d : Dependency)
  | external (e : ExternalDependency)

def removeReceipt (s : String) : String := if isReceipt s then (s.drop 8).toString else s

/-- The dependency of the plan that a prerequisite of a selected task becomes, if it is one. -/
def native? (ts : Tasks) (target prerequisite : String) : Option Dependency :=
  let selected := (ts.selected target).map Task.id
  if prerequisite ∈ selected then some (.task prerequisite)
  else
    match ts.checkpointOwner.lookup prerequisite with
    | some owner => if owner ∈ selected then some (.checkpoint prerequisite) else none
    | none => none

def lowerPair (ts : Tasks) (target : String) (e : Pair × List String) : Lowered :=
  match native? ts target e.1.2 with
  | some d => .native e.1.1 d
  | none => .external
    { taskId := e.1.1
      dependencyId := e.1.2
      dependencyRepository :=
        ts.repositoryOf ((ts.checkpointOwner.lookup e.1.2).getD (removeReceipt e.1.2))
      source := e.2.insertionSort (· ≤ ·) }

/-- The loop over the sorted pairs; pairs of other repositories are passed over. -/
def lowerAll (ts : Tasks) (target : String) (pairs : Sources) :
    Except PreledgerError (List Lowered) := do
  let sorted := pairs.insertionSort (fun a b => pairLe a.1 b.1)
  sorted.forM (fun e =>
    if e.1.1 ∈ ts.ids then .ok () else .error (.unknownConsumer e.1.1))
  return (sorted.filter (fun e => e.1.1 ∈ (ts.selected target).map Task.id)).map
    (lowerPair ts target)

def Lowered.dependency? (id : String) : Lowered → Option Dependency
  | .native taskId d => if taskId = id then some d else none
  | .external _ => none

def Lowered.external? : Lowered → Option ExternalDependency
  | .native _ _ => none
  | .external e => some e

def Lowered.pair : Lowered → Pair
  | .native taskId d => (taskId, d.target)
  | .external e => (e.taskId, e.dependencyId)

variable {ts : Tasks} {target : String} {pairs : Sources} {lowered : List Lowered}

theorem target_native? {prerequisite : String} {d : Dependency}
    (h : native? ts target prerequisite = some d) : d.target = prerequisite := by
  simp only [native?] at h
  by_cases hselected : prerequisite ∈ (ts.selected target).map Task.id
  · rw [if_pos hselected] at h
    cases h
    rfl
  · rw [if_neg hselected] at h
    cases howner : ts.checkpointOwner.lookup prerequisite with
    | none =>
      rw [howner] at h
      cases h
    | some owner =>
      simp only [howner] at h
      by_cases hown : owner ∈ (ts.selected target).map Task.id
      · rw [if_pos hown] at h
        cases h
        rfl
      · rw [if_neg hown] at h
        cases h

theorem pair_lowerPair (e : Pair × List String) : (lowerPair ts target e).pair = e.1 := by
  unfold lowerPair
  cases hd : native? ts target e.1.2 with
  | none => rfl
  | some d =>
    have htarget := target_native? hd
    exact Prod.ext rfl htarget

/-- What the pairs of the selected tasks become, each once. -/
structure Lowers (ts : Tasks) (target : String) (pairs : Sources) (lowered : List Lowered) :
    Prop where
  nodup : (lowered.map Lowered.pair).Nodup
  mem : ∀ pair, pair ∈ lowered.map Lowered.pair ↔
    pair ∈ pairs.map Prod.fst ∧ pair.1 ∈ (ts.selected target).map Task.id

theorem lowerAll_lowers (hpairs : (pairs.map Prod.fst).Nodup) :
    Ensures (lowerAll ts target pairs) (Lowers ts target pairs) := by
  refine .bind (P := fun _ => True) (fun _ _ => trivial) (fun _ _ => .pure ?_)
  have hsorted : (pairs.insertionSort (fun a b => pairLe a.1 b.1)).Perm pairs :=
    List.perm_insertionSort _ pairs
  have hkeys : (((pairs.insertionSort (fun a b => pairLe a.1 b.1)).filter
      (fun e => e.1.1 ∈ (ts.selected target).map Task.id)).map (lowerPair ts target)).map
        Lowered.pair =
      ((pairs.insertionSort (fun a b => pairLe a.1 b.1)).filter
        (fun e => e.1.1 ∈ (ts.selected target).map Task.id)).map Prod.fst := by
    rw [List.map_map]
    exact List.map_congr_left (fun e _ => pair_lowerPair e)
  refine ⟨?_, fun pair => ?_⟩
  · rw [hkeys]
    have hall := (hsorted.map Prod.fst).nodup_iff.mpr hpairs
    exact hall.sublist (List.filter_sublist.map Prod.fst)
  · rw [hkeys, List.mem_map]
    constructor
    · rintro ⟨e, he, rfl⟩
      have hfilter := List.mem_filter.mp he
      exact ⟨List.mem_map_of_mem (hsorted.mem_iff.mp hfilter.1), of_decide_eq_true hfilter.2⟩
    · rintro ⟨hmem, hselected⟩
      obtain ⟨e, he, rfl⟩ := List.mem_map.mp hmem
      exact ⟨e, List.mem_filter.mpr ⟨hsorted.mem_iff.mpr he, decide_eq_true hselected⟩, rfl⟩

end Lowering

section Plan

structure NativeTask where
  id : String
  kind : String
  title : String
  objective : String
  dependsOn : List Dependency
  checkpoints : List String

structure Interface where
  id : String
  ownerTaskId : String
  state : String
  version : String
  contractPaths : List String
  contentHash : String

def taskKinds : List String :=
  ["epic", "workstream", "task", "integration", "integration_task", "validation", "validation_task"]

/-- The kind of a task, and whether one that is not supported was lowered. -/
def kindOf (record : Dict) : String × Bool :=
  match (Dict.get record "task_kind").getD (.str "task") with
  | .str kind => if kind ∈ taskKinds then (kind, false) else ("task", kind ≠ "")
  | .null => ("task", false)
  | _ => ("task", true)

/-- `canonical_json`, the key by which the dependencies of a task are sorted. -/
def canonicalJson (v : Json) : String := String.ofList (JsonText.render ⟨false, false⟩ v ++ ['\n'])

def textOf (record : Dict) (field : String) : String :=
  match Dict.get record field with
  | some (.str s) => strip s
  | _ => ""

/-- A task of the plan. Its notes and its scope are left out. -/
def nativeTask (lowered : List Lowered) (task : Task) : Except PreledgerError NativeTask :=
  match (Dict.get task.record "purpose").getD (.str "") with
  | .str _ | .null => .ok
    { id := task.id
      kind := (kindOf task.record).1
      title := textOf task.record "title"
      objective := textOf task.record "purpose"
      dependsOn := (lowered.filterMap (Lowered.dependency? task.id)).insertionSort
        (fun a b => canonicalJson a.toJson ≤ canonicalJson b.toJson)
      checkpoints := (producedCheckpoints task.record).dedup.insertionSort (· ≤ ·) }
  | _ => .error (.purpose task.id)

def removeProposed (s : String) : String :=
  if "[proposed] ".toList <+: s.toList then strip (s.drop 11).toString else s

/-- `_clean_paths`. -/
def cleanPaths (values : List String) : List String :=
  ((values.map (fun s => removeProposed (strip s))).filter (· ≠ "")).dedup.insertionSort (· ≤ ·)

/-- A text that is not blank. -/
def filled? (v : Json) : Option String :=
  match v with
  | .str s => if strip s = "" then none else some s
  | _ => none

def version? (str : Json → String) (v : Json) : Option String :=
  match v with
  | .str s => some s
  | .num n => some (str (.num n))
  | _ => none

/-- `_lower_interface`. -/
def lowerInterface (str : Json → String) (record : Dict) (selected : List String) :
    Option Interface := do
  let id ← (Dict.get record "id").bind filled?
  let owner ← (Dict.get record "owner_task_id").bind filled?
  let state ← (Dict.get record "state").bind filled?
  let contentHash ← (Dict.get record "content_hash").bind filled?
  if owner ∉ selected then none
  let paths ← match Dict.get record "contract_paths" with
    | some (.arr items) => if items = [] then none else items.mapM filled?
    | _ => none
  let version ← (Dict.get record "version").bind (version? str)
  return ⟨strip id, strip owner, strip state, version, cleanPaths paths, strip contentHash⟩

def interfaceWarning (str : Json → String) (selected : List String) (item : Dict × ℕ) :
    Option String :=
  if (lowerInterface str item.1 selected).isSome then none
  else some ("unsupported interface record: " ++
    match Dict.get item.1 "id" with
    | some id => str id
    | none => "index " ++ str (.num item.2))

/-- The interfaces of the catalog, and the warnings about those that are left out. -/
def lowerInterfaces (str : Json → String) (selected : List String) :
    Option Json → Except PreledgerError (List Interface × List String)
  | none => .ok ([], [])
  | some catalog => do
    let found ← records catalog ["interfaces", "interface_catalog"] "interface catalog"
    let interfaces := found.filterMap (fun record => lowerInterface str record selected)
    let ids := interfaces.map Interface.id
    let duplicates := (ids.filter (fun id => 1 < ids.count id)).dedup
    if duplicates ≠ [] then throw (.duplicateInterfaces (duplicates.insertionSort (· ≤ ·)))
    return (interfaces.insertionSort (fun a b => a.id ≤ b.id),
      found.zipIdx.filterMap (interfaceWarning str selected))

def kindWarning (repr : Json → String) (task : Task) : Option String :=
  if (kindOf task.record).2 then
    some ("task " ++ task.id ++ " unsupported task_kind " ++
      repr ((Dict.get task.record "task_kind").getD .null) ++ " lowered to 'task'")
  else none

structure Package where
  tasks : Json
  interfaces : Option Json
  dependencyIndex : Option (String × Csv)
  externalDependencies : Option (String × Csv)

end Plan

section Representation

theorem count_lowered (lowered : List Lowered) (pair : Pair) :
    (lowered.filterMap (Lowered.dependency? pair.1)).count (.task pair.2) +
        (lowered.filterMap (Lowered.dependency? pair.1)).count (.checkpoint pair.2) +
      (lowered.filterMap Lowered.external?).countP
        (fun e => e.taskId = pair.1 ∧ e.dependencyId = pair.2) =
      (lowered.map Lowered.pair).count pair := by
  induction lowered with
  | nil => rfl
  | cons l lowered ih =>
    rw [List.map_cons, List.count_cons, ← ih]
    cases l with
    | native taskId d =>
      have hexternal : Lowered.external? (.native taskId d) = none := rfl
      rw [List.filterMap_cons_none hexternal]
      by_cases htask : taskId = pair.1
      · have hd : Lowered.dependency? pair.1 (.native taskId d) = some d := if_pos htask
        rw [List.filterMap_cons_some hd, List.count_cons, List.count_cons]
        cases d with
        | task id =>
          by_cases hid : id = pair.2
          · simp [Lowered.pair, Dependency.target, htask, hid]
            omega
          · simp [Lowered.pair, Dependency.target, htask, hid, Prod.ext_iff]
        | checkpoint id =>
          by_cases hid : id = pair.2
          · simp [Lowered.pair, Dependency.target, htask, hid]
            omega
          · simp [Lowered.pair, Dependency.target, htask, hid, Prod.ext_iff]
      · have hd : Lowered.dependency? pair.1 (.native taskId d) = none := if_neg htask
        rw [List.filterMap_cons_none hd]
        simp [Lowered.pair, htask, Prod.ext_iff]
    | external e =>
      have hd : Lowered.dependency? pair.1 (.external e) = none := rfl
      have hexternal : Lowered.external? (.external e) = some e := rfl
      rw [List.filterMap_cons_none hd, List.filterMap_cons_some hexternal, List.countP_cons]
      simp only [Lowered.pair, Prod.ext_iff, beq_iff_eq, decide_eq_true_eq]
      omega

variable {ts : Tasks} {target : String} {pairs : Sources} {lowered : List Lowered}

theorem nativeTask_ensures (task : Task) : Ensures (nativeTask lowered task) (fun n =>
    n.id = task.id ∧ n.dependsOn.Perm (lowered.filterMap (Lowered.dependency? task.id))) := by
  unfold nativeTask
  split
  · exact .ok ⟨rfl, List.perm_insertionSort _ _⟩
  · exact .ok ⟨rfl, List.perm_insertionSort _ _⟩
  · exact .error

end Representation

end ProjectControl.Preledger
