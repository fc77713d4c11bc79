import ProjectControl.Keyed
import ProjectControl.PreledgerLowering
import ProjectControl.SortedKeys

/-! The whole plan that a pre-ledger is lowered to: with the notes of the tasks, which carry the
digest of the package, and their scopes. A prerequisite is lost in it only if it names nothing. -/

set_option autoImplicit false

namespace ProjectControl.Preledger

section Notes

/-- What a field has to be to count as left out. -/
def isVoid (v : Json) : Bool := v = .null || v = .str "" || v = .arr [] || v = .obj []

/-- The fields of a task that its notes repeat, and under which names; a later field of a name
takes the place of an earlier one. -/
def provenanceFields : List (String × String) :=
  ["workstream", "biological_motivation", "compiler_architectural_reason",
    "implementation_mechanism", "invariants", "forbidden_shortcuts", "validation",
    "performance_evidence", "completion_condition", "experimental",
    "negative_result_acceptable"].map (fun field => (field, field)) ++
  [("mechanism", "implementation_mechanism"), ("cold_vs_hot_path", "hot_vs_cold_path"),
    ("complexity_expectations", "complexity_expectation"),
    ("failure_cases_and_fallback", "failure_cases"), ("expected_inputs", "inputs"),
    ("expected_outputs", "outputs")] ++
  ["category", "classification", "subsystem", "suggested_lane", "parallelism",
    "integration_point", "explicit_out_of_scope", "permitted_read_scope",
    "data_flow_and_ownership", "hot_vs_cold_path", "complexity_expectation"].map
      (fun field => (field, field))

def addProvenance (record : Dict) (provenance : Dict) (names : String × String) : Dict :=
  match Dict.get record names.1 with
  | some v => if isVoid v then provenance else Keyed.assign provenance names.2 v
  | none => provenance

def provenanceOf (packageDigest : String) (task : Task) : Dict :=
  provenanceFields.foldl (addProvenance task.record)
    [("preledger_package_digest", .str packageDigest), ("original_task_id", .str task.id)]

def notesOf (packageDigest : String) (task : Task) : String :=
  "preledger_provenance=" ++ String.ofList
    (JsonText.render ⟨false, false⟩ (JsonText.sortKeys (.obj (provenanceOf packageDigest task))))

end Notes

section Scope

mutual

/-- `_flatten_strings`. -/
def flattenStrings : Json → List String
  | .str s => [s]
  | .arr items => flattenStringsOf items
  | .null | .bool _ | .num _ | .obj _ => []

def flattenStringsOf : List Json → List String
  | [] => []
  | item :: items => flattenStrings item ++ flattenStringsOf items

end

/-- `_scope_paths` of a write scope. -/
def scopePaths (v : Json) (keys : List String) : List String :=
  match v with
  | .obj fields => keys.flatMap (fun key => flattenStrings (Dict.value fields key))
  | v => flattenStrings v

/-- `text.replace(part, "", 1)`. -/
def removeFirst (part : List Char) : List Char → List Char
  | [] => []
  | c :: rest => if part <+: c :: rest then (c :: rest).drop part.length
    else c :: removeFirst part rest

def isPathLike (s : String) : Bool :=
  strip s ≠ "" && !(removeFirst "[proposed] ".toList s.toList).any Processes.isSpace

/-- `_explicit_source_paths`. -/
def explicitSourcePaths (values : List String) : List String :=
  cleanPaths (values.filter isPathLike)

def exclusivePaths (record : Dict) : List String :=
  cleanPaths (scopePaths (Dict.value record "write_scope")
    ["exclusive_paths", "write_paths", "paths"])

def readPaths (record : Dict) : List String :=
  explicitSourcePaths (["existing_source_paths", "source_paths", "permitted_read_scope",
    "existing_code_extended"].flatMap (fun field => flattenStrings (Dict.value record field)))

end Scope

section Plan

/-- A task of the plan with its notes and its scope, of which an empty part is left out. -/
structure PlanTask extends NativeTask where
  notes : String
  exclusivePaths : List String
  readPaths : List String

structure Plan where
  schemaVersion : ℕ
  projectName : String
  tasks : List PlanTask
  interfaces : List Interface

/-- `CompiledPreledger`, without the digest of the plan and the names of the files. -/
structure Compiled where
  nativeTodoPlan : Plan
  packageDigest : String
  selectedTaskCount : ℕ
  excludedTaskCount : ℕ
  internalDependencyCount : ℕ
  externalDependencies : List ExternalDependency
  interfacesImported : ℕ
  warnings : List String

inductive CompileError where
  | preledger (e : PreledgerError)
  /-- `kind not in _TASK_KINDS` of a list or an object. -/
  | unhashable (task : String)

def lift {α : Type} (x : Except PreledgerError α) : Except CompileError α :=
  x.mapError .preledger

def isUnhashable : Json → Bool
  | .arr _ | .obj _ => true
  | _ => false

/-- The round of the loop over the selected tasks. -/
def planTask (packageDigest : String) (lowered : List Lowered) (task : Task) :
    Except CompileError PlanTask := do
  let native ← lift (nativeTask lowered task)
  if isUnhashable ((Dict.get task.record "task_kind").getD (.str "task")) then
    throw (.unhashable task.id)
  return { native with
    notes := notesOf packageDigest task
    exclusivePaths := Preledger.exclusivePaths task.record
    readPaths := Preledger.readPaths task.record }

/-- `compile_preledger`, once the files are read and have the digest `packageDigest`. -/
def compilePlan (str repr : Json → String) (packageDigest : String) (package : Package)
    (targetRepository : String) : Except CompileError Compiled := do
  if strip targetRepository = "" then throw (.preledger .emptyTarget)
  let target := strip targetRepository
  let ts ← lift (loadTasks package.tasks)
  let collected ← lift (collect ts package.dependencyIndex package.externalDependencies)
  let lowered ← lift (lowerAll ts target collected.pairs)
  let selected := (ts.selected target).insertionSort (fun a b => a.id ≤ b.id)
  let tasks ← selected.mapM (planTask packageDigest lowered)
  let (interfaces, unsupported) ←
    lift (lowerInterfaces str (selected.map Task.id) package.interfaces)
  let externalDependencies := lowered.filterMap Lowered.external?
  return {
    nativeTodoPlan := ⟨2, target, tasks, interfaces⟩
    packageDigest := packageDigest
    selectedTaskCount := selected.length
    excludedTaskCount := ts.items.length - selected.length
    internalDependencyCount := lowered.length - externalDependencies.length
    externalDependencies := externalDependencies
    interfacesImported := interfaces.length
    warnings := (collected.warnings ++ selected.filterMap (kindWarning repr) ++
      unsupported).dedup.insertionSort (· ≤ ·) }

end Plan

section Representation

/-- The entries of `depends_on` of the plan, each with its task. -/
def Compiled.nativeEntries (c : Compiled) : List (String × Dependency) :=
  c.nativeTodoPlan.tasks.flatMap (fun n => n.dependsOn.map (fun d => (n.id, d)))

/-- In how many places of the outputs a pair stands. -/
def Compiled.representations (c : Compiled) (pair : Pair) : ℕ :=
  c.nativeEntries.count (pair.1, .task pair.2) + c.nativeEntries.count (pair.1, .checkpoint pair.2) +
    c.externalDependencies.countP (fun e => e.taskId = pair.1 ∧ e.dependencyId = pair.2)

variable {ts : Tasks} {target : String} {pairs : Sources} {lowered : List Lowered}

theorem lift_ensures {α : Type} {x : Except PreledgerError α} {P : α → Prop}
    (h : Ensures x P) : Ensures (lift x) P := by
  intro a ha
  cases x with
  | error e => cases ha
  | ok b =>
    cases ha
    exact h _ rfl

theorem planTask_ensures (packageDigest : String) (task : Task) :
    Ensures (planTask packageDigest lowered task) (fun n =>
      n.id = task.id ∧ n.dependsOn.Perm (lowered.filterMap (Lowered.dependency? task.id))) := by
  refine .bind (lift_ensures (nativeTask_ensures task)) (fun native hnative => ?_)
  refine .ite (fun _ => .bind (P := fun _ => False) .throw (fun _ h => h.elim)) (fun _ => ?_)
  exact .pure hnative

/-- The plan lists the dependencies of each selected task under it. -/
theorem count_nativeEntries (deps : String → List Dependency) {tasks : List Task}
    {found : List PlanTask} (hfound : List.Forall₂ (fun task n =>
      n.id = task.id ∧ n.dependsOn.Perm (deps task.id)) tasks found)
    (hnodup : (tasks.map Task.id).Nodup) (id : String) (d : Dependency) :
    (found.flatMap (fun n => n.dependsOn.map (fun d => (n.id, d)))).count (id, d) =
      if id ∈ tasks.map Task.id then (deps id).count d else 0 := by
  induction hfound with
  | nil => rfl
  | @cons task n tasks found hn hrest ih =>
    obtain ⟨hid, hperm⟩ := hn
    rw [List.map_cons, List.nodup_cons] at hnodup
    rw [List.flatMap_cons, List.count_append, ih hnodup.2, List.map_cons]
    by_cases htask : task.id = id
    · subst htask
      have hcount : (n.dependsOn.map (fun d => (n.id, d))).count (task.id, d) =
          n.dependsOn.count d := by
        rw [hid]
        exact List.count_map_of_injective _ _ (fun a b h => (Prod.mk.inj h).2) d
      rw [hcount, hperm.count_eq, if_neg hnodup.1, if_pos List.mem_cons_self]
      rfl
    · have hcount : (n.dependsOn.map (fun d => (n.id, d))).count (id, d) = 0 := by
        rw [List.count_eq_zero]
        intro hmem
        obtain ⟨d', -, heq⟩ := List.mem_map.mp hmem
        exact htask (hid ▸ (Prod.mk.inj heq).1)
      have hmem : id ∈ task.id :: tasks.map Task.id ↔ id ∈ tasks.map Task.id := by
        rw [List.mem_cons, or_iff_right (fun h => htask h.symm)]
      rw [hcount, Nat.zero_add]
      simp only [hmem]

/-- A pair of a selected task stands in one place, and no other pair stands in any. -/
theorem representations_eq {c : Compiled} {tasks : List Task}
    (hlowered : Lowers ts target pairs lowered)
    (htasks : tasks.Perm (ts.selected target)) (hnodup : ts.ids.Nodup)
    (hfound : List.Forall₂ (fun task n => n.id = task.id ∧
      n.dependsOn.Perm (lowered.filterMap (Lowered.dependency? task.id))) tasks
        c.nativeTodoPlan.tasks)
    (hexternal : c.externalDependencies = lowered.filterMap Lowered.external?) (pair : Pair) :
    c.representations pair = if pair ∈ pairs.map Prod.fst ∧
      pair.1 ∈ (ts.selected target).map Task.id then 1 else 0 := by
  have hselected : (tasks.map Task.id).Nodup := by
    refine (htasks.map Task.id).nodup_iff.mpr ?_
    exact hnodup.sublist (List.filter_sublist.map Task.id)
  have hmem : pair.1 ∈ tasks.map Task.id ↔ pair.1 ∈ (ts.selected target).map Task.id :=
    (htasks.map Task.id).mem_iff
  have hcount := count_lowered lowered pair
  have hone : (lowered.map Lowered.pair).count pair = if pair ∈ pairs.map Prod.fst ∧
      pair.1 ∈ (ts.selected target).map Task.id then 1 else 0 := by
    by_cases hin : pair ∈ pairs.map Prod.fst ∧ pair.1 ∈ (ts.selected target).map Task.id
    · rw [if_pos hin]
      exact List.count_eq_one_of_mem hlowered.nodup ((hlowered.mem pair).mpr hin)
    · rw [if_neg hin, List.count_eq_zero]
      exact fun h => hin ((hlowered.mem pair).mp h)
  have hnative := count_nativeEntries (fun id => lowered.filterMap (Lowered.dependency? id))
    hfound hselected pair.1
  rw [Compiled.representations, Compiled.nativeEntries, hnative, hnative,
    hexternal]
  by_cases hin : pair.1 ∈ tasks.map Task.id
  · rw [if_pos hin, if_pos hin, ← hone, ← hcount]
  · rw [if_neg hin, if_neg hin]
    have hnone : ¬ (pair ∈ pairs.map Prod.fst ∧ pair.1 ∈ (ts.selected target).map Task.id) :=
      fun h => hin (hmem.mpr h.2)
    rw [if_neg hnone] at hone ⊢
    omega

end Representation

section Claims

variable {str repr : Json → String} {packageDigest : String} {package : Package}
  {targetRepository target : String} {ts : Tasks} {c : Compiled}

theorem addTask_nodup (hts : ts.ids.Nodup) (item : Dict × ℕ) :
    Ensures (addTask ts item) (fun ts => ts.ids.Nodup) := by
  unfold addTask
  refine .bind (P := fun _ => True) (fun _ _ => trivial) (fun id _ => ?_)
  refine .ite (fun _ => .bind (P := fun _ => False) .throw (fun _ h => h.elim)) (fun _ => ?_)
  refine .ite (fun _ => .bind (P := fun _ => False) .throw (fun _ h => h.elim)) (fun hnew => ?_)
  refine .bind (P := fun _ => True) (fun _ _ => trivial) (fun _ _ => ?_)
  refine .bind (P := fun _ => True) (fun _ _ => trivial) (fun _ _ => ?_)
  refine .bind (P := fun _ => True) (fun _ _ => trivial) (fun _ _ => .pure ?_)
  rw [Tasks.ids, List.map_append, List.nodup_append]
  refine ⟨hts, List.nodup_singleton _, fun a ha b hb => ?_⟩
  obtain rfl := List.mem_singleton.mp hb
  intro h
  rw [h] at ha
  exact hnew ha

theorem loadTasks_nodup (tasks : Json) : Ensures (loadTasks tasks) (fun ts => ts.ids.Nodup) := by
  refine .bind (P := fun _ => True) (fun _ _ => trivial) (fun found _ => ?_)
  exact .foldlM List.nodup_nil (fun ts item _ hts => addTask_nodup hts item)

/-- The pairs that the package asks for. -/
def Wanted (package : Package) (ts : Tasks) (pair : Pair) : Prop :=
  ((∃ task ∈ ts.items, Names task pair) ∨ pair ∈ indexRows package.dependencyIndex) ∨
    pair ∈ externalRows package.externalDependencies

/-- The pairs of selected tasks that the package asks for stand in the outputs, each once. -/
structure Represents (package : Package) (ts : Tasks) (target : String) (c : Compiled) :
    Prop where
  atMostOnce : ∀ pair, c.representations pair ≤ 1
  exact : ∀ pair, 0 < c.representations pair ↔
    Wanted package ts pair ∧ pair.1 ∈ (ts.selected target).map Task.id

theorem represents_of {collected : Collected} (hcollected : Has (Wanted package ts) collected)
    (hc : ∀ pair, c.representations pair = if pair ∈ collected.pairs.map Prod.fst ∧
      pair.1 ∈ (ts.selected target).map Task.id then 1 else 0) :
    Represents package ts target c := by
  refine ⟨fun pair => ?_, fun pair => ?_⟩
  · rw [hc]
    split <;> omega
  · rw [hc, ← hcollected.mem, Collected.keys]
    split
    · next h => exact ⟨fun _ => h, fun _ => Nat.one_pos⟩
    · next h => exact ⟨fun hpos => absurd hpos (Nat.lt_irrefl 0), fun hin => absurd hin h⟩

theorem compile_represents : Ensures (compilePlan str repr packageDigest package targetRepository)
    (fun c => ∃ ts, loadTasks package.tasks = .ok ts ∧ ts.ids.Nodup ∧
      Represents package ts (strip targetRepository) c) := by
  unfold compilePlan
  refine .ite (fun _ => .bind (P := fun _ => False) .throw (fun _ h => h.elim)) (fun _ => ?_)
  refine .bind (lift_ensures .of_eq) (fun ts hts => ?_)
  have hnodup := loadTasks_nodup package.tasks ts hts
  refine .bind (lift_ensures (collect_has _ _)) (fun collected hcollected => ?_)
  refine .bind (lift_ensures (lowerAll_lowers hcollected.nodup)) (fun lowered hlowered => ?_)
  refine .bind (.mapM (fun task _ => planTask_ensures packageDigest task)) (fun tasks htasks => ?_)
  refine .bind (P := fun _ => True) (fun _ _ => trivial) (fun _ _ => .pure ?_)
  refine ⟨ts, hts, hnodup, represents_of hcollected (fun pair => ?_)⟩
  exact representations_eq hlowered (List.perm_insertionSort _ _) hnodup htasks rfl pair

/-- The entries of a field of a task. -/
def entriesIn (task : Task) (field : String) : List (Option String) :=
  ((Dict.get task.record field).map entries).getD []

/-- No prerequisite of a selected task is lost, and nothing else is in the outputs. -/
structure NothingLost (package : Package) (ts : Tasks) (target : String) (c : Compiled) :
    Prop where
  entries : ∀ task ∈ ts.selected target, ∀ field ∈ prerequisiteFields,
    ∀ entry ∈ entriesIn task field, ∃ p, entry = some p ∧ c.representations (task.id, p) = 1
  rows : ∀ pair, pair ∈ indexRows package.dependencyIndex ∨
    pair ∈ externalRows package.externalDependencies →
      pair.1 ∈ (ts.selected target).map Task.id → c.representations pair = 1
  nothingElse : ∀ pair, 0 < c.representations pair → ∃ task ∈ ts.selected target,
    pair.1 = task.id ∧ ((∃ field ∈ prerequisiteFields, some pair.2 ∈ entriesIn task field) ∨
      pair ∈ indexRows package.dependencyIndex ∨ pair ∈ externalRows package.externalDependencies)

/-- Every entry of a prerequisite field of a selected task names something: none is a number,
and none is a record that leads to no text. -/
def Legible (ts : Tasks) (target : String) : Prop :=
  ∀ task ∈ ts.selected target, ∀ field ∈ prerequisiteFields, none ∉ entriesIn task field

theorem names_iff {task : Task} {pair : Pair} : Names task pair ↔
    pair.1 = task.id ∧ ∃ field ∈ prerequisiteFields, some pair.2 ∈ entriesIn task field := by
  have hfield (field : String) (p : String) :
      p ∈ fieldDependencies task.record field ↔ some p ∈ entriesIn task field := by
    unfold fieldDependencies entriesIn
    cases Dict.get task.record field with
    | none => simp
    | some v => simp [dependencyIds_eq]
  constructor
  · rintro ⟨field, hf, p, hp, rfl⟩
    exact ⟨rfl, field, hf, (hfield field p).mp hp⟩
  · rintro ⟨hid, field, hf, hp⟩
    exact ⟨field, hf, pair.2, (hfield field pair.2).mpr hp, Prod.ext hid rfl⟩

theorem Represents.once (h : Represents package ts target c) {pair : Pair}
    (hwanted : Wanted package ts pair) (hselected : pair.1 ∈ (ts.selected target).map Task.id) :
    c.representations pair = 1 := by
  have hle := h.atMostOnce pair
  have hpos := (h.exact pair).mpr ⟨hwanted, hselected⟩
  omega

/-- Nothing is lost exactly if every entry names something. -/
theorem nothing_lost_iff (hts : loadTasks package.tasks = .ok ts)
    (hc : compilePlan str repr packageDigest package targetRepository = .ok c) :
    NothingLost package ts (strip targetRepository) c ↔ Legible ts (strip targetRepository) := by
  obtain ⟨ts', hts', hnodup, hrep⟩ := compile_represents c hc
  cases hts.symm.trans hts'
  constructor
  · intro hlost task htask field hfield hnone
    obtain ⟨p, hp, -⟩ := hlost.entries task htask field hfield none hnone
    cases hp
  · intro hlegible
    refine ⟨fun task htask field hfield entry hentry => ?_, fun pair hrows hselected => ?_,
      fun pair hpos => ?_⟩
    · cases entry with
      | none => exact absurd hentry (hlegible task htask field hfield)
      | some p =>
        refine ⟨p, rfl, hrep.once (Or.inl (Or.inl ⟨task, List.mem_of_mem_filter htask, ?_⟩))
          (List.mem_map_of_mem htask)⟩
        exact names_iff.mpr ⟨rfl, field, hfield, hentry⟩
    · rcases hrows with hindex | hexternal
      · exact hrep.once (Or.inl (Or.inr hindex)) hselected
      · exact hrep.once (Or.inr hexternal) hselected
    · obtain ⟨hwanted, hselected⟩ := (hrep.exact pair).mp hpos
      obtain ⟨task, htask, hid⟩ := List.mem_map.mp hselected
      refine ⟨task, htask, hid.symm, ?_⟩
      rcases hwanted with (⟨task', htask', hnames⟩ | hindex) | hexternal
      · obtain ⟨hid', field, hfield, hentry⟩ := names_iff.mp hnames
        -- the ids of the tasks are distinct, so this is the selected task
        obtain rfl : task = task' := List.inj_on_of_nodup_map hnodup
          (List.mem_of_mem_filter htask) htask' (hid.trans hid')
        exact Or.inl ⟨field, hfield, hentry⟩
      · exact Or.inr (Or.inl hindex)
      · exact Or.inr (Or.inr hexternal)

end Claims

section Cases

def sampleTask (id : String) (prerequisites : List Json) : Dict :=
  [("id", .str id), ("prerequisites", .arr prerequisites), ("repository", .str "core"),
    ("title", .str "Title")]

/-- A package of two tasks, the second one with the given prerequisites. -/
def samplePackage (prerequisites : List Json) : Package where
  tasks := .arr [.obj (sampleTask "A" []), .obj (sampleTask "B" prerequisites)]
  interfaces := none
  dependencyIndex := none
  externalDependencies := none

def sampleTasks (prerequisites : List Json) : Tasks :=
  ⟨[⟨"A", sampleTask "A" [], "core"⟩, ⟨"B", sampleTask "B" prerequisites, "core"⟩], []⟩

/-- A prerequisite that is written as a number disappears. -/
theorem number_disappears : ∃ c, compilePlan (fun _ => "") (fun _ => "") ""
    (samplePackage [.num 42]) "core" = .ok c ∧
      ¬ NothingLost (samplePackage [.num 42]) (sampleTasks [.num 42]) (strip "core") c := by
  have hok : (compilePlan (fun _ => "") (fun _ => "") "" (samplePackage [.num 42])
      "core").isOk = true := by decide +kernel
  have hselected : ⟨"B", sampleTask "B" [.num 42], "core"⟩ ∈
      (sampleTasks [.num 42]).selected (strip "core") := by decide +kernel
  have hentry : none ∈ entriesIn ⟨"B", sampleTask "B" [.num 42], "core"⟩ "prerequisites" := by
    decide +kernel
  cases hc : compilePlan (fun _ => "") (fun _ => "") "" (samplePackage [.num 42]) "core" with
  | error e =>
    rw [hc] at hok
    cases hok
  | ok c =>
    refine ⟨c, rfl, fun hlost => ?_⟩
    obtain ⟨p, hp, -⟩ := hlost.entries _ hselected "prerequisites" (by decide) none hentry
    cases hp

theorem text_is_kept : ∃ c, compilePlan (fun _ => "") (fun _ => "") ""
    (samplePackage [.str "A"]) "core" = .ok c ∧
      NothingLost (samplePackage [.str "A"]) (sampleTasks [.str "A"]) (strip "core") c := by
  have hload : loadTasks (samplePackage [.str "A"]).tasks = .ok (sampleTasks [.str "A"]) := by
    decide +kernel
  have hok : (compilePlan (fun _ => "") (fun _ => "") "" (samplePackage [.str "A"])
      "core").isOk = true := by decide +kernel
  have hlegible : Legible (sampleTasks [.str "A"]) (strip "core") := by
    unfold Legible
    decide +kernel
  cases hc : compilePlan (fun _ => "") (fun _ => "") "" (samplePackage [.str "A"]) "core" with
  | error e =>
    rw [hc] at hok
    cases hok
  | ok c => exact ⟨c, rfl, (nothing_lost_iff hload hc).mpr hlegible⟩

end Cases

end ProjectControl.Preledger
