import Mathlib.Data.List.Sort
import ProjectControl.JsonText
import ProjectControl.ProcessStart
import ProjectControl.Transaction

/-! The package of a pre-ledger: its tasks, its two indexes, and the prerequisites that each
task names, in their own fields and in the indexes. -/

set_option autoImplicit false

namespace ProjectControl.Preledger

section Text

def strip (s : String) : String :=
  String.ofList (((s.toList.dropWhile Processes.isSpace).reverse.dropWhile
    Processes.isSpace).reverse)

/-- How a record is called in an error: by the `id` it has, of whatever type, or by its place. -/
inductive Label where
  | id (raw : Json)
  | index (n : ℕ)
  deriving DecidableEq

inductive PreledgerError where
  | emptyTarget
  | notArray (label key : String)
  | notObjects (label : String)
  | requires (task : Label) (field : String)
  | malformedId (task : String)
  | duplicateId (task : String)
  | duplicateCheckpoint (checkpoint : String)
  | noHeader (file : String)
  | unsupportedColumns (index file : String)
  | emptyDependency (index file : String) (line : ℕ)
  | disagrees (index others : String) (missing extra : List (String × String))
  | unknownConsumer (task : String)
  | purpose (task : String)
  | duplicateInterfaces (ids : List String)
  deriving DecidableEq

/-- The text of an error. `str` and `repr` are those of Python. -/
def PreledgerError.message (str repr : Json → String) (pairs : List (String × String) → String) :
    PreledgerError → String
  | emptyTarget => "target_repository must be a non-empty string"
  | notArray label key => label ++ " must be an array or contain an array named " ++ key
  | notObjects label => label ++ " records must be JSON objects"
  | requires (.id raw) field => "task " ++ str raw ++ " requires non-empty " ++ field
  | requires (.index n) field => "task at index " ++ str (.num n) ++ " requires non-empty " ++ field
  | malformedId task => "task " ++ repr (.str task) ++ " has malformed id"
  | duplicateId task => "duplicate task id: " ++ task
  | duplicateCheckpoint checkpoint => "duplicate produced checkpoint id: " ++ checkpoint
  | noHeader file => "dependency index has no header: " ++ file
  | unsupportedColumns index file => "unsupported " ++ index ++ " columns in " ++ file
  | emptyDependency index file line => "empty " ++ index ++ " at " ++ file ++ ":" ++ str (.num line)
  | disagrees index others missing extra =>
    index ++ " index disagrees with task-local " ++ others ++ ": missing=" ++
      pairs (missing.take 8) ++ ", extra=" ++ pairs (extra.take 8)
  | unknownConsumer task => "dependency names unknown consumer task: " ++ task
  | purpose task => "task " ++ task ++ " purpose must be a string"
  | duplicateInterfaces ids => "duplicate interface ids: " ++ repr (.arr (ids.map .str))

end Text

section Records

def isObject : Json → Bool
  | .obj _ => true
  | _ => false

/-- The array of a document, which may be the document itself or stand under one of the keys. -/
def recordItems (value : Json) (keys : List String) : Option (List Json) :=
  match value with
  | .arr items => some items
  | .obj d =>
    match keys.findSome? (Dict.get d) with
    | some (.arr items) => some items
    | _ => none
  | _ => none

/-- `_records`. -/
def records (value : Json) (keys : List String) (label : String) :
    Except PreledgerError (List Dict) :=
  match recordItems value keys with
  | some items =>
    if items.all isObject then .ok (items.filterMap Json.fields?) else .error (.notObjects label)
  | none => .error (.notArray label (keys.headD ""))

/-- `_nonempty_string`. -/
def nonemptyString (record : Dict) (field : String) (task : Label) :
    Except PreledgerError String :=
  match Dict.get record field with
  | some (.str s) => if strip s = "" then .error (.requires task field) else .ok (strip s)
  | _ => .error (.requires task field)

/-- The keys under which a record names a prerequisite, in the order in which they are tried. -/
def prerequisiteKeys : List String := ["task_id", "prerequisite_task_id", "checkpoint_id", "id"]

mutual

/-- `_dependency_ids`. -/
def dependencyIds : Json → List String
  | .str s => if strip s = "" then [] else [strip s]
  | .arr items => dependencyIdsOf items
  | .obj fields => (prerequisiteKeys.findSome? (fun key => (fieldIds fields).lookup key)).getD []
  | .null | .bool _ | .num _ => []

def dependencyIdsOf : List Json → List String
  | [] => []
  | item :: items => dependencyIds item ++ dependencyIdsOf items

/-- The ids that each field of a record leads to. -/
def fieldIds : List (String × Json) → List (String × List String)
  | [] => []
  | (key, v) :: fields => (key, dependencyIds v) :: fieldIds fields

end

/-- `_produced_checkpoints`. -/
def producedCheckpoints (task : Dict) : List String :=
  match Dict.get task "produces_checkpoint" with
  | some v => dependencyIds v
  | none => []

end Records

section Entries

mutual

/-- The entries of a field: what each string, number or record of it names, where `none` is
one that names nothing. -/
def entries : Json → List (Option String)
  | .str s => if strip s = "" then [] else [some (strip s)]
  | .num _ => [none]
  | .arr items => entriesOf items
  | .obj fields =>
    match (prerequisiteKeys.findSome? (fun key => (fieldEntries fields).lookup key)).getD [] with
    | [] => [none]
    | named => named
  | .null | .bool _ => []

def entriesOf : List Json → List (Option String)
  | [] => []
  | item :: items => entries item ++ entriesOf items

def fieldEntries : List (String × Json) → List (String × List (Option String))
  | [] => []
  | (key, v) :: fields => (key, entries v) :: fieldEntries fields

end

theorem lookup_map {α β : Type} (f : α → β) (fields : List (String × α)) (key : String) :
    (fields.map (fun e => (e.1, f e.2))).lookup key = (fields.lookup key).map f := by
  induction fields with
  | nil => rfl
  | cons e fields ih =>
    rw [List.map_cons, List.lookup_cons, List.lookup_cons, ih]
    cases key == e.1 with
    | true => rfl
    | false => rfl

theorem firstKey_map {α β : Type} (f : α → β) (fields : List (String × α)) (keys : List String) :
    keys.findSome? (fun key => (fields.map (fun e => (e.1, f e.2))).lookup key) =
      (keys.findSome? (fun key => fields.lookup key)).map f := by
  rw [List.map_findSome?]
  congr 1
  funext key
  exact lookup_map f fields key

mutual

/-- The compiler sees the entries that name something. -/
theorem dependencyIds_eq (v : Json) : dependencyIds v = (entries v).filterMap id := by
  cases v with
  | null => rfl
  | bool b => rfl
  | num n => rfl
  | str s =>
    rw [dependencyIds, entries]
    by_cases hs : strip s = ""
    · rw [if_pos hs, if_pos hs, List.filterMap_nil]
    · rw [if_neg hs, if_neg hs]
      rfl
  | arr items => rw [dependencyIds, entries, dependencyIdsOf_eq items]
  | obj fields =>
    rw [dependencyIds, entries, fieldIds_eq fields, firstKey_map]
    cases (prerequisiteKeys.findSome? (fun key => (fieldEntries fields).lookup key)) with
    | none => rfl
    | some named =>
      cases named with
      | nil => rfl
      | cons e rest => rfl

theorem dependencyIdsOf_eq (items : List Json) :
    dependencyIdsOf items = (entriesOf items).filterMap id := by
  cases items with
  | nil => rfl
  | cons item items =>
    rw [dependencyIdsOf, entriesOf, List.filterMap_append, dependencyIds_eq item,
      dependencyIdsOf_eq items]

theorem fieldIds_eq (fields : List (String × Json)) :
    fieldIds fields = (fieldEntries fields).map (fun e => (e.1, e.2.filterMap id)) := by
  cases fields with
  | nil => rfl
  | cons e fields =>
    rw [fieldIds, fieldEntries, List.map_cons, dependencyIds_eq e.2, fieldIds_eq fields]

end

end Entries

section Tasks

structure Task where
  id : String
  record : Dict
  repository : String
  deriving DecidableEq

/-- `by_id`, `repository_by_id` and `checkpoint_owner`. -/
structure Tasks where
  items : List Task
  checkpointOwner : List (String × String)
  deriving DecidableEq

def Tasks.ids (ts : Tasks) : List String := ts.items.map Task.id

def Tasks.repositoryOf (ts : Tasks) (id : String) : Option String :=
  (ts.items.find? (fun t => t.id = id)).map Task.repository

/-- `selected_ids`. -/
def Tasks.selected (ts : Tasks) (target : String) : List Task :=
  ts.items.filter (fun t => t.repository = target)

/-- `_TASK_ID`. -/
def isTaskId (s : String) : Bool :=
  match s.toList with
  | [] => false
  | c :: rest => c.isAlphanum && rest.all (fun c => c.isAlphanum || c ∈ ['.', '_', ':', '-'])

def addCheckpoint (task : String) (owners : List (String × String)) (checkpoint : String) :
    Except PreledgerError (List (String × String)) :=
  match owners.lookup checkpoint with
  | some owner => if owner = task then .ok owners else .error (.duplicateCheckpoint checkpoint)
  | none => .ok (owners ++ [(checkpoint, task)])

def labelOf (record : Dict) (index : ℕ) : Label :=
  match Dict.get record "id" with
  | none | some .null => .index index
  | some raw => .id raw

def addTask (ts : Tasks) (item : Dict × ℕ) : Except PreledgerError Tasks := do
  let id ← nonemptyString item.1 "id" (labelOf item.1 item.2)
  if !isTaskId id then throw (.malformedId id)
  if id ∈ ts.ids then throw (.duplicateId id)
  let _ ← nonemptyString item.1 "title" (.id (.str id))
  let repository ← nonemptyString item.1 "repository" (.id (.str id))
  let owners ← (producedCheckpoints item.1).foldlM (addCheckpoint id) ts.checkpointOwner
  return ⟨ts.items ++ [⟨id, item.1, repository⟩], owners⟩

def loadTasks (tasks : Json) : Except PreledgerError Tasks := do
  let found ← records tasks ["tasks", "proposed_todos"] "tasks file"
  found.zipIdx.foldlM addTask ⟨[], []⟩

end Tasks

section Indexes

/-- The rows of a CSV file, the header first. -/
abbrev Csv := List (List String)

/-- The cell of a row under a column, as `csv.DictReader` fills it in: the last column of a
name counts, and a short row is filled up. -/
def cell (header row : List String) (name : String) : String :=
  strip ((((header.zip (row ++ List.replicate header.length "")).reverse).lookup name).getD "")

abbrev Pair := String × String

/-- The pairs of a file: who depends, and on what. Blank lines are skipped. -/
def csvPairs (index file : String) (rows : Csv) (dependent prerequisite : String) :
    Except PreledgerError (List Pair) :=
  ((rows.tail.filter (· ≠ [])).zipIdx 2).mapM (fun line =>
    let pair := (cell (rows.headD []) line.1 dependent, cell (rows.headD []) line.1 prerequisite)
    if pair.1 = "" ∨ pair.2 = "" then .error (.emptyDependency index file line.2) else .ok pair)

def columnPairs : List (List String × List String) :=
  [(["task_id", "dependent_task_id", "consumer_task_id", "consumer_task"],
    ["prerequisite_task_id", "dependency_id", "depends_on", "producer_task"]),
   (["to_task_id", "target_task_id", "to_id"], ["from_task_id", "source_task_id", "from_id"])]

/-- The two columns that an index is read from. -/
def columns (header : List String) : Option Pair :=
  columnPairs.findSome? (fun names =>
    match names.1.find? (· ∈ header), names.2.find? (· ∈ header) with
    | some left, some right => some (left, right)
    | _, _ => none)

/-- `_csv_dependencies`. -/
def csvDependencies (file : String) (rows : Csv) : Except PreledgerError (List Pair × Bool) :=
  if rows.headD [] = [] then .error (.noHeader file)
  else
    match columns (rows.headD []) with
    | none => .error (.unsupportedColumns "dependency index" file)
    | some (dependent, prerequisite) => do
      let pairs ← csvPairs "dependency" file rows dependent prerequisite
      return (pairs, dependent = "consumer_task" ∧ prerequisite = "producer_task")

/-- `_csv_external_dependencies`. -/
def csvExternalDependencies (file : String) (rows : Csv) : Except PreledgerError (List Pair) :=
  if "checkpoint_interface_or_receipt" ∈ rows.headD [] ∧ "consumer_task" ∈ rows.headD [] then
    csvPairs "external dependency" file rows "consumer_task" "checkpoint_interface_or_receipt"
  else .error (.unsupportedColumns "external dependency" file)

end Indexes

end ProjectControl.Preledger
