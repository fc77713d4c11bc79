import Mathlib
import ProjectControl.EnvelopeBudget
import ProjectControl.Keyed
import ProjectControl.Transaction

/-! The tasks of a snapshot as the reconciler sees them: the semantic records where the todo
authority gives them, else the exported rows with an effective state. -/

set_option autoImplicit false

namespace ProjectControl.Frontier

open Reads (Fault Platform intOf merge get_merge_of_not_mem)

section Snapshots

/-- What Python does with values: `str` of one, and `strip().lower()` of a text. -/
structure Python extends Platform where
  str : Json → String
  lower : String → String
  str_text : ∀ s, str (.str s) = s
  lower_empty : lower "" = ""

theorem lower_nothing : id "" = "" := rfl

/-- Python on texts in lower case without outer blanks, `None`, booleans and numbers. -/
def Python.plain : Python where
  redactOutput := id
  intOfText _ := none
  str
    | .str s => s
    | .null => "None"
    | .bool true => "True"
    | .bool false => "False"
    | .num n => toString n
    | _ => ""
  lower := id
  str_text _ := rfl
  lower_empty := lower_nothing

/-- The exported tables that say how tasks are related. -/
structure Tables where
  taskDependencies : List Dict
  ownershipScopes : List Dict
  taskLocks : List Dict
  interfaces : List Dict
  interfaceConsumers : List Dict
  checkpoints : List Dict

/-- What the frontier reads of a snapshot; `safeParallelGroups` stands for a workflow authority
that is available. -/
structure Snapshot where
  semantic : Dict := []
  ready : List Json
  activeClaims : List Json
  tasks : List Dict
  tables : Tables
  safeParallelGroups : Option (List (List String)) := none

variable (y : Python)

/-- The tasks by their ids, in the order in which the ids came. -/
structure TaskTable where
  entries : List (String × Dict)
  keys_nodup : (entries.map Prod.fst).Nodup
  named : ∀ e ∈ entries, y.str (Dict.value e.2 "id") = e.1

variable {y}

/-- A record under its own id. -/
def TaskTable.assign (tasks : TaskTable y) (key : String) (task : Dict)
    (hkey : y.str (Dict.value task "id") = key) : TaskTable y where
  entries := Keyed.assign tasks.entries key task
  keys_nodup := Keyed.nodup_assign tasks.keys_nodup
  named e he := by
    rcases Keyed.mem_assign he with rfl | he
    · exact hkey
    · exact tasks.named e he

def TaskTable.empty : TaskTable y where
  entries := []
  keys_nodup := List.nodup_nil
  named _ he := absurd he List.not_mem_nil

/-- `tasks[key]`. -/
def TaskTable.task (tasks : TaskTable y) (key : String) : Dict :=
  (tasks.entries.lookup key).getD []

end Snapshots

section Tasks

variable (y : Python)

def terminalHistoricalStates : List String :=
  ["done", "superseded", "cancelled", "canceled", "stale", "archived", "invalidated", "abandoned",
    "historical-only", "historical_only"]

/-- `is_terminal_historical`. -/
def isTerminalHistorical (task : Dict) : Bool :=
  y.lower (y.str ((Dict.get task "status").getD (.str ""))) ∈ terminalHistoricalStates

/-- The records of a semantic state that is there. -/
def Snapshot.semanticTasks (s : Snapshot) : Option (List Json) :=
  match Dict.get s.semantic "revision", (Dict.get s.semantic "tasks").getD (.arr []) with
  | some _, .arr records => some records
  | _, _ => none

/-- `",".join(codes)`. -/
def joined : Json → Except Fault String
  | .arr items => do
    let texts ← items.mapM fun item =>
      match item with
      | .str s => pure s
      | _ => throw .type
    pure (",".intercalate texts)
  | .str s => pure (",".intercalate (s.toList.map String.singleton))
  | .obj fields => pure (",".intercalate (fields.map Prod.fst))
  | _ => throw .type

def semanticTask (item : Dict) : Except Fault Dict := do
  let reason ← joined ((Dict.get item "reason_codes").getD (.arr []))
  pure (merge item [("relevance", (Dict.get item "current_relevance").getD (.str "unknown")),
    ("relevance_reason", .str (if reason = "" then "todo_semantic" else reason))])

theorem semanticTask_id (item : Dict) : Ensures (semanticTask item) fun task =>
    Dict.value task "id" = Dict.value item "id" := by
  refine .bind .of_eq fun reason _ => .pure ?_
  rw [Dict.value, Dict.value, get_merge_of_not_mem (by simp)]

def semanticTable (records : List Json) : Except Fault (TaskTable y) :=
  (records.filterMap Json.fields?).foldlM (fun tasks item =>
    if (Dict.value item "id").truthy then
      match h : semanticTask item with
      | .ok task => pure (tasks.assign (y.str (Dict.value item "id")) task
          (congrArg y.str (semanticTask_id item task h)))
      | .error fault => throw fault
    else pure tasks) .empty

/-- The ids that the todo status lists as ready, and as claimed. -/
def Snapshot.readyIds (s : Snapshot) : List String :=
  (s.ready.filterMap Json.fields?).map fun item =>
    y.str ((Dict.value item "id").orElse (Dict.value item "task_id"))

def Snapshot.activeIds (s : Snapshot) : List String :=
  (s.activeClaims.filterMap Json.fields?).map fun item => y.str (Dict.value item "task_id")

/-- What the reconciler takes a task to depend on: barriers, too. -/
def legacyDependencies (t : Tables) (task : String) : List String :=
  t.taskDependencies.filterMap fun row =>
    let target := (Dict.value row "prerequisite_task_id").orElse
      ((Dict.value row "checkpoint_id").orElse
        ((Dict.value row "interface_id").orElse (Dict.value row "barrier_id")))
    if target.truthy ∧ y.str (Dict.value row "task_id") = task then some (y.str target) else none

/-- The effective state of an exported row, and its relevance. -/
def legacyState (s : Snapshot) (raw : Dict) : String × String :=
  let taskId := y.str (Dict.value raw "id")
  let status := y.str ((Dict.get raw "status").getD (.str "planned"))
  if status = "superseded" then ("superseded", "superseded")
  else if isTerminalHistorical y raw then ("done", "reference")
  else if taskId ∈ s.activeIds y ∨ status = "in_progress" then ("active", "current")
  else if taskId ∈ s.readyIds y then ("ready", "current")
  else if status = "blocked" ∨ legacyDependencies y s.tables taskId ≠ [] then
    ("blocked", "current_attention")
  else ("planned", "current")

def legacyTask (s : Snapshot) (raw : Dict) : Dict :=
  let (effective, relevance) := legacyState y s raw
  let terminal := isTerminalHistorical y raw
  merge raw [("effective_state", .str effective), ("terminal", .bool terminal),
    ("frontier_eligible", .bool (!terminal && Dict.value raw "kind" ≠ .str "epic")),
    ("attention_eligible", .bool (effective = "blocked")),
    ("current_program_eligible", .bool (relevance ∉ ["superseded", "historical"])),
    ("relevance", .str relevance), ("relevance_reason", .str "legacy_raw_status_fallback"),
    ("dependencies", .arr ((legacyDependencies y s.tables (y.str (Dict.value raw "id"))).map
      fun value => .obj [("type", .str "legacy"), ("entity_id", .str value)]))]

theorem legacyTask_id (s : Snapshot) (raw : Dict) :
    Dict.value (legacyTask y s raw) "id" = Dict.value raw "id" := by
  rw [Dict.value, Dict.value, legacyTask, get_merge_of_not_mem (by simp)]

def legacyTable (s : Snapshot) : TaskTable y :=
  s.tasks.foldl (fun tasks raw =>
    tasks.assign (y.str (Dict.value raw "id")) (legacyTask y s raw)
      (congrArg y.str (legacyTask_id y s raw))) .empty

/-- `_tasks`. -/
def Snapshot.taskTable (s : Snapshot) : Except Fault (TaskTable y) :=
  match s.semanticTasks with
  | some records => semanticTable y records
  | none => pure (legacyTable y s)

end Tasks

section Ranks

variable (y : Python)

structure Rank where
  score : ℤ
  priority : ℤ
  id : String

/-- The order of the sort keys: the greatest score first, then the greatest priority. -/
def Rank.before (a b : Rank) : Prop :=
  b.score < a.score ∨ a.score = b.score ∧
    (b.priority < a.priority ∨ a.priority = b.priority ∧ a.id ≤ b.id)

instance (a b : Rank) : Decidable (a.before b) :=
  inferInstanceAs (Decidable (_ ∨ _ ∧ (_ ∨ _ ∧ _)))

end Ranks

end ProjectControl.Frontier
