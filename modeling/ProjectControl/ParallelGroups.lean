import Mathlib
import ProjectControl.CriticalPath
import ProjectControl.FirstFit

/-! The parallel groups of `project_frontier` for a snapshot without a workflow authority, and what
two tasks of one group must not have in common. -/

set_option autoImplicit false

namespace ProjectControl.Frontier

open Reads (Fault ToolEnvelope SnapshotHead boundedPayload boundedEnvelope envelope merge get_put
  get_merge_of_not_mem)

section Groups

variable (y : Python)

/-- The paths that a task has for itself. -/
def scopes (t : Tables) (task : String) : List String :=
  (t.ownershipScopes.filter fun row =>
    Dict.value row "mode" = .str "exclusive" ∧ y.str (Dict.value row "task_id") = task).map
    fun row => y.str (Dict.value row "path")

def locks (t : Tables) (task : String) : List String :=
  (t.taskLocks.filter fun row => y.str (Dict.value row "task_id") = task).map
    fun row => y.str (Dict.value row "lock_name")

/-- `rstrip("/")`. -/
def rstripSlash (path : String) : List Char := path.toList.rdropWhile (· = '/')

/-- `paths_overlap`. -/
def pathsOverlap (left right : String) : Bool :=
  let a := rstripSlash left
  let b := rstripSlash right
  a = b || (b ++ ['/']).isPrefixOf a || (a ++ ['/']).isPrefixOf b

/-- The owner that a table gives for an id; of several rows the last one counts. -/
def lastOwner (rows : List Dict) (ownerKey id : String) : Option String :=
  rows.foldl (fun found row =>
    let owner := Dict.value row ownerKey
    if (Dict.value row "id").truthy ∧ owner.truthy ∧ y.str (Dict.value row "id") = id then
      some (y.str owner)
    else found) none

/-- `interface_relations`. -/
def interfaceRelation (t : Tables) (owner task : String) : Bool :=
  t.interfaceConsumers.any fun row =>
    lastOwner y t.interfaces "owner_task_id" (y.str (Dict.value row "interface_id")) = some owner &&
      y.str (Dict.value row "task_id") = task

/-- `checkpoint_relations`. -/
def checkpointRelation (t : Tables) (owner task : String) : Bool :=
  t.taskDependencies.any fun row => (Dict.value row "checkpoint_id").truthy &&
    lastOwner y t.checkpoints "task_id" (y.str (Dict.value row "checkpoint_id")) = some owner &&
      y.str (Dict.value row "task_id") = task

/-- `conflict`. -/
def conflict (t : Tables) (left right : String) : Bool :=
  (scopes y t left).any (fun a => (scopes y t right).any fun b => pathsOverlap a b) ||
    (locks y t left).any (fun lock => lock ∈ locks y t right) ||
    right ∈ dependencies y t left || left ∈ dependencies y t right ||
    interfaceRelation y t left right || interfaceRelation y t right left ||
    checkpointRelation y t left right || checkpointRelation y t right left

def taskId (task : Dict) : String := y.str (Dict.value task "id")

end Groups

section Relations

/-- Whether a path starts at the root, and its components without the empty ones and `.`; what a
`..` goes back over is gone. -/
def normalize (path : String) : Bool × List (List Char) :=
  let absolute := path.toList.head? = some '/'
  let push (stack : List (List Char)) (name : List Char) : List (List Char) :=
    if name = [] ∨ name = ['.'] then stack
    else if name = ['.', '.'] then
      match stack with
      | top :: below => if top = ['.', '.'] then name :: stack else below
      | [] => if absolute then [] else [name]
    else name :: stack
  (absolute, ((path.toList.splitOn '/').foldl push []).reverse)

/-- A path is the other or an ancestor of it; the root of the repository is one of everything. -/
def Covers (a b : String) : Prop :=
  normalize a = (false, []) ∨
    (normalize a).1 = (normalize b).1 ∧ (normalize a).2 <+: (normalize b).2

variable (y : Python) (t : Tables)

/-- The row has the text under the key. -/
def Named (row : Dict) (key text : String) : Prop :=
  (Dict.value row key).truthy = true ∧ y.str (Dict.value row key) = text

/-- A row of the table gives the entity to the task. -/
def Owned (rows : List Dict) (ownerKey id task : String) : Prop :=
  ∃ row ∈ rows, Named y row "id" id ∧ Named y row ownerKey task

def SharesScope (left right : String) : Prop :=
  ∃ a ∈ scopes y t left, ∃ b ∈ scopes y t right, Covers a b ∨ Covers b a

def SharesLock (left right : String) : Prop := ∃ lock ∈ locks y t left, lock ∈ locks y t right

/-- A dependency row of the task names the other one, a checkpoint of it or an interface of it. -/
def DependsOn (task other : String) : Prop :=
  ∃ row ∈ t.taskDependencies, y.str (Dict.value row "task_id") = task ∧
    (Named y row "prerequisite_task_id" other ∨
      (∃ id, Named y row "checkpoint_id" id ∧ Owned y t.checkpoints "task_id" id other) ∨
      ∃ id, Named y row "interface_id" id ∧ Owned y t.interfaces "owner_task_id" id other)

/-- The task consumes an interface of the other one. -/
def Consumes (task other : String) : Prop :=
  ∃ row ∈ t.interfaceConsumers, y.str (Dict.value row "task_id") = task ∧
    Owned y t.interfaces "owner_task_id" (y.str (Dict.value row "interface_id")) other

/-- What two tasks that run in parallel must not be. -/
def Related (left right : String) : Prop :=
  SharesScope y t left right ∨ SharesLock y t left right ∨
    (DependsOn y t left right ∨ DependsOn y t right left) ∨
    Consumes y t left right ∨ Consumes y t right left

/-- The groups are a partition of the ready tasks without related tasks in one group. -/
structure Safe (ready : List Dict) (groups : List (List String)) : Prop where
  distinct : (ready.map (taskId y)).Nodup
  partition : groups.flatten.Perm (ready.map (taskId y))
  nonempty : ∀ group ∈ groups, group ≠ []
  unrelated : ∀ group ∈ groups, ∀ left ∈ group, ∀ right ∈ group, left ≠ right →
    ¬Related y t left right

variable {y t} {left right : String}

theorem Related.symm (h : Related y t left right) : Related y t right left := by
  rcases h with ⟨a, ha, b, hb, hcover⟩ | ⟨lock, hl, hr⟩ | hdepends | hconsumes
  · exact .inl ⟨b, hb, a, ha, hcover.symm⟩
  · exact .inr (.inl ⟨lock, hr, hl⟩)
  · exact .inr (.inr (.inl hdepends.symm))
  · exact .inr (.inr (.inr hconsumes.symm))

end Relations

end ProjectControl.Frontier
