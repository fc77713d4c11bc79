import Mathlib
import ProjectControl.Reconcile
import ProjectControl.Transaction
import ProjectControl.Walks

/-! The critical path of `project_frontier`: from the weightiest frontier task along the first
remaining dependencies. -/

set_option autoImplicit false

namespace ProjectControl.Frontier

open Reads (Fault intOf)

section Path

/-- What the start is chosen by, in the order of tuples. -/
abbrev Weight := ℕ ×ₗ ℤ

instance : Preorder Weight :=
  @Prod.Lex.instPreorder ℕ ℤ _ Int.instLinearOrder.toPartialOrder.toPreorder

variable (y : Python)

/-- `dependencies`: what the rows of a task name first. -/
def dependencies (t : Tables) (task : String) : List String :=
  t.taskDependencies.filterMap fun row =>
    let prerequisite := (Dict.value row "prerequisite_task_id").orElse
      ((Dict.value row "checkpoint_id").orElse (Dict.value row "interface_id"))
    if prerequisite.truthy ∧ y.str (Dict.value row "task_id") = task then some (y.str prerequisite)
    else none

variable {y}

/-- `remaining`. -/
def remaining (tasks : TaskTable y) : List String :=
  (tasks.entries.filter fun e => (Dict.value e.2 "frontier_eligible").truthy).map Prod.fst

def priority (tasks : TaskTable y) (key : String) : Except Fault ℤ :=
  intOf y.toPlatform ((Dict.get (tasks.task key) "priority").getD (.num 0))

def remainingDependencies (tasks : TaskTable y) (t : Tables) (key : String) : List String :=
  (dependencies y t key).filter (· ∈ remaining tasks)

/-- `next(item for item in dependencies[current] if item in remaining)`. -/
def nextDependency (tasks : TaskTable y) (t : Tables) (current : String) : Option String :=
  (dependencies y t current).find? (· ∈ remaining tasks)

/-- A task with what `max` compares it by. -/
def weigh (tasks : TaskTable y) (t : Tables) (key : String) : Except Fault (String × Weight) := do
  let priority ← priority tasks key
  pure (key, toLex ((remainingDependencies tasks t key).length, priority))

/-- The loop from the first of the weightiest tasks; `order` is the one in which the set of the
remaining tasks is iterated. -/
def criticalPath (tasks : TaskTable y) (t : Tables) (fuel : ℕ) (order : List String) :
    Except Fault (Option (List String)) := do
  let weighted ← order.mapM (weigh tasks t)
  match weighted.argmax Prod.snd with
  | none => pure (some [])
  | some (current, _) => pure (Walks.walk (nextDependency tasks t) fuel current)

end Path

section Soundness

variable {y : Python} (tasks : TaskTable y) (t : Tables)

/-- A list without repetition along direct dependencies, with nothing left to go on to. -/
structure IsCriticalPath (path : List String) : Prop where
  nodup : path.Nodup
  direct : path.IsChain fun a b => b ∈ dependencies y t a
  closed : ∀ a, path.getLast? = some a → ∀ b ∈ dependencies y t a, b ∈ remaining tasks → b ∈ path

/-- The loop ends with one and the same critical path, in whatever order the set is iterated. -/
def CriticalPathSound : Prop :=
  ∃ path, IsCriticalPath tasks t path ∧ ∀ order, order.Perm (remaining tasks) →
    ∃ fuel, criticalPath tasks t fuel order = .ok (some path)

/-- What the start is chosen by: the number of remaining dependencies, then the priority. -/
def weight (key : String) : Weight :=
  toLex ((remainingDependencies tasks t key).length, (priority tasks key).toOption.getD 0)

def Weightiest (key : String) : Prop :=
  key ∈ remaining tasks ∧ ∀ other ∈ remaining tasks, weight tasks t other ≤ weight tasks t key

/-- All priorities are numbers, no two tasks are weightiest together, and from the weightiest one
the first remaining dependencies lead into no cycle. -/
structure Unambiguous : Prop where
  numeric : ∀ key ∈ remaining tasks, ∃ n, priority tasks key = .ok n
  unique : ∀ a b, Weightiest tasks t a → Weightiest tasks t b → a = b
  acyclic : ∀ a, Weightiest tasks t a → Walks.Acyclic (nextDependency tasks t) a

variable {tasks t} {a b key : String} {order : List String}

/-- What `weigh` gives where it gives something. -/
def Weighed (tasks : TaskTable y) (t : Tables) (key : String) (e : String × Weight) : Prop :=
  (∃ n, priority tasks key = .ok n) ∧ e = (key, weight tasks t key)

theorem weigh_ensures : Ensures (weigh tasks t key) (Weighed tasks t key) := by
  unfold weigh Weighed weight
  refine Ensures.bind Ensures.of_eq fun n hn => Ensures.pure ⟨⟨n, hn⟩, ?_⟩
  rw [hn]
  rfl

theorem weigh_commits (h : ∃ n, priority tasks key = .ok n) :
    Commits (weigh tasks t key) (Weighed tasks t key) := by
  obtain ⟨n, hn⟩ := h
  refine ⟨(key, weight tasks t key), ?_, ⟨n, hn⟩, rfl⟩
  rw [weigh, weight, hn]
  rfl

theorem weighed_all {weighted : List (String × Weight)}
    (h : List.Forall₂ (Weighed tasks t) order weighted) :
    (∀ key ∈ order, ∃ n, priority tasks key = .ok n) ∧
      weighted = order.map fun key => (key, weight tasks t key) := by
  induction h with
  | nil => exact ⟨fun _ hkey => absurd hkey List.not_mem_nil, rfl⟩
  | cons he _ ih =>
    refine ⟨List.forall_mem_cons.mpr ⟨he.1, ih.1⟩, ?_⟩
    rw [List.map_cons, he.2, ih.2]

/-- The start among the weighed tasks. -/
def start (tasks : TaskTable y) (t : Tables) (order : List String) : Option (String × Weight) :=
  (order.map fun key => (key, weight tasks t key)).argmax Prod.snd

/-- What the loop makes of the start. -/
def follow (tasks : TaskTable y) (t : Tables) (fuel : ℕ) :
    Option (String × Weight) → Option (List String)
  | none => some []
  | some (current, _) => Walks.walk (nextDependency tasks t) fuel current

theorem criticalPath_of_weighed {fuel : ℕ} {weighted : List (String × Weight)}
    (h : order.mapM (weigh tasks t) = .ok weighted) : criticalPath tasks t fuel order =
      .ok (follow tasks t fuel (weighted.argmax Prod.snd)) := by
  rw [criticalPath, h]
  change (match weighted.argmax Prod.snd with
    | none => Except.ok (some [])
    | some (current, _) => .ok (Walks.walk (nextDependency tasks t) fuel current)) = _
  cases weighted.argmax Prod.snd <;> rfl

theorem criticalPath_ok_iff {fuel : ℕ} {r : Option (List String)} :
    criticalPath tasks t fuel order = .ok r ↔
      (∀ key ∈ order, ∃ n, priority tasks key = .ok n) ∧
        r = follow tasks t fuel (start tasks t order) := by
  constructor
  · intro h
    cases hweighed : order.mapM (weigh tasks t) with
    | error e =>
      rw [criticalPath, hweighed] at h
      cases h
    | ok weighted =>
      obtain ⟨hnumeric, rfl⟩ :=
        weighed_all (Ensures.mapM (fun key _ => weigh_ensures) weighted hweighed)
      rw [criticalPath_of_weighed hweighed] at h
      exact ⟨hnumeric, (Except.ok.inj h).symm⟩
  · rintro ⟨hnumeric, rfl⟩
    obtain ⟨weighted, hweighed, hforall⟩ :=
      Commits.mapM fun key hkey => weigh_commits (hnumeric key hkey)
    rw [criticalPath_of_weighed hweighed, (weighed_all hforall).2, start]

theorem start_weightiest (horder : order.Perm (remaining tasks)) {w : Weight}
    (h : start tasks t order = some (a, w)) : Weightiest tasks t a := by
  obtain ⟨hmem, hmax, _⟩ := List.argmax_eq_some_iff.mp h
  obtain ⟨key, hkey, heq⟩ := List.mem_map.mp hmem
  obtain ⟨rfl, rfl⟩ := Prod.mk.inj heq
  refine ⟨horder.subset hkey, fun other hother => ?_⟩
  exact hmax _ (List.mem_map_of_mem (horder.symm.subset hother))

theorem start_of_perm (hne : order ≠ []) (horder : order.Perm (remaining tasks)) :
    ∃ a w, start tasks t order = some (a, w) ∧ Weightiest tasks t a := by
  cases hstart : start tasks t order with
  | none =>
    have hnil := List.argmax_eq_none.mp hstart
    exact absurd (List.map_eq_nil_iff.mp hnil) hne
  | some e => exact ⟨e.1, e.2, rfl, start_weightiest horder hstart⟩

/-- Of the weightiest tasks the set's order decides. -/
theorem start_cons (ha : Weightiest tasks t a)
    (horder : (a :: order).Perm (remaining tasks)) :
    start tasks t (a :: order) = some (a, weight tasks t a) := by
  refine List.argmax_eq_some_iff.mpr ⟨List.mem_cons_self, fun e he => ?_, fun e _ _ => ?_⟩
  · obtain ⟨key, hkey, rfl⟩ := List.mem_map.mp he
    exact ha.2 key (horder.subset hkey)
  · exact (@List.idxOf_cons_self (String × Weight) _ instBEqOfDecidableEq _ _).le.trans
      (Nat.zero_le _)

theorem exists_weightiest (h : remaining tasks ≠ []) : ∃ a, Weightiest tasks t a := by
  obtain ⟨a, _, _, ha⟩ := start_of_perm (t := t) h (.refl _)
  exact ⟨a, ha⟩

/-- The walk has every property of a critical path. -/
theorem isCriticalPath_of_ends {path : List String}
    (h : Walks.Ends (nextDependency tasks t) a path) : IsCriticalPath tasks t path where
  nodup := h.nodup
  direct := h.isChain.imp fun _ _ hstep => List.mem_of_find?_eq_some hstep
  closed b hb c hc hremaining := by
    have hstop := List.find?_eq_none.mp (h.last hb) c hc
    exact absurd (decide_eq_true hremaining) hstop

/-- Every weightiest task can be the first that the set gives. -/
theorem walk_of_sound {path : List String} (hpath : ∀ order, order.Perm (remaining tasks) →
    ∃ fuel, criticalPath tasks t fuel order = .ok (some path)) (ha : Weightiest tasks t a) :
    Walks.Ends (nextDependency tasks t) a path := by
  have horder : (a :: (remaining tasks).erase a).Perm (remaining tasks) :=
    (List.perm_cons_erase ha.1).symm
  obtain ⟨fuel, hfuel⟩ := hpath _ horder
  obtain ⟨_, hwalk⟩ := criticalPath_ok_iff.mp hfuel
  rw [start_cons ha horder] at hwalk
  exact Walks.ends_of_walk hwalk.symm

/-- The critical path is sound if and only if the priorities are numbers, the weightiest task is
the only one, and no cycle of first remaining dependencies can be reached from it. -/
theorem criticalPathSound_iff : CriticalPathSound tasks t ↔ Unambiguous tasks t := by
  constructor
  · rintro ⟨path, _, hpath⟩
    refine ⟨fun key hkey => ?_, fun a b ha hb => ?_, fun a ha => (walk_of_sound hpath ha).acyclic⟩
    · obtain ⟨fuel, hfuel⟩ := hpath _ (.refl _)
      exact (criticalPath_ok_iff.mp hfuel).1 key hkey
    · have hfirst := (walk_of_sound hpath ha).start_mem
      exact Option.some.inj (hfirst.symm.trans (walk_of_sound hpath hb).start_mem)
  · intro h
    have hnumeric {order : List String} (horder : order.Perm (remaining tasks)) :
        ∀ key ∈ order, ∃ n, priority tasks key = .ok n :=
      fun key hkey => h.numeric key (horder.subset hkey)
    by_cases hremaining : remaining tasks = []
    · refine ⟨[], ⟨List.nodup_nil, .nil, fun a ha => (nomatch ha)⟩, fun order horder => ⟨0, ?_⟩⟩
      refine criticalPath_ok_iff.mpr ⟨hnumeric horder, ?_⟩
      rw [hremaining] at horder
      rw [horder.eq_nil]
      rfl
    · obtain ⟨a, ha⟩ := exists_weightiest (t := t) hremaining
      have hclosed (b c : String) (hbc : nextDependency tasks t b = some c) :
          c ∈ {key | key ∈ remaining tasks} := by
        have hfound := List.find?_some hbc
        exact of_decide_eq_true hfound
      obtain ⟨path, hends⟩ :=
        Walks.ends_of_acyclic (List.finite_toSet (remaining tasks)) hclosed (h.acyclic a ha)
      obtain ⟨fuel, hfuel⟩ := Walks.walk_of_ends hends
      refine ⟨path, isCriticalPath_of_ends hends, fun order horder => ⟨fuel, ?_⟩⟩
      refine criticalPath_ok_iff.mpr ⟨hnumeric horder, ?_⟩
      have hne : order ≠ [] := fun hnil => by
        rw [hnil] at horder
        exact hremaining horder.nil_eq.symm
      obtain ⟨b, w, hstart, hb⟩ := start_of_perm (t := t) hne horder
      rw [hstart, h.unique b a hb ha]
      exact hfuel.symm

/-- A planned task that depends on itself. -/
def loopSnapshot : Snapshot where
  ready := []
  activeClaims := []
  tasks := [[("id", .str "T1"), ("status", .str "planned")]]
  tables :=
    { taskDependencies := [[("task_id", .str "T1"), ("prerequisite_task_id", .str "T1")]]
      ownershipScopes := []
      taskLocks := []
      interfaces := []
      interfaceConsumers := []
      checkpoints := [] }

/-- On a task that depends on itself the loop does not end. -/
theorem self_dependency_never_ends :
    ¬ ∀ (y : Python) (s : Snapshot) (tasks : TaskTable y), s.taskTable y = .ok tasks →
      CriticalPathSound tasks s.tables := by
  intro hclaim
  let tasks := legacyTable Python.plain loopSnapshot
  obtain ⟨path, _, hpath⟩ := hclaim Python.plain loopSnapshot tasks rfl
  have hremaining : remaining tasks = ["T1"] := by decide
  have hstep : nextDependency tasks loopSnapshot.tables "T1" = some "T1" := by decide
  have hstart : Weightiest tasks loopSnapshot.tables "T1" := by
    rw [Weightiest, hremaining]
    refine ⟨List.mem_singleton_self _, fun other hother => ?_⟩
    rw [List.mem_singleton.mp hother]
  exact (walk_of_sound hpath hstart).acyclic _ .refl (.single hstep)

end Soundness

end ProjectControl.Frontier
