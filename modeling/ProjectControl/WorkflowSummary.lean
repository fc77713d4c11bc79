import Mathlib
import ProjectControl.Json

/-! The live part of a workflow view: the bounded summary of it, and the patch artifacts that the
compact coordination view selects. -/

set_option autoImplicit false

namespace ProjectControl.Workflow

section Views

/-- What Python does with texts: `str` of a value, and `casefold`. -/
structure Texts where
  str : Json → String
  casefold : String → String
  str_text : ∀ s, str (.str s) = s
  casefold_empty : casefold "" = ""

structure Lane where
  fields : Dict
  queue : List Dict

structure Run where
  fields : Dict
  lanes : List Lane

/-- The lists of records of a view. -/
inductive Collection
  | firstClassAgents
  | localChildren
  | blockingMessages
  | unresolvedQuestions
  | rendezvous
  | patchArtifacts
  | pendingPatches
  | integrationQueue
  | recoveryNeeded
  deriving DecidableEq

/-- An available workflow view. -/
structure View where
  reason : Json := .null
  revision : Json := .null
  activeRunId : Json
  runs : List Run
  records : Collection → List Dict
  safeParallelGroups : List (List Json) := []

def patchFields : List String :=
  ["id", "workspace_id", "run_id", "lane_id", "task_id", "kind", "artifact_ref", "content_hash",
    "base_commit", "state", "created_at"]

def messageFields : List String :=
  ["id", "run_id", "author_lane_id", "task_id", "kind", "blocking", "state", "revision"]

/-- The fields of a record that the summary shows. -/
def Collection.fields : Collection → List String
  | .firstClassAgents => ["run_id", "lane_id", "role", "task_id", "heartbeat_at",
      "heartbeat_fresh", "context_version", "observable"]
  | .localChildren => ["child_execution_id", "parent_task_id", "parent_lane_id", "state",
      "access_mode"]
  | .blockingMessages => messageFields
  | .unresolvedQuestions => messageFields
  | .rendezvous => ["id", "run_id", "barrier_id", "mode", "quorum", "join_task_id", "state"]
  | .patchArtifacts => patchFields
  | .pendingPatches => patchFields
  | .integrationQueue => ["id", "run_id", "integration_task_id", "integrator_lane_id", "position",
      "state", "conflict"]
  | .recoveryNeeded => ["kind", "id", "task_id", "attempt_id", "reason"]

/-- The states in which nothing more happens. -/
def terminal : List String :=
  ["completed", "complete", "closed", "integrated", "satisfied", "resolved", "cancelled",
    "superseded"]

variable (t : Texts)

/-- Whether the first of two fields that says something says a terminal state. -/
def endedBy (first second : String) (d : Dict) : Bool :=
  t.casefold (t.str ((d.value first).orElse ((d.value second).orElse (.str "")))) ∈ terminal

/-- The test of everything but the active run: `state` before `status`. -/
def ended (d : Dict) : Bool := endedBy t "state" "status" d

end Views

section Summary

variable (t : Texts)

structure LaneSummary where
  fields : Dict
  serialQueue : List Dict
  queueItemsOmitted : ℕ
  dispatch : Option Dict
  workspace : Option Dict

structure RunSummary where
  fields : Dict
  lanes : List LaneSummary
  lanesOmitted : ℕ

structure Summary where
  reason : Json
  revision : Json
  activeRunId : Json
  activeRun : Option RunSummary
  records : Collection → List Dict
  safeParallelGroups : List (List Json)
  counts : Collection → ℕ
  groupCount : ℕ

def laneFields : List String :=
  ["id", "parent_lane_id", "role", "state", "workspace_mode", "context_cursor"]

/-- `_lane`; `worktreeId` is `_worktree_id` of the snapshot. -/
def laneSummary (worktreeId : Dict → Option String) (maxItems : ℕ) (lane : Lane) : LaneSummary where
  fields := lane.fields.pick laneFields
  serialQueue := (lane.queue.take maxItems).map (Dict.pick ["position", "task_id", "state"])
  queueItemsOmitted := lane.queue.length - maxItems
  dispatch := (lane.fields.value "dispatch").fields?.map
    (Dict.pick ["task_id", "heartbeat_at", "heartbeat_fresh", "context_version", "observable"])
  workspace := (lane.fields.value "workspace").fields?.map fun workspace =>
    Dict.pick ["id", "run_id", "lane_id", "repository", "base_commit", "branch", "mode", "state",
      "integration_task_id", "merge_result", "cleanup_eligible"] workspace ++
      (((worktreeId workspace).filter (· ≠ "")).map (fun id => ("worktree_id", Json.str id))).toList

/-- The run whose id the view names as the active one. -/
def View.active (view : View) : Option Run :=
  view.runs.find? (fun run => run.fields.value "id" = view.activeRunId)

def View.liveRun (view : View) : Option Run :=
  view.active.filter (fun run => !endedBy t "status" "state" run.fields)

/-- The text of an id that says something. -/
def idText (v : Json) : Option String := if v.truthy then some (t.str v) else none

def View.liveLanes (view : View) : List Lane :=
  (((view.liveRun t).map Run.lanes).getD []).filter (fun lane => !ended t lane.fields)

def View.liveTasks (view : View) : List String :=
  (view.liveLanes t).flatMap fun lane =>
    (lane.queue.filter (fun item => !ended t item)).filterMap
      (fun item => idText t (item.value "task_id"))

/-- `current` of an actionable summary. -/
def current (view : View) (item : Dict) : Bool :=
  let runId := item.value "run_id"
  let laneId := (item.value "author_lane_id").orElse
    ((item.value "lane_id").orElse (item.value "parent_lane_id"))
  let taskId := (item.value "task_id").orElse (item.value "parent_task_id")
  let tasks := view.liveTasks t
  (runId.isNull || some (t.str runId) =
      (view.liveRun t).bind (fun run => idText t (run.fields.value "id"))) &&
    (laneId.isNull || t.str laneId ∈
      (view.liveLanes t).filterMap (fun lane => idText t (lane.fields.value "id"))) &&
    (taskId.isNull || tasks.isEmpty || t.str taskId ∈ tasks)

/-- A rendezvous with its first arrivals, any other record as it is picked. -/
def shown (maxItems : ℕ) (c : Collection) (item : Dict) : Dict :=
  match c with
  | .rendezvous =>
    let arrivals := match item.value "arrivals" with
      | .arr arrivals => (arrivals.take maxItems).filterMap Json.fields?
      | _ => []
    item.pick c.fields ++ [("arrivals", .arr (arrivals.map fun arrival =>
      .obj (Dict.pick ["lane_id", "task_id", "state", "context_version", "revision"] arrival)))]
  | c => item.pick c.fields

/-- `records`: the first records that are current; a rendezvous is not asked for that. -/
def records (view : View) (maxItems : ℕ) (actionable : Bool) (c : Collection) : List Dict :=
  (((view.records c).take maxItems).filter
    (fun item => !actionable || c = .rendezvous || current t view item)).map (shown maxItems c)

/-- `live` of an actionable summary. -/
def live (items : List Dict) : List Dict := items.filter (fun item => !ended t item)

/-- A lane of an actionable summary, with the live part of its queue. -/
def liveLane (lane : LaneSummary) : LaneSummary :=
  { lane with serialQueue := live t lane.serialQueue, queueItemsOmitted := 0 }

def liveLaneSummaries (lanes : List LaneSummary) : List LaneSummary :=
  (lanes.filter (fun lane => !ended t lane.fields)).map (liveLane t)

def runSummary (worktreeId : Dict → Option String) (maxItems : ℕ) (actionable : Bool) (run : Run) :
    RunSummary :=
  let lanes := (run.lanes.take maxItems).map (laneSummary worktreeId maxItems)
  { fields := run.fields.pick ["id", "root_task_id", "status", "active_charter_version"]
    lanes := if actionable then liveLaneSummaries t lanes else lanes
    lanesOmitted := run.lanes.length - maxItems }

/-- The groups of an actionable summary, left to the shown lanes and their tasks. -/
def liveGroups (activeRun : Option RunSummary) (groups : List (List Json)) : List (List Json) :=
  match activeRun with
  | none => groups.filter (fun group => !group.isEmpty)
  | some run =>
    let members := run.lanes.filterMap (fun lane => idText t (lane.fields.value "id")) ++
      run.lanes.flatMap (fun lane => lane.serialQueue.filterMap
        (fun item => idText t (item.value "task_id")))
    (groups.map (fun group => group.filter (fun member => t.str member ∈ members))).filter
      (fun group => !group.isEmpty)

/-- `workflow_summary` of an available view. -/
def workflowSummary (worktreeId : Dict → Option String) (view : View) (maxItems : ℕ)
    (actionable : Bool) : Summary :=
  let activeRun := view.active.map (runSummary t worktreeId maxItems actionable)
  let groups := (view.safeParallelGroups.take maxItems).map (fun group => group.take maxItems)
  { reason := view.reason
    revision := view.revision
    activeRunId := view.activeRunId
    activeRun := activeRun
    records := fun c =>
      let items := records t view maxItems actionable c
      if actionable then live t items else items
    safeParallelGroups := if actionable then liveGroups t activeRun groups else groups
    counts := fun c => (view.records c).length
    groupCount := view.safeParallelGroups.length }

end Summary

section Compact

variable (t : Texts)

/-- A run or lane as the compact coordination view holds it: only `status` is left of a run, only
`state` of a lane. -/
def compactRunFields (run : Run) : Dict :=
  run.fields.pick ["id", "root_task_id", "status", "active_charter_version"]

def compactLaneFields (lane : Lane) : Dict := lane.fields.pick laneFields

/-- The runs and lanes that the compact projection keeps. -/
def compactRuns (view : View) : List Run :=
  ((view.runs.filter (fun run => !ended t (compactRunFields run))).map fun run =>
    ({ fields := compactRunFields run
       lanes := (run.lanes.filter (fun lane => !ended t (compactLaneFields lane))).map fun lane =>
        ⟨compactLaneFields lane, lane.queue.filter (fun item => !ended t item)⟩ } : Run)).filter
    (fun run => !run.lanes.isEmpty)

/-- `live_lanes`, pairs of a run and a lane. -/
def compactLanes (view : View) : List (String × String) :=
  (compactRuns t view).flatMap fun run =>
    run.lanes.map (fun lane => (t.str (run.fields.value "id"), t.str (lane.fields.value "id")))

/-- `live_tasks`. -/
def compactTasks (view : View) : List String :=
  (compactRuns t view).flatMap fun run => run.lanes.flatMap fun lane =>
    lane.queue.filterMap (fun item => idText t (item.value "task_id"))

/-- `relevant_to_live`. -/
def relevantToLive (view : View) (laneKey taskKey : String) (item : Dict) : Bool :=
  let runId := item.value "run_id"
  let laneId := item.value laneKey
  let taskId := item.value taskKey
  (runId.isNull || t.str runId ∈
      (compactRuns t view).filterMap (fun run => idText t (run.fields.value "id"))) &&
    (laneId.isNull || (compactLanes t view).any
      (fun lane => lane.1 = t.str runId && lane.2 = t.str laneId)) &&
    (taskId.isNull || t.str taskId ∈ compactTasks t view) &&
    !(runId.isNull && laneId.isNull && taskId.isNull)

/-- The patch artifacts of the compact coordination view before paging, without filters. -/
def compactPatchArtifacts (view : View) : List Dict :=
  ((view.records .patchArtifacts).map (Dict.pick patchFields)).filter
    (fun item => !ended t item && relevantToLive t view "lane_id" "task_id" item)

end Compact

section Bounding

variable {α : Type} {m : ℕ} {p : α → Bool} {xs : List α}

/-- What satisfies `p` behind the first `m` stands there only if the first `m` all satisfy it. -/
def Fair (m : ℕ) (p : α → Bool) (xs : List α) : Prop :=
  ∀ x ∈ xs.drop m, p x = true → ∀ y ∈ xs.take m, p y = true

/-- Something that satisfies `p` is left out only if `m` such elements are kept. -/
def Complete (m : ℕ) (p : α → Bool) (all kept : List α) : Prop :=
  (kept.filter p).length < (all.filter p).length → m ≤ (kept.filter p).length

theorem filter_take_append_drop (m : ℕ) (p : α → Bool) (xs : List α) :
    (xs.take m).filter p ++ (xs.drop m).filter p = xs.filter p := by
  rw [← List.filter_append, List.take_append_drop]

theorem fair_iff : Fair m p xs ↔
    (xs.drop m).filter p = [] ∨ m ≤ ((xs.take m).filter p).length := by
  constructor
  · intro h
    rcases List.eq_nil_or_concat ((xs.drop m).filter p) with hnil | ⟨front, x, hx⟩
    · exact .inl hnil
    · right
      have hmem : x ∈ (xs.drop m).filter p := by
        rw [hx, List.concat_eq_append]
        exact List.mem_append_right _ List.mem_cons_self
      obtain ⟨hdrop, hpx⟩ := List.mem_filter.mp hmem
      have hall : (xs.take m).filter p = xs.take m := List.filter_eq_self.mpr (h x hdrop hpx)
      have hlong : 0 < (xs.drop m).length := List.length_pos_of_mem hdrop
      rw [List.length_drop] at hlong
      rw [hall, List.length_take]
      omega
  · rintro (hnil | hlong) x hx hpx y hy
    · have hmem := List.mem_filter.mpr ⟨hx, hpx⟩
      rw [hnil] at hmem
      cases hmem
    · have hle : ((xs.take m).filter p).length ≤ (xs.take m).length := List.length_filter_le _ _
      have htake : (xs.take m).length ≤ m := List.length_take_le _ _
      have hall : (xs.take m).filter p = xs.take m :=
        List.filter_sublist.eq_of_length (by omega)
      exact List.filter_eq_self.mp hall y hy

/-- What is kept of the first `m` is complete exactly if the list is fair. -/
theorem complete_iff {kept : List α} (hkept : kept.filter p = (xs.take m).filter p) :
    Complete m p xs kept ↔ Fair m p xs := by
  have hsplit := congrArg List.length (filter_take_append_drop m p xs)
  rw [List.length_append] at hsplit
  rw [Complete, fair_iff, hkept]
  constructor
  · intro h
    rcases Nat.eq_zero_or_pos ((xs.drop m).filter p).length with hzero | hpos
    · exact .inl (List.length_eq_zero_iff.mp hzero)
    · exact .inr (h (by omega))
  · rintro (hnil | hlong) hlt
    · rw [hnil, List.length_nil] at hsplit
      omega
    · exact hlong

/-- Filtering by `a` before the cut gives what filtering by `b` gives before the cut, even for
images under `f`, if `b` depends on the image only: the two agree on the first `m`, and what `b`
finds is fairly placed. -/
theorem map_take_filter_iff {β : Type} {f : α → β} {a : α → Bool} {b : β → Bool} :
    ((xs.take m).filter a).map f = ((xs.map f).filter b).take m ↔
      (∀ x ∈ xs.take m, a x = b (f x)) ∧ Fair m (fun x => b (f x)) xs := by
  have hmap : (xs.map f).filter b = (xs.filter (fun x => b (f x))).map f := by
    rw [List.filter_map]
    rfl
  have hlength (q : α → Bool) : ((xs.take m).filter q).length ≤ m :=
    (List.length_filter_le _ _).trans (List.length_take_le _ _)
  have hsplit := filter_take_append_drop m (fun x => b (f x)) xs
  constructor
  · intro h
    have hsub : ∀ x ∈ xs.take m, a x = true → b (f x) = true := by
      intro x hx hax
      have hmem : f x ∈ ((xs.map f).filter b).take m := by
        rw [← h]
        exact List.mem_map_of_mem (List.mem_filter.mpr ⟨hx, hax⟩)
      exact (List.mem_filter.mp (List.mem_of_mem_take hmem)).2
    have hboth : (xs.take m).filter a = ((xs.take m).filter (fun x => b (f x))).filter a := by
      rw [List.filter_filter]
      refine List.filter_congr (fun x hx => ?_)
      cases hax : a x with
      | false => rfl
      | true =>
        rw [hsub x hx hax]
        rfl
    have hcount := congrArg List.length h
    rw [List.length_map, List.length_take, hmap, List.length_map, ← hsplit,
      List.length_append] at hcount
    have hle := List.length_filter_le a ((xs.take m).filter (fun x => b (f x)))
    rw [← hboth] at hle
    have hm := hlength (fun x => b (f x))
    have heq : (xs.take m).filter a = (xs.take m).filter (fun x => b (f x)) := by
      rw [hboth]
      refine List.filter_sublist.eq_of_length ?_
      rw [← hboth]
      omega
    refine ⟨fun x hx => ?_, fair_iff.mpr ?_⟩
    · have hiff := congrArg (x ∈ ·) heq
      simp only [List.mem_filter, hx, true_and, eq_iff_iff] at hiff
      exact Bool.eq_iff_iff.mpr hiff
    · rw [heq] at hcount
      rcases Nat.eq_zero_or_pos ((xs.drop m).filter (fun x => b (f x))).length with hzero | hpos
      · exact .inl (List.length_eq_zero_iff.mp hzero)
      · right
        omega
  · rintro ⟨hagree, hfair⟩
    rw [List.filter_congr hagree, hmap, ← List.map_take, ← hsplit]
    rcases fair_iff.mp hfair with hnil | hlong
    · rw [hnil, List.append_nil, List.take_of_length_le (hlength _)]
    · rw [List.take_append_of_le_length hlong, List.take_of_length_le (hlength _)]

end Bounding

section Liveness

variable (t : Texts)

/-- A record in the live scope of the view that has not ended. -/
def isLive (view : View) (item : Dict) : Bool := current t view item && !ended t item

/-- The records that an actionable summary shows. -/
def kept (view : View) (m : ℕ) (c : Collection) : List Dict :=
  ((view.records c).take m).filter fun item =>
    (c = .rendezvous || current t view item) && !ended t (shown m c item)

/-- The lanes of a run that an actionable summary shows. -/
def keptLanes (m : ℕ) (run : Run) : List Lane :=
  (run.lanes.take m).filter (fun lane => !ended t (compactLaneFields lane))

/-- The items of a queue that an actionable summary shows. -/
def keptItems (m : ℕ) (queue : List Dict) : List Dict :=
  (queue.take m).filter (fun item => !ended t (item.pick ["position", "task_id", "state"]))

/-- The live items of a queue that are left out are counted. -/
def Counted (m : ℕ) (lane : Lane) (shown : LaneSummary) : Prop :=
  (lane.queue.filter (fun item => !ended t item)).length ≤
    ((keptItems t m lane.queue).filter (fun item => !ended t item)).length +
      shown.queueItemsOmitted

/-- The patch artifacts of an actionable summary are the first ones of the compact coordination
view, and no bound prefers history to what is live. -/
structure LiveScope (worktreeId : Dict → Option String) (view : View) (m : ℕ) : Prop where
  patches : (workflowSummary t worktreeId view m true).records .patchArtifacts =
    (compactPatchArtifacts t view).take m
  records : ∀ c, Complete m (isLive t view) (view.records c) (kept t view m c)
  lanes : ∀ run, view.active = some run →
    Complete m (fun lane => !ended t lane.fields) run.lanes (keptLanes t m run)
  queues : ∀ run, view.active = some run →
    List.Forall₂ (Counted t m) (keptLanes t m run) (runSummary t worktreeId m true run).lanes

/-- The two tests of patch artifacts agree on the first ones that have not ended, live records and
lanes stand behind the first ones only if these are all live, and no live queue item of a shown
lane stands behind the first ones. -/
structure Bounded (view : View) (m : ℕ) : Prop where
  agree : ∀ item ∈ (view.records .patchArtifacts).take m,
    ended t (item.pick patchFields) = false →
      current t view item =
        relevantToLive t view "lane_id" "task_id" (item.pick patchFields)
  patches : Fair m (fun item => !ended t (item.pick patchFields) &&
      relevantToLive t view "lane_id" "task_id" (item.pick patchFields))
    (view.records .patchArtifacts)
  records : ∀ c, Fair m (isLive t view) (view.records c)
  lanes : ∀ run, view.active = some run → Fair m (fun lane => !ended t lane.fields) run.lanes
  queues : ∀ run, view.active = some run → ∀ lane ∈ keptLanes t m run,
    ∀ item ∈ lane.queue.drop m, ended t item = true

variable {t} {worktreeId : Dict → Option String} {view : View} {m : ℕ}

theorem get_pick (fields : List String) (d : Dict) (key : String) :
    (d.pick fields).get key =
      if key ∈ fields then (d.get key).filter (fun v => !v.isNull) else none := by
  induction fields with
  | nil => rfl
  | cons field rest ih =>
    cases hvalue : (d.get field).filter (fun v => !v.isNull) with
    | none =>
      have hpick : d.pick (field :: rest) = d.pick rest := by simp [Dict.pick, hvalue]
      rw [hpick, ih]
      by_cases hkey : key = field
      · subst hkey
        simp [hvalue]
      · simp [hkey]
    | some v =>
      have hpick : d.pick (field :: rest) = (field, v) :: d.pick rest := by
        simp [Dict.pick, hvalue]
      rw [hpick]
      by_cases hkey : key = field
      · subst hkey
        rw [Dict.get_cons_self]
        simp [hvalue]
      · rw [Dict.get_cons_of_ne _ _ hkey, ih]
        simp [hkey]

theorem value_pick (fields : List String) (d : Dict) (key : String) :
    (d.pick fields).value key = if key ∈ fields then d.value key else .null := by
  rw [Dict.value, Dict.value, get_pick]
  split
  · cases hget : d.get key with
    | none => rfl
    | some v => cases v <;> rfl
  · rfl

/-- A record that has ended by what is shown of it, without a `status`, has ended. -/
theorem ended_of_shown {d e : Dict}
    (hstate : d.value "state" = e.value "state" ∨ d.value "state" = .null)
    (hstatus : d.value "status" = .null) (h : ended t d = true) : ended t e = true := by
  have hempty : t.casefold (t.str (.str "")) ∉ terminal := by
    rw [t.str_text, t.casefold_empty]
    decide
  have hnull : Json.orElse .null (.str "") = .str "" := rfl
  rw [ended, endedBy, hstatus, hnull] at h
  rcases hstate with heq | hnone
  · rw [ended, endedBy, ← heq]
    unfold Json.orElse at h ⊢
    cases htruthy : (d.value "state").truthy with
    | true =>
      rw [htruthy] at h
      exact h
    | false =>
      rw [htruthy] at h
      exact absurd (of_decide_eq_true h) hempty
  · rw [hnone] at h
    exact absurd (of_decide_eq_true h) hempty

theorem ended_pick {fields : List String} {d : Dict} (hfields : "status" ∉ fields)
    (h : ended t (d.pick fields) = true) : ended t d = true := by
  refine ended_of_shown ?_ ?_ h
  · rw [value_pick]
    split
    · exact .inl rfl
    · exact .inr rfl
  · rw [value_pick, if_neg hfields]

/-- A field put behind the picked ones changes no other. -/
theorem value_append {d : Dict} {key other : String} {v : Json} (h : key ≠ other) :
    Dict.value (d ++ [(other, v)]) key = d.value key := by
  have hlast : List.lookup key [(other, v)] = none := by
    rw [List.lookup_cons, beq_false_of_ne h]
    rfl
  rw [Dict.value, Dict.value, Dict.get, Dict.get, List.lookup_append, hlast, Option.or_none]

theorem ended_shown {c : Collection} {d : Dict} (h : ended t (shown m c d) = true) :
    ended t d = true := by
  cases c with
  | rendezvous =>
    have hpicked : ended t (d.pick Collection.rendezvous.fields) = true := by
      rw [ended, endedBy, shown, value_append (by decide), value_append (by decide)] at h
      exact h
    exact ended_pick (by decide) hpicked
  | _ => exact ended_pick (by decide) h

/-- What is live is among the kept, as far as it is among the first ones. -/
theorem kept_live (c : Collection) : (kept t view m c).filter (isLive t view) =
    ((view.records c).take m).filter (isLive t view) := by
  rw [kept, List.filter_filter]
  refine List.filter_congr (fun item _ => ?_)
  cases hlive : isLive t view item with
  | false => rfl
  | true =>
    obtain ⟨hcurrent, hended⟩ := Bool.and_eq_true_iff.mp hlive
    have hshown : ended t (shown m c item) = false := by
      by_contra hshown
      rw [ended_shown (Bool.not_eq_false _ ▸ hshown)] at hended
      cases hended
    simp [hcurrent, hshown]

theorem keptLanes_live (run : Run) :
    (keptLanes t m run).filter (fun lane => !ended t lane.fields) =
      (run.lanes.take m).filter (fun lane => !ended t lane.fields) := by
  rw [keptLanes, List.filter_filter]
  refine List.filter_congr (fun lane _ => ?_)
  cases hended : ended t lane.fields with
  | true => rfl
  | false =>
    have hshown : ended t (compactLaneFields lane) = false := by
      by_contra hshown
      rw [ended_pick (by decide) (Bool.not_eq_false _ ▸ hshown)] at hended
      cases hended
    simp [hshown]

theorem keptItems_live (queue : List Dict) :
    (keptItems t m queue).filter (fun item => !ended t item) =
      (queue.take m).filter (fun item => !ended t item) := by
  rw [keptItems, List.filter_filter]
  refine List.filter_congr (fun item _ => ?_)
  cases hended : ended t item with
  | true => rfl
  | false =>
    have hshown : ended t (item.pick ["position", "task_id", "state"]) = false := by
      by_contra hshown
      rw [ended_pick (by decide) (Bool.not_eq_false _ ▸ hshown)] at hended
      cases hended
    simp [hshown]

/-- The records of an actionable summary are those that are kept, as they are shown. -/
theorem summary_records (c : Collection) :
    (workflowSummary t worktreeId view m true).records c =
      (kept t view m c).map (shown m c) := by
  have hrecords : (workflowSummary t worktreeId view m true).records c =
      live t (records t view m true c) := rfl
  rw [hrecords, live, records, List.filter_map, List.filter_filter, kept]
  refine congrArg _ (List.filter_congr (fun item _ => ?_))
  simp [Bool.and_comm]

theorem summary_lanes (run : Run) : (runSummary t worktreeId m true run).lanes =
    (keptLanes t m run).map (fun lane => liveLane t (laneSummary worktreeId m lane)) := by
  have hlanes : (runSummary t worktreeId m true run).lanes =
      liveLaneSummaries t ((run.lanes.take m).map (laneSummary worktreeId m)) := rfl
  rw [hlanes, liveLaneSummaries, List.filter_map, List.map_map]
  rfl

theorem counted_iff (lane : Lane) :
    Counted t m lane (liveLane t (laneSummary worktreeId m lane)) ↔
      ∀ item ∈ lane.queue.drop m, ended t item = true := by
  have hsplit := congrArg List.length
    (filter_take_append_drop m (fun item => !ended t item) lane.queue)
  rw [List.length_append] at hsplit
  have hnone : (liveLane t (laneSummary worktreeId m lane)).queueItemsOmitted = 0 := rfl
  rw [Counted, keptItems_live, hnone, ← hsplit, Nat.add_zero]
  constructor
  · intro h item hitem
    have hzero : ((lane.queue.drop m).filter (fun item => !ended t item)).length = 0 := by omega
    have hout := List.filter_eq_nil_iff.mp (List.length_eq_zero_iff.mp hzero) item hitem
    simpa using hout
  · intro h
    have hnil : (lane.queue.drop m).filter (fun item => !ended t item) = [] := by
      refine List.filter_eq_nil_iff.mpr (fun item hitem => ?_)
      simp [h item hitem]
    rw [hnil, List.length_nil, Nat.add_zero]

/-- The patch artifacts agree with the coordination view exactly if the tests do on the first ones
and the live ones are fairly placed. -/
theorem patches_iff : (workflowSummary t worktreeId view m true).records .patchArtifacts =
      (compactPatchArtifacts t view).take m ↔
    (∀ item ∈ (view.records .patchArtifacts).take m, ended t (item.pick patchFields) = false →
      current t view item = relevantToLive t view "lane_id" "task_id" (item.pick patchFields)) ∧
    Fair m (fun item => !ended t (item.pick patchFields) &&
        relevantToLive t view "lane_id" "task_id" (item.pick patchFields))
      (view.records .patchArtifacts) := by
  rw [summary_records, kept, compactPatchArtifacts]
  refine map_take_filter_iff.trans (and_congr_left' ?_)
  refine forall₂_congr (fun item _ => ?_)
  have hshown : shown m .patchArtifacts item = item.pick patchFields := rfl
  rw [hshown]
  cases ended t (item.pick patchFields) <;> simp

/-- For every workflow view and bound, whatever runs are active: the actionable summary keeps to
the live scope exactly if the view is bounded. -/
theorem live_scope_iff (t : Texts) (worktreeId : Dict → Option String) (view : View) (m : ℕ) :
    LiveScope t worktreeId view m ↔ Bounded t view m := by
  constructor
  · intro h
    obtain ⟨hagree, hpatches⟩ := patches_iff.mp h.patches
    refine ⟨hagree, hpatches, fun c => (complete_iff (kept_live c)).mp (h.records c),
      fun run hrun => (complete_iff (keptLanes_live run)).mp (h.lanes run hrun), ?_⟩
    intro run hrun lane hlane
    have hqueues := h.queues run hrun
    rw [summary_lanes, List.forall₂_map_right_iff, List.forall₂_same] at hqueues
    exact (counted_iff lane).mp (hqueues lane hlane)
  · intro h
    refine ⟨patches_iff.mpr ⟨h.agree, h.patches⟩,
      fun c => (complete_iff (kept_live c)).mpr (h.records c),
      fun run hrun => (complete_iff (keptLanes_live run)).mpr (h.lanes run hrun), ?_⟩
    intro run hrun
    rw [summary_lanes, List.forall₂_map_right_iff, List.forall₂_same]
    exact fun lane hlane => (counted_iff lane).mpr (h.queues run hrun lane hlane)

/-- The active run is the only one that has not ended. -/
def View.OnlyActive (t : Texts) (view : View) : Prop :=
  ∃ run, view.active = some run ∧ endedBy t "status" "state" run.fields = false ∧
    ∀ other ∈ view.runs, endedBy t "status" "state" other.fields = false → other = run

/-- The texts of strings in lower case. -/
def plainStr : Json → String
  | .str s => s
  | _ => "None"

theorem plainStr_str (s : String) : plainStr (.str s) = s := rfl

def plainTexts : Texts := ⟨plainStr, id, plainStr_str, rfl⟩

def activeRun : Run :=
  ⟨[("id", .str "run-1"), ("status", .str "active")],
    [⟨[("id", .str "lane-1"), ("state", .str "active")],
      [[("task_id", .str "task-1"), ("state", .str "ready")]]⟩]⟩

/-- A superseded patch artifact stands before one of the active task. -/
def supersededFirst : View where
  activeRunId := .str "run-1"
  runs := [activeRun]
  records
    | .patchArtifacts => [
      [("id", .str "patch-1"), ("run_id", .str "run-1"), ("state", .str "superseded")],
      [("id", .str "patch-2"), ("run_id", .str "run-1"), ("lane_id", .str "lane-1"),
        ("task_id", .str "task-1"), ("state", .str "pending")]]
    | _ => []

/-- The summary of one item is empty, although the coordination view selects a live patch. -/
theorem history_hides_a_live_patch :
    supersededFirst.OnlyActive plainTexts ∧
      ¬ LiveScope plainTexts (fun _ => none) supersededFirst 1 := by
  refine ⟨⟨activeRun, rfl, by decide, fun other hother _ => List.mem_singleton.mp hother⟩, ?_⟩
  intro h
  have hcount := congrArg List.length h.patches
  exact absurd hcount (by decide)

end Liveness

end ProjectControl.Workflow
