import Mathlib
import ProjectControl.Cursors
import ProjectControl.EnvelopeBudget
import ProjectControl.Paging

/-! The pages of `coordination_view` and `history_trace`: which items a page holds, the cursor it
is answered with, and what is left of it within the budget of the detail. -/

set_option autoImplicit false

namespace ProjectControl.Reads

open Cursors Paging

section Coordination

/-- The collections that are paged. -/
inductive Section
  | runs
  | roles
  | laneQueues
  | dispatches
  | messages
  | contextFragments
  | rendezvous
  | workspaces
  | firstClassAgents
  | subordinateLocalChildren
  | patchArtifacts
  | integrationQueue
  | recoveryNeeded
  | safeParallelGroups
  deriving DecidableEq

def Section.name : Section → String
  | .runs => "runs"
  | .roles => "roles"
  | .laneQueues => "lane_queues"
  | .dispatches => "dispatches"
  | .messages => "messages"
  | .contextFragments => "context_fragments"
  | .rendezvous => "rendezvous"
  | .workspaces => "workspaces"
  | .firstClassAgents => "first_class_agents"
  | .subordinateLocalChildren => "subordinate_local_children"
  | .patchArtifacts => "patch_artifacts"
  | .integrationQueue => "integration_queue"
  | .recoveryNeeded => "recovery_needed"
  | .safeParallelGroups => "safe_parallel_groups"

/-- A compact view leaves four collections out. -/
def sections : Detail → List Section
  | .compact => [.runs, .dispatches, .messages, .contextFragments, .rendezvous, .workspaces,
      .patchArtifacts, .integrationQueue, .recoveryNeeded, .safeParallelGroups]
  | _ => [.runs, .roles, .laneQueues, .dispatches, .messages, .contextFragments, .rendezvous,
      .workspaces, .firstClassAgents, .subordinateLocalChildren, .patchArtifacts,
      .integrationQueue, .recoveryNeeded, .safeParallelGroups]

/-- `BUDGETS` of the coordination service. -/
def coordinationBudget : Detail → ℕ
  | .compact => 24 * 1024
  | .standard => 48 * 1024
  | .expanded => 96 * 1024

/-- A request and what the snapshot holds for it: the workflow view, and its collections after
the filters of the request. No list is longer than lists can be. -/
structure CoordinationRead where
  request : CoordinationRequest
  workspaceId : String
  revision : Json
  fingerprint : Json
  activeRunId : Json
  collections : Section → List Json
  length_lt : ∀ s, (collections s).length < 2 ^ 63
  decisions : List Dict
  interfaces : List Dict
  head : SnapshotHead
  todoWarnings : List String

variable (platform : Cursors.Platform) (str : Values.Value → String) (p : Platform)

def CoordinationRead.query (r : CoordinationRead) : Query :=
  .coordination r.request r.workspaceId (Values.ofJson r.revision)
    (Values.ofJson r.fingerprint)

def enriched (fields : List String) (item : Dict) : Json :=
  .obj (put (Dict.pick fields item) "authority" (.str "durable_export_enrichment"))

def decision (item : Dict) : Json :=
  enriched ["id", "title", "value", "updated_at", "revision"] item

def interface (item : Dict) : Json :=
  enriched ["id", "owner_task_id", "state", "version", "content_hash", "revision"] item

/-- Whether a collection goes on behind the page. -/
def CoordinationRead.goesOn (r : CoordinationRead) (offset : ℕ) : Bool :=
  (sections r.request.detail).any fun s => offset + r.request.maxItems < (r.collections s).length

def CoordinationRead.next (r : CoordinationRead) (offset : ℕ) : Json :=
  if r.goesOn offset then
    .str (encodeCursor platform .coordination "coordination_view" (r.query.identity platform str)
      ((offset + r.request.maxItems : ℕ) : ℤ))
  else .null

def CoordinationRead.ranking (r : CoordinationRead) (offset : ℕ) : Json :=
  let counts (count : Section → ℕ) : Json :=
    .obj ((sections r.request.detail).map fun s => (s.name, .num (count s)))
  .obj [("offset", .num offset), ("max_items_per_section", .num r.request.maxItems),
    ("counts_considered", counts fun s => (r.collections s).length),
    ("counts_returned", counts fun s => (slice (r.collections s) offset r.request.maxItems).length)]

/-- What a compact view does not show: empty values. -/
def shownCompact (e : String × Json) : Bool :=
  e.1 = "active_run_id" || !(e.2 = .arr [] || e.2 = .obj [] || e.2 = .null)

/-- The data of the page at an offset. -/
def CoordinationRead.data (r : CoordinationRead) (offset : ℕ) : Dict :=
  let size := r.request.maxItems
  let paged := (sections r.request.detail).map fun s =>
    (s.name, Json.arr (slice (r.collections s) offset size))
  let start : Dict := [("available", .bool true), ("authority", .str "todo_semantic_workflow"),
    ("revision", r.revision), ("active_run_id", r.activeRunId)]
  let finish : Dict := [("ranking", r.ranking offset),
    ("continuation_cursor", r.next platform str offset)]
  if r.request.detail = .compact then (start ++ paged ++ finish).filter shownCompact
  else start ++ paged ++ [("decisions", .arr ((slice r.decisions offset size).map decision)),
    ("interfaces", .arr ((slice r.interfaces offset size).map interface))] ++ finish

def CoordinationRead.whole (r : CoordinationRead) (offset : ℕ) : ToolEnvelope :=
  envelope "coordination_view" r.head (r.data platform str offset) r.todoWarnings

/-- A request is refused for its cursor, or fails while it is fitted to its budget. -/
inductive ReadFault
  | cursor (fault : Cursors.Fault)
  | budget (fault : Fault)

/-- The offset of a request, and its answer. -/
def offsetOf (q : Query) (continuationCursor : Option String) : Except ReadFault ℕ :=
  match decodeCursor platform q.codec q.tool (q.identity platform str)
      (continuationCursor.getD "") with
  | .ok n => .ok n.toNat
  | .error fault => .error (.cursor fault)

def fitted (budgetBytes : ℕ) (essentialDataKeys : List String) (e : ToolEnvelope) :
    Except ReadFault ToolEnvelope :=
  match boundedEnvelope p budgetBytes e essentialDataKeys none with
  | .ok e => .ok e
  | .error fault => .error (.budget fault)

def CoordinationRead.view (r : CoordinationRead) (continuationCursor : Option String) :
    Except ReadFault ToolEnvelope := do
  let offset ← offsetOf platform str r.query continuationCursor
  fitted p (coordinationBudget r.request.detail)
    ["continuation_cursor", "revision", "active_run_id"] (r.whole platform str offset)

/-- What a caller goes on with: a missing cursor is no cursor. -/
def nextCursor (e : ToolEnvelope) : Option (Option String) :=
  match Dict.get e.data "continuation_cursor" with
  | some (.str cursor) => some (some cursor)
  | _ => none

def items (name : String) (e : ToolEnvelope) : List Json :=
  match Dict.get e.data name with
  | some (.arr items) => items
  | _ => []

end Coordination

section History

/-- `BUDGETS` of the history service. -/
def historyBudget : Detail → ℕ
  | .compact => 16 * 1024
  | .standard => 48 * 1024
  | .expanded => 96 * 1024

/-- A request and what the snapshot holds for it: the selected events in their order. -/
structure HistoryRead where
  request : HistoryRequest
  revision : Json
  resolution : Json
  ordered : List Dict
  length_lt : ordered.length < 2 ^ 63
  rawEventCount : ℕ
  noiseOmitted : ℕ
  head : SnapshotHead
  todoWarnings : List String

variable (platform : Cursors.Platform) (str : Values.Value → String) (p : Platform)

def HistoryRead.query (r : HistoryRead) : Query := .history r.request (Values.ofJson r.revision)

def HistoryRead.selected (r : HistoryRead) (offset : ℕ) : List Dict :=
  slice r.ordered offset r.request.maxEvents

/-- `page`: the selected events, and what is said of them. -/
def HistoryRead.pagination (r : HistoryRead) (offset : ℕ) : Dict :=
  let nextOffset := offset + (r.selected offset).length
  [("items_considered", .num r.ordered.length),
    ("items_returned", .num (r.selected offset).length), ("offset", .num offset),
    ("omitted_count", .num (r.ordered.length - nextOffset : ℕ)),
    ("continuation_cursor", if nextOffset < r.ordered.length then
      .str (encodeCursor platform .retrieval "history_trace" (r.query.identity platform str)
        nextOffset) else .null)]

def HistoryRead.unsupported (r : HistoryRead) (offset : ℕ) : List Json :=
  if (r.selected offset).any fun item => (Dict.value item "causal_relationship").truthy then []
  else [.obj [("authority_label", .str "missing_evidence"), ("kind", .str "causation"),
    ("reason", .str
      "no_explicit_causal_reference; temporal_adjacency_not_presented_as_causation")]]

def HistoryRead.data (r : HistoryRead) (offset : ℕ) : Dict :=
  [("subject", .str r.request.subject), ("resolution", r.resolution),
    ("events", .arr ((r.selected offset).map .obj)),
    ("causal_relationship_policy",
      .str "only_explicit_recorded_references_are_causal; ordering_alone_is_not_rationale"),
    ("missing_evidence", .arr (r.unsupported offset)),
    ("coalescing", .obj [("raw_event_count", .num r.rawEventCount),
      ("administrative_or_heartbeat_events_omitted", .num r.noiseOmitted)]),
    ("pagination", .obj (r.pagination platform str offset)),
    ("provenance", .obj [("event_log", .str "todo_readonly_export"),
      ("operational_state", .str "todo_semantic_workflow"),
      ("task_semantics", .str "todo_semantic_state"),
      ("git", .str "git_identity_or_exported_commit_metadata")])]

def HistoryRead.whole (r : HistoryRead) (offset : ℕ) : ToolEnvelope :=
  let unavailable := if r.ordered.isEmpty then ["history_evidence_unavailable"] else []
  envelope "history_trace" r.head (r.data platform str offset)
    (r.todoWarnings ++ unavailable).eraseDups

def HistoryRead.trace (r : HistoryRead) (continuationCursor : Option String) :
    Except ReadFault ToolEnvelope := do
  let offset ← offsetOf platform str r.query continuationCursor
  fitted p (historyBudget r.request.detail) ["pagination"] (r.whole platform str offset)

def nextPage (e : ToolEnvelope) : Option (Option String) :=
  match Dict.get e.data "pagination" with
  | some (.obj pagination) =>
    match Dict.get pagination "continuation_cursor" with
    | some (.str cursor) => some (some cursor)
    | _ => none
  | _ => none

end History

section Lossless

variable (platform : Cursors.Platform) (str : Values.Value → String) (p : Platform)

/-- The pages from the first one to one without a cursor hold every item of every collection, in
its order, and of the decisions and interfaces where the detail shows them. -/
def CoordinationRead.Lossless (r : CoordinationRead) : Prop :=
  ∃ pages, Follows (r.view platform str p) nextCursor none pages ∧
    (∀ s ∈ sections r.request.detail, pages.flatMap (items s.name) = r.collections s) ∧
    (r.request.detail ≠ .compact →
      pages.flatMap (items "decisions") = r.decisions.map decision ∧
      pages.flatMap (items "interfaces") = r.interfaces.map interface)

def HistoryRead.Lossless (r : HistoryRead) : Prop :=
  ∃ pages, Follows (r.trace platform str p) nextPage none pages ∧
    pages.flatMap (items "events") = r.ordered.map .obj

/-- The length of the longest collection. -/
def CoordinationRead.longest (r : CoordinationRead) : ℕ :=
  ((sections r.request.detail).map fun s => (r.collections s).length).foldr max 0

def CoordinationRead.last (r : CoordinationRead) : ℕ := lastPage r.longest r.request.maxItems

def HistoryRead.last (r : HistoryRead) : ℕ := lastPage r.ordered.length r.request.maxEvents

/-- No page is larger than its budget. -/
def CoordinationRead.Fits (r : CoordinationRead) : Prop :=
  ∀ k ≤ r.last,
    (r.whole platform str (k * r.request.maxItems)).Fits (coordinationBudget r.request.detail)

def HistoryRead.Fits (r : HistoryRead) : Prop :=
  ∀ k ≤ r.last, (r.whole platform str (k * r.request.maxEvents)).Fits (historyBudget r.request.detail)

/-- The decisions and interfaces that are shown are no longer than the pages go on. -/
def CoordinationRead.Reached (r : CoordinationRead) : Prop :=
  r.request.detail = .compact ∨
    r.decisions.length ≤ (r.last + 1) * r.request.maxItems ∧
      r.interfaces.length ≤ (r.last + 1) * r.request.maxItems

/-- The cursor that the page of a number is asked for with. -/
def cursorAt (q : Query) (size : ℕ) : ℕ → Option String
  | 0 => none
  | k + 1 => some (encodeCursor platform q.codec q.tool (q.identity platform str)
      (((k + 1) * size : ℕ) : ℤ))

variable {platform str p}

theorem bind_offsetOf (q : Query) {size k : ℕ} (hk : k * size < 2 ^ 63)
    (f : ℕ → Except ReadFault ToolEnvelope) :
    (offsetOf platform str q (cursorAt platform str q size k) >>= f) = f (k * size) := by
  have hoffset : offsetOf platform str q (cursorAt platform str q size k) = .ok (k * size) := by
    cases k with
    | zero =>
      rw [Nat.zero_mul]
      rfl
    | succ k =>
      unfold offsetOf cursorAt
      rw [Option.getD_some, decodeCursor_document (Values.short_of_lt hk),
        if_pos ⟨rfl, .inr rfl, rfl⟩]
      rfl
  rw [hoffset]
  rfl

/-- A page begins before the end of the list, or with it. -/
theorem page_lt {n size k : ℕ} (hsize : 0 < size) (hk : k ≤ lastPage n size) (hn : n < 2 ^ 63) :
    k * size < 2 ^ 63 := by
  cases k with
  | zero => omega
  | succ k =>
    have hlt := (lt_lastPage_iff hsize).mp hk
    rw [Nat.succ_mul]
    omega

theorem fitted_of_fits {e : ToolEnvelope} {budgetBytes : ℕ} (h : e.Fits budgetBytes)
    (essentialDataKeys : List String) : fitted p budgetBytes essentialDataKeys e = .ok e := by
  rw [fitted, boundedEnvelope_of_fits p budgetBytes h]

theorem lookup_filter {d : Dict} (hkeys : (d.map Prod.fst).Nodup) (shown : String × Json → Bool)
    (key : String) :
    Dict.get (d.filter shown) key = (Dict.get d key).filter fun v => shown (key, v) := by
  induction d with
  | nil => rfl
  | cons e d ih =>
    obtain ⟨k, v⟩ := e
    rw [List.map_cons, List.nodup_cons] at hkeys
    obtain ⟨hk, hrest⟩ := hkeys
    by_cases heq : key = k
    · subst heq
      rw [Dict.get_cons_self, List.filter_cons]
      cases hshown : shown (key, v) with
      | true =>
        rw [if_pos rfl, Dict.get_cons_self]
        exact (Option.filter_some_pos (p := fun v => shown (key, v)) hshown).symm
      | false =>
        have hmissing : Dict.get d key = none := List.lookup_eq_none_iff.mpr fun e he =>
          bne_iff_ne.mpr fun heq => hk (List.mem_map.mpr ⟨e, he, heq.symm⟩)
        rw [if_neg (by simp), ih hrest, hmissing]
        exact (Option.filter_some_neg (p := fun v => shown (key, v)) hshown).symm
    · rw [Dict.get_cons_of_ne d v heq, ← ih hrest, List.filter_cons]
      split
      · exact Dict.get_cons_of_ne _ v heq
      · rfl

theorem Section.name_injective : Function.Injective Section.name := by
  intro s s' h
  cases s <;> cases s' <;> first | rfl | exact absurd h (by decide)

theorem get_section (f : Section → Json) {s : Section} {shown : List Section} (hs : s ∈ shown)
    {start : Dict} (hstart : Dict.get start s.name = none) (rest : Dict) :
    Dict.get (start ++ shown.map (fun s => (s.name, f s)) ++ rest) s.name = some (f s) := by
  have hmap : Dict.get (shown.map fun s => (s.name, f s)) s.name = some (f s) := by
    induction shown with
    | nil => cases hs
    | cons s' shown ih =>
      rw [List.map_cons]
      by_cases heq : s = s'
      · rw [heq]
        exact Dict.get_cons_self _ _ _
      · rw [Dict.get_cons_of_ne _ _ fun hname => heq (Section.name_injective hname)]
        exact ih ((List.mem_cons.mp hs).resolve_left heq)
  unfold Dict.get at hstart hmap ⊢
  rw [List.lookup_append, List.lookup_append, hstart, hmap]
  rfl

theorem CoordinationRead.keys_nodup (r : CoordinationRead) (ranking next : Json)
    (f : Section → Json) :
    ((([("available", .bool true), ("authority", .str "todo_semantic_workflow"),
        ("revision", r.revision), ("active_run_id", r.activeRunId)] ++
      (sections .compact).map (fun s => (s.name, f s)) ++
      [("ranking", ranking), ("continuation_cursor", next)] : Dict)).map Prod.fst).Nodup := by
  have hnames : ["available", "authority", "revision", "active_run_id", "runs", "dispatches",
      "messages", "context_fragments", "rendezvous", "workspaces", "patch_artifacts",
      "integration_queue", "recovery_needed", "safe_parallel_groups", "ranking",
      "continuation_cursor"].Nodup := by decide
  exact hnames

/-- What is no collection stands before or behind them. -/
theorem get_other (f : Section → Json) (shown : List Section) {key : String}
    (hkey : ∀ s : Section, key ≠ s.name) (start rest : Dict) :
    Dict.get (start ++ shown.map (fun s => (s.name, f s)) ++ rest) key =
      (Dict.get start key).or (Dict.get rest key) := by
  have hmap : Dict.get (shown.map fun s => (s.name, f s)) key = none :=
    List.lookup_eq_none_iff.mpr fun e he => by
      obtain ⟨s, -, rfl⟩ := List.mem_map.mp he
      exact bne_iff_ne.mpr (hkey s)
  unfold Dict.get at hmap ⊢
  rw [List.lookup_append, List.lookup_append, hmap, Option.or_none]

theorem eq_nil_of_not_shown {key : String} {items : List Json}
    (h : shownCompact (key, .arr items) = false) : items = [] := by
  by_contra hne
  have hitems : Json.arr items ≠ .arr [] := fun heq => hne (Json.arr.inj heq)
  simp [shownCompact, hitems] at h

theorem CoordinationRead.get_page (r : CoordinationRead) {s : Section}
    (hs : s ∈ sections r.request.detail) (offset : ℕ) :
    Dict.get (r.data platform str offset) s.name =
      if r.request.detail = .compact then
        (some (.arr (slice (r.collections s) offset r.request.maxItems))).filter
          fun v => shownCompact (s.name, v)
      else some (.arr (slice (r.collections s) offset r.request.maxItems)) := by
  have hstart : Dict.get [("available", .bool true), ("authority", .str "todo_semantic_workflow"),
      ("revision", r.revision), ("active_run_id", r.activeRunId)] s.name = none := by
    cases s <;> rfl
  have hget := get_section (fun s => .arr (slice (r.collections s) offset r.request.maxItems)) hs
    hstart
  unfold data
  split
  · next hcompact =>
    have hkeys := r.keys_nodup (r.ranking offset) (r.next platform str offset) fun s =>
      .arr (slice (r.collections s) offset r.request.maxItems)
    rw [← hcompact] at hkeys
    rw [lookup_filter hkeys, hget]
  · rw [List.append_assoc, hget]

/-- The page of a collection is in the data, or is empty. -/
theorem CoordinationRead.items_section (r : CoordinationRead) {s : Section}
    (hs : s ∈ sections r.request.detail) (offset : ℕ) :
    items s.name (r.whole platform str offset) =
      slice (r.collections s) offset r.request.maxItems := by
  unfold items
  change (match Dict.get (r.data platform str offset) s.name with
    | some (.arr items) => items
    | _ => []) = _
  rw [r.get_page hs]
  generalize slice (r.collections s) offset r.request.maxItems = page
  cases r.request.detail with
  | compact =>
    rw [if_pos rfl, Option.filter_some]
    cases hshown : shownCompact (s.name, .arr page) with
    | true => rfl
    | false => exact (eq_nil_of_not_shown hshown).symm
  | standard => rfl
  | expanded => rfl

theorem CoordinationRead.get_cursor (r : CoordinationRead) (offset : ℕ) :
    Dict.get (r.data platform str offset) "continuation_cursor" =
      if r.request.detail = .compact then (some (r.next platform str offset)).filter
        fun v => shownCompact ("continuation_cursor", v)
      else some (r.next platform str offset) := by
  have hkey (s : Section) : "continuation_cursor" ≠ s.name := by cases s <;> decide
  unfold data
  split
  · next hcompact =>
    have hkeys := r.keys_nodup (r.ranking offset) (r.next platform str offset) fun s =>
      .arr (slice (r.collections s) offset r.request.maxItems)
    rw [← hcompact] at hkeys
    rw [lookup_filter hkeys, get_other _ _ hkey]
    rfl
  · rw [List.append_assoc, get_other _ _ hkey]
    rfl

theorem CoordinationRead.nextCursor_whole (r : CoordinationRead) (offset : ℕ) :
    nextCursor (r.whole platform str offset) =
      if r.goesOn offset then some (some (encodeCursor platform .coordination "coordination_view"
        (r.query.identity platform str) ((offset + r.request.maxItems : ℕ) : ℤ)))
      else none := by
  unfold nextCursor
  change (match Dict.get (r.data platform str offset) "continuation_cursor" with
    | some (.str cursor) => some (some cursor)
    | _ => none) = _
  rw [r.get_cursor, next]
  cases r.goesOn offset with
  | true => cases r.request.detail <;> rfl
  | false => cases r.request.detail <;> rfl

theorem lt_foldr_max {n : ℕ} {lengths : List ℕ} :
    n < lengths.foldr max 0 ↔ ∃ l ∈ lengths, n < l := by
  induction lengths with
  | nil => simp
  | cons l lengths ih => simp [ih]

theorem CoordinationRead.goesOn_iff (r : CoordinationRead) (hsize : 0 < r.request.maxItems)
    (k : ℕ) : r.goesOn (k * r.request.maxItems) = true ↔ k < r.last := by
  rw [last, lt_lastPage_iff hsize, longest, lt_foldr_max, goesOn, List.any_eq_true]
  constructor
  · intro h
    obtain ⟨s, hs, hlt⟩ := h
    exact ⟨_, List.mem_map_of_mem hs, of_decide_eq_true hlt⟩
  · intro h
    obtain ⟨l, hl, hlt⟩ := h
    obtain ⟨s, hs, rfl⟩ := List.mem_map.mp hl
    exact ⟨s, hs, decide_eq_true hlt⟩

theorem CoordinationRead.length_le (r : CoordinationRead) (hsize : 0 < r.request.maxItems)
    {s : Section} (hs : s ∈ sections r.request.detail) :
    (r.collections s).length ≤ (r.last + 1) * r.request.maxItems := by
  have hlongest : (r.collections s).length ≤ r.longest := by
    by_contra h
    have hmem := List.mem_map_of_mem (f := fun s => (r.collections s).length) hs
    exact absurd (lt_foldr_max.mpr ⟨_, hmem, Nat.lt_of_not_le h⟩) (lt_irrefl _)
  exact hlongest.trans (le_of_lastPage hsize r.longest)

theorem CoordinationRead.longest_lt (r : CoordinationRead) : r.longest < 2 ^ 63 := by
  by_contra h
  have hlarge : 2 ^ 63 - 1 < r.longest := by omega
  obtain ⟨_, hl, hlt⟩ := lt_foldr_max.mp hlarge
  obtain ⟨s, -, rfl⟩ := List.mem_map.mp hl
  have hs := r.length_lt s
  omega

theorem CoordinationRead.view_eq (r : CoordinationRead) (hsize : 0 < r.request.maxItems) {k : ℕ}
    (hfits : r.Fits platform str) (hk : k ≤ r.last) :
    r.view platform str p (cursorAt platform str r.query r.request.maxItems k) =
      .ok (r.whole platform str (k * r.request.maxItems)) := by
  rw [view, bind_offsetOf _ (page_lt hsize hk r.longest_lt), fitted_of_fits (hfits k hk)]

theorem HistoryRead.trace_eq (r : HistoryRead) (hsize : 0 < r.request.maxEvents) {k : ℕ}
    (hfits : r.Fits platform str) (hk : k ≤ r.last) :
    r.trace platform str p (cursorAt platform str r.query r.request.maxEvents k) =
      .ok (r.whole platform str (k * r.request.maxEvents)) := by
  rw [trace, bind_offsetOf _ (page_lt hsize hk r.length_lt), fitted_of_fits (hfits k hk)]

/-- Where the pages fit, they are the numbered ones. -/
theorem CoordinationRead.follows (r : CoordinationRead) (hsize : 0 < r.request.maxItems)
    (hfits : r.Fits platform str) :
    Follows (r.view platform str p) nextCursor none
      ((List.range (r.last + 1)).map fun k => r.whole platform str (k * r.request.maxItems)) := by
  have hread (k : ℕ) (hk : k ≤ r.last) := r.view_eq (p := p) hsize hfits hk
  have hnext (k : ℕ) (hk : k < r.last) :
      nextCursor (r.whole platform str (k * r.request.maxItems)) =
        some (cursorAt platform str r.query r.request.maxItems (k + 1)) := by
    rw [r.nextCursor_whole, if_pos ((r.goesOn_iff hsize k).mpr hk), ← Nat.succ_mul]
    rfl
  have hlast : nextCursor (r.whole platform str (r.last * r.request.maxItems)) = none := by
    rw [r.nextCursor_whole, if_neg fun h => lt_irrefl _ ((r.goesOn_iff hsize r.last).mp h)]
  exact follows_numbered hread hnext hlast

theorem flatMap_pages {α : Type} (f : α → Json) (xs : List α) (name : String) (size n : ℕ)
    {page : ℕ → ToolEnvelope}
    (hpage : ∀ k, items name (page k) = (slice xs (k * size) size).map f) :
    ((List.range n).map page).flatMap (items name) = (xs.take (n * size)).map f := by
  rw [List.flatMap_map, ← slices, List.map_flatMap]
  exact List.flatMap_congr fun k _ => hpage k

theorem CoordinationRead.items_decisions (r : CoordinationRead) (h : r.request.detail ≠ .compact)
    (offset : ℕ) : items "decisions" (r.whole platform str offset) =
      (slice r.decisions offset r.request.maxItems).map decision ∧
    items "interfaces" (r.whole platform str offset) =
      (slice r.interfaces offset r.request.maxItems).map interface := by
  have hdecisions (s : Section) : "decisions" ≠ s.name := by cases s <;> decide
  have hinterfaces (s : Section) : "interfaces" ≠ s.name := by cases s <;> decide
  have hdata : r.data platform str offset = _ := if_neg h
  unfold items
  rw [show (r.whole platform str offset).data = r.data platform str offset from rfl, hdata,
    List.append_assoc, get_other _ _ hdecisions, get_other _ _ hinterfaces]
  exact ⟨rfl, rfl⟩

theorem HistoryRead.nextPage_whole (r : HistoryRead) (offset : ℕ) :
    nextPage (r.whole platform str offset) =
      if offset + (r.selected offset).length < r.ordered.length then
        some (some (encodeCursor platform .retrieval "history_trace" (r.query.identity platform str)
          ((offset + (r.selected offset).length : ℕ) : ℤ)))
      else none := by
  have hpage : nextPage (r.whole platform str offset) =
      match Dict.get (r.pagination platform str offset) "continuation_cursor" with
      | some (.str cursor) => some (some cursor)
      | _ => none := rfl
  rw [hpage]
  by_cases h : offset + (r.selected offset).length < r.ordered.length
  · simp [pagination, Dict.get, List.lookup, h]
  · simp [pagination, Dict.get, List.lookup, h]

theorem HistoryRead.length_selected (r : HistoryRead) (offset : ℕ) :
    (r.selected offset).length = min r.request.maxEvents (r.ordered.length - offset) := by
  rw [selected, slice, List.length_take, List.length_drop]

theorem HistoryRead.follows (r : HistoryRead) (hsize : 0 < r.request.maxEvents)
    (hfits : r.Fits platform str) :
    Follows (r.trace platform str p) nextPage none
      ((List.range (r.last + 1)).map fun k => r.whole platform str (k * r.request.maxEvents)) := by
  have hread (k : ℕ) (hk : k ≤ r.last) := r.trace_eq (p := p) hsize hfits hk
  have hnext (k : ℕ) (hk : k < r.last) :
      nextPage (r.whole platform str (k * r.request.maxEvents)) =
        some (cursorAt platform str r.query r.request.maxEvents (k + 1)) := by
    have hmore := (lt_lastPage_iff hsize).mp hk
    have hfull : (r.selected (k * r.request.maxEvents)).length = r.request.maxEvents := by
      rw [r.length_selected]
      omega
    rw [r.nextPage_whole, hfull, if_pos hmore, ← Nat.succ_mul]
    rfl
  have hlast : nextPage (r.whole platform str (r.last * r.request.maxEvents)) = none := by
    have hreach := le_of_lastPage hsize r.ordered.length
    rw [Nat.succ_mul] at hreach
    have hend : ¬ r.last * r.request.maxEvents +
        (r.selected (r.last * r.request.maxEvents)).length < r.ordered.length := by
      rw [r.length_selected]
      unfold last
      omega
    rw [r.nextPage_whole, if_neg hend]
  exact follows_numbered hread hnext hlast

theorem CoordinationRead.lossless_iff (r : CoordinationRead) (hsize : 0 < r.request.maxItems)
    (hfits : r.Fits platform str) : r.Lossless platform str p ↔ r.Reached := by
  have hfollows := r.follows (p := p) hsize hfits
  let pages := (List.range (r.last + 1)).map fun k =>
    r.whole platform str (k * r.request.maxItems)
  have hdecisions (h : r.request.detail ≠ .compact) : pages.flatMap (items "decisions") =
      (r.decisions.take ((r.last + 1) * r.request.maxItems)).map decision :=
    flatMap_pages decision r.decisions _ _ _ fun k => (r.items_decisions h _).1
  have hinterfaces (h : r.request.detail ≠ .compact) : pages.flatMap (items "interfaces") =
      (r.interfaces.take ((r.last + 1) * r.request.maxItems)).map interface :=
    flatMap_pages interface r.interfaces _ _ _ fun k => (r.items_decisions h _).2
  constructor
  · intro h
    obtain ⟨pages, hpages, -, hshown⟩ := h
    rw [hpages.unique hfollows] at hshown
    by_cases hdetail : r.request.detail = .compact
    · exact .inl hdetail
    obtain ⟨hd, hi⟩ := hshown hdetail
    rw [hdecisions hdetail] at hd
    rw [hinterfaces hdetail] at hi
    have hdlength := congrArg List.length hd
    have hilength := congrArg List.length hi
    simp only [List.length_map, List.length_take] at hdlength hilength
    exact .inr ⟨by omega, by omega⟩
  · intro h
    refine ⟨_, hfollows, fun s hs => ?_, fun hdetail => ?_⟩
    · have hpage : pages.flatMap (items s.name) =
          ((r.collections s).take ((r.last + 1) * r.request.maxItems)).map id :=
        flatMap_pages id (r.collections s) _ _ _ fun k => by
          rw [List.map_id]
          exact r.items_section hs _
      rw [hpage, List.map_id, List.take_of_length_le (r.length_le hsize hs)]
    · obtain ⟨hd, hi⟩ := h.resolve_left hdetail
      rw [hdecisions hdetail, hinterfaces hdetail, List.take_of_length_le hd,
        List.take_of_length_le hi]
      exact ⟨rfl, rfl⟩

theorem HistoryRead.lossless (r : HistoryRead) (hsize : 0 < r.request.maxEvents)
    (hfits : r.Fits platform str) : r.Lossless platform str p := by
  refine ⟨_, r.follows hsize hfits, ?_⟩
  have hpage := flatMap_pages .obj r.ordered "events" r.request.maxEvents (r.last + 1) fun k =>
    (rfl : items "events" (r.whole platform str (k * r.request.maxEvents)) = _)
  have hreach : r.ordered.length ≤ (r.last + 1) * r.request.maxEvents :=
    le_of_lastPage hsize r.ordered.length
  rw [hpage, List.take_of_length_le hreach]

/-- Where every page fits its budget, the history loses nothing, and a coordination view loses
nothing exactly if its decisions and interfaces are not longer than the pages go on. -/
theorem paged_reads_lossless (platform : Cursors.Platform) (str : Values.Value → String)
    (p : Platform) :
    (∀ r : CoordinationRead, 0 < r.request.maxItems → r.Fits platform str →
      (r.Lossless platform str p ↔ r.Reached)) ∧
    ∀ r : HistoryRead, 0 < r.request.maxEvents → r.Fits platform str → r.Lossless platform str p :=
  ⟨fun r hsize hfits => r.lossless_iff hsize hfits, fun r hsize hfits => r.lossless hsize hfits⟩

end Lossless

section Example

def plainReads : Platform := ⟨id, String.toInt?⟩

def noText : Values.Value → String := fun _ => ""

/-- The digest of one text is empty. -/
def shortPlatform (text : List Char) : Cursors.Platform :=
  { plainPlatform with
    sha256 := fun cs => String.ofList (Equiv.swap text [] cs)
    sha256_injective := ofList_injective.comp (Equiv.swap text []).injective }

/-- A workflow of two runs and three decisions, read one item at a time. -/
def threeDecisions : CoordinationRead where
  request := { project := "p", maxItems := 1 }
  workspaceId := "w"
  revision := .num 1
  fingerprint := .null
  activeRunId := .null
  collections s := if s = .runs then [.str "r1", .str "r2"] else []
  length_lt := by
    intro s
    cases s <;> decide
  decisions := [[("id", .str "d1")], [("id", .str "d2")], [("id", .str "d3")]]
  interfaces := []
  head := ⟨.null, .null, []⟩
  todoWarnings := []

def decisionsPlatform : Cursors.Platform :=
  shortPlatform (JsonText.render compact (payloadOf "coordination_view"
    (threeDecisions.query.identity plainPlatform noText) 1))

theorem threeDecisions_fits : threeDecisions.Fits decisionsPlatform noText := by
  have hpages : ∀ k < 2, (threeDecisions.whole decisionsPlatform noText (k * 1)).Fits
      (coordinationBudget .standard) := by decide +kernel
  have hlast : threeDecisions.last = 1 := by decide
  intro k hk
  rw [hlast] at hk
  exact hpages k (Nat.lt_succ_of_le hk)

/-- There are two pages, and the third decision is on none. -/
theorem third_decision_is_lost :
    threeDecisions.last = 1 ∧ ¬ threeDecisions.Lossless decisionsPlatform noText plainReads := by
  refine ⟨by decide, fun h => ?_⟩
  rcases (threeDecisions.lossless_iff (by decide) threeDecisions_fits).mp h with
    hcompact | ⟨hdecisions, -⟩
  · cases hcompact
  · exact absurd hdecisions (by decide)

/-- A history of three events, read one at a time. -/
def threeEvents : HistoryRead where
  request := { project := "p", subject := "s", maxEvents := 1 }
  revision := .num 1
  resolution := .null
  ordered := [[("entity_id", .str "a")], [("entity_id", .str "b")], [("entity_id", .str "c")]]
  length_lt := by decide
  rawEventCount := 3
  noiseOmitted := 0
  head := ⟨.null, .null, []⟩
  todoWarnings := []

def eventsPlatform : Cursors.Platform := shortPlatform (threeEvents.query.keyText noText)

theorem threeEvents_fits : threeEvents.Fits eventsPlatform noText := by
  have hpages : ∀ k < 3, (threeEvents.whole eventsPlatform noText (k * 1)).Fits
      (historyBudget .standard) := by decide +kernel
  have hlast : threeEvents.last = 2 := by decide
  intro k hk
  rw [hlast] at hk
  exact hpages k (Nat.lt_succ_of_le hk)

theorem three_events_are_read :
    threeEvents.last = 2 ∧ threeEvents.Lossless eventsPlatform noText plainReads :=
  ⟨by decide,
    (paged_reads_lossless eventsPlatform noText plainReads).2 threeEvents (by decide) threeEvents_fits⟩

end Example

end ProjectControl.Reads
