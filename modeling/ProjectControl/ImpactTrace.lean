import Mathlib.Data.List.Dedup
import Mathlib.Data.List.Sort
import Mathlib.Data.Rat.Defs
import Mathlib.Algebra.Order.Ring.Rat
import Mathlib.Data.String.Basic
import ProjectControl.BreadthFirst
import ProjectControl.Json
import ProjectControl.Transaction

/-! The impact of a change: the nodes of a dependency graph that are reached from the targets of
a request, with the edges that lead to each. -/

set_option autoImplicit false

namespace ProjectControl.Trace

open BreadthFirst

section Graph

/-- `EntityReference`. -/
structure Node where
  projectUuid : String
  repository : String
  kind : String
  id : String
  path : Option String
  deriving DecidableEq

inductive Origin
  | observed
  | projectDeclared
  | candidate
  deriving DecidableEq

inductive Resolution
  | resolved
  | unresolved
  | ambiguous
  | stale
  deriving DecidableEq

def Resolution.text : Resolution → String
  | .resolved => "resolved"
  | .unresolved => "unresolved"
  | .ambiguous => "ambiguous"
  | .stale => "stale"

/-- `ImpactEdge`; the fields that the traversal only hands on are in `details`. -/
structure Edge where
  source : Node
  target : Node
  relation : String
  origin : Origin
  provider : String
  resolution : Resolution
  details : Json
  deriving DecidableEq

/-- A repository that was observed for the graph. -/
structure Observation where
  project : String
  «alias» : String
  repository : String
  deriving DecidableEq

/-- What one provider contributed. -/
structure Coverage where
  provider : String
  complete : Bool
  freshness : String
  deriving DecidableEq

structure State where
  generation : String
  nodes : List (String × Node)
  edges : List (String × Edge)
  providers : List Coverage
  unknown : List Json
  repositories : List Json
  lookup : List ((String × String) × Observation)

-- `digest` stands for SHA-256 of a canonical document
variable (digest : Json → String)

def nodeKey (node : Node) : String :=
  digest (.arr [.str node.projectUuid, .str node.repository, .str node.kind, .str node.id])

/-- Relations that name the consumer first. -/
def reverseRelations : List String :=
  ["depends_on", "imports", "includes", "calls", "consumes", "build_input", "package_dependency",
    "generated_from"]

def forwardRelations : List String := ["generates", "produces_output"]

/-- Mentions, ownership and candidates never expand. -/
def Edge.propagates (e : Edge) : Bool :=
  e.origin ≠ .candidate && (e.relation ∈ reverseRelations || e.relation ∈ forwardRelations)

def Edge.start (e : Edge) : String :=
  if e.relation ∈ reverseRelations then nodeKey digest e.target else nodeKey digest e.source

def Edge.finish (e : Edge) : String :=
  if e.relation ∈ reverseRelations then nodeKey digest e.source else nodeKey digest e.target

def Edge.carries (e : Edge) : Bool := e.propagates && e.resolution = .resolved

def sortedEdges (state : State) : List Edge :=
  (state.edges.mergeSort (fun a b => a.1 ≤ b.1)).map (·.2)

def adjacency (state : State) (v : String) : List (String × Edge) :=
  ((sortedEdges state).filter (fun e => e.carries && e.start digest = v)).map
    (fun e => (e.finish digest, e))

end Graph

section Targets

inductive Failure
  | value (message : String)
  | key (name : String)
  | type
  deriving DecidableEq

def isLetter (c : Char) : Bool := ('a' ≤ c && c ≤ 'z') || ('A' ≤ c && c ≤ 'Z')

def relativePath (value : String) : Except Failure String :=
  if value = "" || value.toList.head? = some '/' ||
      (value.toList.head?.any isLetter && (value.toList.drop 1).head? = some ':') ||
      value.toList.contains '\\' || value.toList.contains '\x00' ||
      (value.toList.splitOn '/').contains ['.', '.'] then
    .error (.value "source path must be relative without traversal")
  else .ok value

def targetFields : List String := ["project", "repository", "kind", "id", "path"]

def readTarget (target : Json) : Except Failure Dict := do
  let fields ← match target with
    | .str path => (relativePath path).map (fun p => [("path", Json.str p)])
    | .obj fields => .ok fields
    | _ => .error (.value "invalid_trace_target")
  if fields.all (fun e => targetFields.contains e.1) then
    return fields
  throw (.value "invalid_trace_target")

def truthy : Json → Bool
  | .null => false
  | .bool b => b
  | .num n => n ≠ 0
  | .str s => s ≠ ""
  | .arr items => !items.isEmpty
  | .obj fields => !fields.isEmpty

/-- Membership in a set of texts; a list or an object cannot be looked up in a set. -/
def amongTexts (v : Json) (texts : List String) : Except Failure Bool :=
  match v with
  | .str s => .ok (texts.contains s)
  | .arr _ => .error .type
  | .obj _ => .error .type
  | _ => .ok false

def Node.field (node : Node) (name : String) : Json :=
  if name = "kind" then .str node.kind
  else if name = "id" then .str node.id
  else .ofText? node.path

/-- Whether a node is one that the target names. -/
def matchesTarget (state : State) (project : String) (target : Dict) (node : Node) :
    Except Failure Bool :=
  match state.lookup.lookup (node.projectUuid, node.repository) with
  | none => .ok false
  | some obs =>
    if (target.get "project").getD (.str project) ≠ .str obs.project then .ok false
    else
      let repository := (target.get "repository").getD .null
      match if truthy repository then amongTexts repository [obs.«alias», obs.repository]
        else .ok true with
      | .error e => .error e
      | .ok false => .ok false
      | .ok true => .ok (["kind", "id", "path"].all (fun k =>
          (target.get k).all (fun v => node.field k = v)))

/-- The keys of the nodes that a target names. -/
def matching (state : State) (project : String) (target : Dict) :
    List (String × Node) → Except Failure (List (String × Node))
  | [] => .ok []
  | e :: nodes =>
    match matchesTarget state project target e.2, matching state project target nodes with
    | .ok true, .ok rest => .ok (e :: rest)
    | .ok false, .ok rest => .ok rest
    | .error e, _ => .error e
    | .ok _, .error e => .error e

inductive Unknown
  | given (entry : Json)
  | target (target : Dict) (reason : String) (count : ℕ)
  | edge (reason : String) (edge : Edge)

/-- One match is a seed; several are only where a path names them all in one repository. -/
def seedsOfTarget (target : Dict) (found : List (String × Node)) : List String × List Unknown :=
  if found.length = 1 then (found.map (·.1), [])
  else if found ≠ [] ∧ (target.get "path").isSome ∧ (target.get "kind").isNone ∧
      (target.get "id").isNone ∧ (found.map (·.2.repository)).dedup.length = 1 then
    (found.map (·.1), [])
  else ([], [.target target (if found ≠ [] then "ambiguous_target" else "target_not_indexed")
    found.length])

def seedsOf (state : State) (project : String) :
    List Json → Except Failure (List String × List Unknown)
  | [] => .ok ([], [])
  | target :: targets => do
    let target ← readTarget target
    let found ← matching state project target state.nodes
    let rest ← seedsOf state project targets
    return ((seedsOfTarget target found).1 ++ rest.1, (seedsOfTarget target found).2 ++ rest.2)

end Targets

section Traversal

inductive Mode
  | paths
  | snippets
  deriving DecidableEq

structure Request where
  project : String
  targets : List Json
  mode : Mode
  changeClass : String
  query : Option String
  maxNodes : ℕ
  maxEdges : ℕ
  timeBudgetMs : ℕ
  since : Option String
  /-- Empty where the caller gives none. -/
  cursor : Dict

/-- What the traversal reads from outside: `clock 0` at its start and `clock (n + 1)` at its
check with number `n`, and the installed readers of source text. -/
structure Surroundings where
  clock : ℕ → ℚ
  snippet : Node → List Edge → Json
  inspect : Observation → String → Json

structure Dependency where
  node : Node
  witnessChain : List Edge
  fanout : ℕ
  snippet : Option Json

structure OmittedGroup where
  node : Node
  remainingEdges : ℕ

inductive Delta
  | refreshRequired
  | changes (before after : String) (added removed changed : List Edge)
    (providerStateChanged : Bool)

structure Result where
  status : String
  generation : String
  seeds : List Node
  dependencies : List Dependency
  candidates : List Json
  nonpropagating : List Edge
  unknownScope : List Unknown
  completeGraphCut : Bool
  providers : List Coverage
  repositories : List Json
  visitedNodes : ℕ
  examinedEdges : ℕ
  cycles : ℕ
  omittedGroups : List OmittedGroup
  continuation : Option (String × String)
  delta : Option Delta
  warnings : List String

inductive Response
  | refresh (generation : String)
  | traced (result : Result)

variable (digest : Json → String) (around : Surroundings)

def Mode.text : Mode → String
  | .paths => "paths"
  | .snippets => "snippets"

def Request.digested (r : Request) : Json :=
  .obj [("change_class", .str r.changeClass), ("mode", .str r.mode.text),
    ("project", .str r.project), ("query", .ofText? r.query), ("targets", .arr r.targets)]

/-- A cursor belongs to one generation and one request. -/
def needsRefresh (state : State) (r : Request) : Bool :=
  r.cursor ≠ [] && (r.cursor.get "generation" ≠ some (.str state.generation) ||
    r.cursor.get "request" ≠ some (.str (digest r.digested)))

/-- The budgets are checked before each edge. -/
def stops (r : Request) (s : Progress String Edge) : Bool :=
  r.maxEdges ≤ s.traversed || r.maxNodes ≤ s.results.length ||
    around.clock 0 + r.timeBudgetMs / 1000 ≤ around.clock (s.traversed + 1)

def sortedSeeds (seeds : List String) : List String :=
  seeds.dedup.mergeSort (fun a b => a ≤ b)

def traverse (state : State) (r : Request) (seeds : List String) :
    Progress String Edge × List (String × ℕ) :=
  search (adjacency digest state) (stops around r) (seeds.length + state.edges.length)
    (start (sortedSeeds seeds))

def nodeOf (state : State) (key : String) : Except Failure Node :=
  match state.nodes.lookup key with
  | some node => .ok node
  | none => .error (.key key)

def dependency (state : State) (r : Request) (found : Found String Edge) :
    Except Failure Dependency :=
  (nodeOf state found.vertex).map (fun node =>
    ⟨node, found.chain, (adjacency digest state found.vertex).length,
      if r.mode = .snippets then some (around.snippet node found.chain) else none⟩)

def unknownEdges (state : State) : List Unknown :=
  ((sortedEdges state).filter (fun e => e.propagates && e.resolution ≠ .resolved)).map
    (fun e => .edge ("edge_" ++ e.resolution.text) e)

/-- The edges of one state by their keys, in the order of the keys. -/
def edgesAt (state : State) (keep : String × Edge → Bool) : List Edge :=
  ((state.edges.filter keep).mergeSort (fun a b => a.1 ≤ b.1)).map (·.2)

def deltaSince (state : State) : Option State → Delta
  | none => .refreshRequired
  | some older => .changes older.generation state.generation
      (edgesAt state (fun e => (older.edges.lookup e.1).isNone))
      (edgesAt older (fun e => (state.edges.lookup e.1).isNone))
      (edgesAt state (fun e => (older.edges.lookup e.1).any (· ≠ e.2)))
      (state.providers ≠ older.providers)

def snippetOk (d : Dependency) : Bool :=
  d.snippet.all (fun v => match v with
    | .obj fields => Dict.get fields "status" = some (.str "ok")
    | _ => false)

def warningsOf (complete : Bool) (omitted : List OmittedGroup) (dependencies : List Dependency) :
    List String :=
  (if complete then [] else ["dependency_coverage_partial"]) ++
    (if omitted.isEmpty then []
      else ["trace_budget;continue_with_larger_budget_same_generation"]) ++
    (if dependencies.all snippetOk then [] else ["source_snippets_partial"])

/-- The answer once the nodes of the traversal are looked up. -/
def answer (generations : List (String × State)) (state : State) (r : Request)
    (unknown : List Unknown) (found : Progress String Edge) (omitted : List OmittedGroup)
    (dependencies : List Dependency) (seeds : List Node) : Result :=
  let complete := unknown.isEmpty && omitted.isEmpty &&
    state.providers.all (fun p => p.complete && p.freshness = "current")
  let warnings := warningsOf complete omitted dependencies
  { status := if warnings.isEmpty then "ok" else "partial"
    generation := state.generation
    seeds := seeds
    dependencies := dependencies
    candidates := match r.query.filter (· ≠ "") with
      | some query => state.lookup.map (fun e => around.inspect e.2 query)
      | none => []
    nonpropagating := (sortedEdges state).filter (fun e => !e.propagates &&
      (found.visited.contains (nodeKey digest e.source) ||
        found.visited.contains (nodeKey digest e.target)))
    unknownScope := unknown
    completeGraphCut := complete
    providers := state.providers
    repositories := state.repositories
    visitedNodes := found.visited.length
    examinedEdges := found.traversed
    cycles := found.cycles
    omittedGroups := omitted
    continuation := if omitted.isEmpty then none
      else some (state.generation, digest r.digested)
    delta := (r.since.filter (· ≠ "")).map (fun since =>
      deltaSince state (generations.lookup since))
    warnings := warnings }

def omittedGroup (state : State) (left : String × ℕ) : Except Failure OmittedGroup :=
  (nodeOf state left.1).map (fun node => ⟨node, left.2⟩)

def trace (generations : List (String × State)) (state : State) (r : Request) :
    Except Failure Response :=
  if needsRefresh digest state r then .ok (.refresh state.generation)
  else do
    let targets ← seedsOf state r.project r.targets
    let unknown := state.unknown.map .given ++ targets.2 ++ unknownEdges state
    let found := traverse digest around state r targets.1
    let omitted ← found.2.mapM (omittedGroup state)
    let dependencies ← found.1.results.mapM (dependency digest around state r)
    let seeds ← targets.1.mapM (nodeOf state)
    return .traced (answer digest around generations state r unknown found.1 omitted dependencies
      seeds)

end Traversal

section Routes

variable {digest : Json → String} {state : State}

/-- A way along resolved edges of the graph that propagate a change. -/
inductive Route (digest : Json → String) (state : State) (u : String) : List Edge → String → Prop
  | nil : Route digest state u [] u
  | snoc {chain : List Edge} {e : Edge} {key : String} :
      Route digest state u chain (e.start digest) → (key, e) ∈ state.edges → e.carries = true →
      Route digest state u (chain ++ [e]) (e.finish digest)

theorem mem_sortedEdges {e : Edge} : e ∈ sortedEdges state ↔ ∃ key, (key, e) ∈ state.edges := by
  simp [sortedEdges]

theorem mem_adjacency {v w : String} {e : Edge} : (w, e) ∈ adjacency digest state v ↔
    (∃ key, (key, e) ∈ state.edges) ∧ e.carries = true ∧ e.start digest = v ∧
      e.finish digest = w := by
  unfold adjacency
  rw [List.mem_map]
  constructor
  · rintro ⟨e', he', heq⟩
    obtain ⟨rfl, rfl⟩ := Prod.mk.inj heq
    obtain ⟨hmem, hcond⟩ := List.mem_filter.mp he'
    simp only [Bool.and_eq_true, decide_eq_true_eq] at hcond
    exact ⟨mem_sortedEdges.mp hmem, hcond.1, hcond.2, rfl⟩
  · rintro ⟨hmem, hcarries, rfl, rfl⟩
    exact ⟨e, List.mem_filter.mpr ⟨mem_sortedEdges.mpr hmem, by simp [hcarries]⟩, rfl⟩

theorem route_iff_path {u v : String} {chain : List Edge} :
    Route digest state u chain v ↔ Path (adjacency digest state) u chain v := by
  constructor
  · intro h
    induction h with
    | nil => exact .nil u
    | snoc _ hmem hcarries ih => exact ih.snoc (mem_adjacency.mpr ⟨⟨_, hmem⟩, hcarries, rfl, rfl⟩)
  · intro h
    induction h with
    | nil => exact .nil
    | snoc _ hedge ih =>
      obtain ⟨⟨key, hmem⟩, hcarries, rfl, rfl⟩ := mem_adjacency.mp hedge
      exact ih.snoc hmem hcarries

/-- The nodes that edges can lead to. -/
def ends (digest : Json → String) (state : State) : List String :=
  (sortedEdges state).map (fun e => e.finish digest)

theorem length_ends : (ends digest state).length = state.edges.length := by
  simp [ends, sortedEdges]

theorem adjacency_ends (v : String) : ∀ a ∈ adjacency digest state v, a.1 ∈ ends digest state := by
  intro a ha
  obtain ⟨hmem, -, -, hfinish⟩ := mem_adjacency.mp ha
  exact List.mem_map.mpr ⟨a.2, mem_sortedEdges.mpr hmem, hfinish⟩

theorem mem_sortedSeeds {seeds : List String} {v : String} :
    v ∈ sortedSeeds seeds ↔ v ∈ seeds := by
  simp [sortedSeeds]

theorem nodup_sortedSeeds (seeds : List String) : (sortedSeeds seeds).Nodup :=
  (List.mergeSort_perm _ _).nodup_iff.mpr (List.nodup_dedup seeds)

theorem length_sortedSeeds (seeds : List String) : (sortedSeeds seeds).length ≤ seeds.length := by
  rw [sortedSeeds, List.length_mergeSort]
  exact (List.dedup_sublist seeds).length_le

/-- What the traversal found, and that a traversal without omitted nodes left nothing out. -/
theorem traverse_spec (digest : Json → String) (state : State) (around : Surroundings) (r : Request)
    (seeds : List String) :
    Sound (adjacency digest state) (sortedSeeds seeds) (traverse digest around state r seeds).1 ∧
      (∀ o ∈ (traverse digest around state r seeds).2,
        o.1 ∈ ((traverse digest around state r seeds).1.found (sortedSeeds seeds)).map
          (·.vertex)) ∧
      ((traverse digest around state r seeds).2 = [] →
        Ordered (adjacency digest state) (sortedSeeds seeds)
          (traverse digest around state r seeds).1 ∧
        (traverse digest around state r seeds).1.queue = []) := by
  refine search_spec adjacency_ends (ordered_start (nodup_sortedSeeds seeds)) ?_
  have hfilter := List.length_filter_le (fun v => v ∉ (start (E := Edge) (sortedSeeds seeds)).visited)
    (ends digest state)
  have hseeds := length_sortedSeeds seeds
  rw [length_ends] at hfilter
  rw [Progress.left, start, List.length_map]
  exact Nat.add_le_add hseeds hfilter

end Routes

section Answers

variable {digest : Json → String} {state : State}

theorem mem_matching {project : String} {target : Dict} {nodes found : List (String × Node)}
    (h : matching state project target nodes = .ok found) : ∀ e ∈ found, e ∈ nodes := by
  induction nodes generalizing found with
  | nil =>
    obtain rfl : [] = found := Except.ok.inj h
    exact fun e he => he
  | cons e nodes ih =>
    unfold matching at h
    cases hfirst : matchesTarget state project target e.2 with
    | error failure => rw [hfirst] at h; cases h
    | ok b =>
      cases hrest : matching state project target nodes with
      | error failure =>
        rw [hfirst, hrest] at h
        cases b <;> cases h
      | ok rest =>
        rw [hfirst, hrest] at h
        have hsub := ih hrest
        cases b with
        | true =>
          obtain rfl : e :: rest = found := Except.ok.inj h
          exact fun e' he' => (List.mem_cons.mp he').elim (fun heq => heq ▸ List.mem_cons_self)
            (fun hmem => List.mem_cons_of_mem _ (hsub e' hmem))
        | false =>
          obtain rfl : rest = found := Except.ok.inj h
          exact fun e' he' => List.mem_cons_of_mem _ (hsub e' he')

theorem mem_seedsOfTarget {target : Dict} {found : List (String × Node)} {v : String}
    (h : v ∈ (seedsOfTarget target found).1) : v ∈ found.map (·.1) := by
  unfold seedsOfTarget at h
  split at h
  · exact h
  · split at h
    · exact h
    · cases h

/-- Seeds are keys of nodes. -/
theorem seeds_are_nodes {project : String} {targets : List Json} :
    Ensures (seedsOf state project targets)
      (fun out => ∀ v ∈ out.1, v ∈ state.nodes.map (·.1)) := by
  induction targets with
  | nil => exact Ensures.ok (fun v hv => absurd hv List.not_mem_nil)
  | cons target targets ih =>
    unfold seedsOf
    refine Ensures.bind (P := fun _ => True) (fun _ _ => trivial) (fun fields _ => ?_)
    refine Ensures.bind (P := fun found => ∀ e ∈ found, e ∈ state.nodes)
      (fun found hfound => mem_matching hfound) (fun found hfound => ?_)
    refine Ensures.bind ih (fun rest hrest => Ensures.pure (fun v hv => ?_))
    rcases List.mem_append.mp hv with hnew | hold
    · obtain ⟨e, he, rfl⟩ := List.mem_map.mp (mem_seedsOfTarget hnew)
      exact List.mem_map_of_mem (hfound e he)
    · exact hrest v hold

theorem nodeOf_commits {v : String} (h : v ∈ state.nodes.map (·.1)) :
    Commits (nodeOf state v) (fun node => state.nodes.lookup v = some node) := by
  unfold nodeOf
  cases hfound : state.nodes.lookup v with
  | none =>
    obtain ⟨e, he, heq⟩ := List.mem_map.mp h
    have hnot := List.lookup_eq_none_iff.mp hfound e he
    simp [heq] at hnot
  | some node => exact ⟨node, rfl, rfl⟩

/-- Every edge that can be followed has both ends among the nodes. -/
def Closed (digest : Json → String) (state : State) : Prop :=
  ∀ key e, (key, e) ∈ state.edges → e.carries = true →
    nodeKey digest e.source ∈ state.nodes.map (·.1) ∧
      nodeKey digest e.target ∈ state.nodes.map (·.1)

/-- A way of one edge and more ends at a node. -/
theorem Closed.route (hclosed : Closed digest state) {u v : String} {chain : List Edge}
    (h : Route digest state u chain v) (hne : chain ≠ []) : v ∈ state.nodes.map (·.1) := by
  cases h with
  | nil => exact absurd rfl hne
  | snoc _ hmem hcarries =>
    obtain ⟨hsource, htarget⟩ := hclosed _ _ hmem hcarries
    unfold Edge.finish
    split
    · exact hsource
    · exact htarget

/-- What `complete_graph_cut` answers for. -/
structure Complete (state : State) (unknown : List Unknown) (result : Result) : Prop where
  omitted : result.omittedGroups = []
  scope : state.unknown = []
  targets : unknown = []
  edges : ∀ key e, (key, e) ∈ state.edges → e.propagates = true → e.resolution = .resolved
  providers : ∀ p ∈ state.providers, p.complete = true ∧ p.freshness = "current"

/-- The dependencies are what the seeds lead to, each once and with the edges of a way to it;
unless a budget left something out, these are all, and the ways are shortest. -/
structure Exact (digest : Json → String) (state : State) (seeds : List String)
    (found : List (Found String Edge)) (result : Result) : Prop where
  dependencies : List.Forall₂ (fun x d => state.nodes.lookup x.vertex = some d.node ∧
    d.witnessChain = x.chain) found result.dependencies
  once : (found.map (·.vertex)).Nodup
  witnesses : ∀ x ∈ found, x.vertex ∉ seeds ∧ x.chain ≠ [] ∧
    ∃ u ∈ seeds, Route digest state u x.chain x.vertex
  all : result.omittedGroups = [] → ∀ v, v ∈ found.map (·.vertex) ↔
    v ∉ seeds ∧ ∃ u ∈ seeds, ∃ chain ≠ [], Route digest state u chain v
  shortest : result.omittedGroups = [] → ∀ x ∈ found, ∀ u ∈ seeds, ∀ chain,
    Route digest state u chain x.vertex → x.chain.length ≤ chain.length

variable (around : Surroundings) (generations : List (String × State)) (r : Request)
  {seeds : List String} {unknown : List Unknown}

theorem trace_is_exact (hclosed : Closed digest state) (hcursor : needsRefresh digest state r = false)
    (hseeds : seedsOf state r.project r.targets = .ok (seeds, unknown)) :
    ∃ result found, trace digest around generations state r = .ok (.traced result) ∧
      Exact digest state seeds found result ∧
      (result.completeGraphCut = true → Complete state unknown result) := by
  obtain ⟨hsound, homitted, hdone⟩ := traverse_spec digest state around r seeds
  have hseedNodes : ∀ v ∈ seeds, v ∈ state.nodes.map (·.1) := seeds_are_nodes _ hseeds
  have hwitness : ∀ x ∈ (traverse digest around state r seeds).1.results,
      x.vertex ∉ seeds ∧ x.chain ≠ [] ∧ ∃ u ∈ seeds, Route digest state u x.chain x.vertex := by
    intro x hx
    obtain ⟨hseed, hne, u, hu, hpath⟩ := hsound.result hx
    exact ⟨fun h => hseed (mem_sortedSeeds.mpr h), hne, u, mem_sortedSeeds.mp hu,
      route_iff_path.mpr hpath⟩
  have hresultNodes : ∀ x ∈ (traverse digest around state r seeds).1.results,
      x.vertex ∈ state.nodes.map (·.1) := by
    intro x hx
    obtain ⟨-, hne, u, -, hroute⟩ := hwitness x hx
    exact hclosed.route hroute hne
  have homittedNodes : ∀ o ∈ (traverse digest around state r seeds).2,
      o.1 ∈ state.nodes.map (·.1) := by
    intro o ho
    obtain ⟨x, hx, heq⟩ := List.mem_map.mp (homitted o ho)
    rw [← heq]
    rcases List.mem_append.mp hx with hstart | hresult
    · obtain ⟨v, hv, rfl⟩ := List.mem_map.mp hstart
      exact hseedNodes v (mem_sortedSeeds.mp hv)
    · exact hresultNodes x hresult
  obtain ⟨omitted, hom, hleft⟩ : Commits ((traverse digest around state r seeds).2.mapM
      (omittedGroup state)) _ :=
    Commits.mapM (R := fun _ _ => True) (fun o ho => by
      obtain ⟨node, hnode, -⟩ := nodeOf_commits (homittedNodes o ho)
      exact ⟨_, by rw [omittedGroup, hnode]; rfl, trivial⟩)
  obtain ⟨dependencies, hdep, hpairs⟩ : Commits ((traverse digest around state r seeds).1.results.mapM
      (dependency digest around state r)) _ :=
    Commits.mapM (R := fun x d => state.nodes.lookup x.vertex = some d.node ∧
      d.witnessChain = x.chain) (fun x hx => by
      obtain ⟨node, hnode, hlookup⟩ := nodeOf_commits (hresultNodes x hx)
      exact ⟨_, by rw [dependency, hnode]; rfl, hlookup, rfl⟩)
  obtain ⟨seedNodes, hsn, -⟩ : Commits (seeds.mapM (nodeOf state)) _ :=
    Commits.mapM (R := fun _ _ => True)
      (fun v hv => (nodeOf_commits (hseedNodes v hv)).mono (fun _ _ => trivial))
  have hempty : omitted = [] → (traverse digest around state r seeds).2 = [] := by
    rintro rfl
    exact List.forall₂_nil_right_iff.mp hleft
  refine ⟨answer digest around generations state r
    (state.unknown.map .given ++ unknown ++ unknownEdges state) (traverse digest around state r seeds).1
    omitted dependencies seedNodes, (traverse digest around state r seeds).1.results, ?_,
    ⟨hpairs, hsound.results_nodup, hwitness, ?_, ?_⟩, ?_⟩
  · unfold trace
    rw [hcursor, hseeds]
    simp only [Bool.false_eq_true, if_false, bind, Except.bind, hom, hdep, hsn]
    rfl
  · intro hnothing v
    obtain ⟨hordered, hqueue⟩ := hdone (hempty hnothing)
    rw [hordered.result_iff hqueue, mem_sortedSeeds]
    simp only [mem_sortedSeeds, route_iff_path]
  · intro hnothing x hx u hu chain hroute
    obtain ⟨hordered, hqueue⟩ := hdone (hempty hnothing)
    exact hordered.result_shortest hqueue hx (mem_sortedSeeds.mpr hu) (route_iff_path.mp hroute)
  · intro hcut
    have hparts : ((state.unknown.map Unknown.given ++ unknown ++ unknownEdges state).isEmpty &&
        omitted.isEmpty && state.providers.all (fun p => p.complete && p.freshness = "current")) =
        true := hcut
    simp only [Bool.and_eq_true, List.isEmpty_iff, List.append_eq_nil_iff, List.map_eq_nil_iff,
      List.all_eq_true, decide_eq_true_eq] at hparts
    obtain ⟨⟨⟨⟨hscope, htargets⟩, hedges⟩, hnothing⟩, hproviders⟩ := hparts
    refine ⟨hnothing, hscope, htargets, fun key e hmem hpropagates => ?_, hproviders⟩
    by_contra hresolution
    have hlisted : e ∈ (sortedEdges state).filter
        (fun e => e.propagates && e.resolution ≠ .resolved) :=
      List.mem_filter.mpr ⟨mem_sortedEdges.mpr ⟨key, hmem⟩, by simp [hpropagates, hresolution]⟩
    rw [List.map_eq_nil_iff.mp hedges] at hlisted
    cases hlisted

end Answers

section Examples

/-- Names the nodes by their ids. -/
def idOf : Json → String
  | .arr [_, _, _, .str id] => id
  | _ => ""

def sourceNode (id : String) : Node := ⟨"u1", "r1", "source", id, some id⟩

/-- One file that imports another, whose consumer is asked for. -/
def importState : State where
  generation := "g1"
  nodes := [("app.py", sourceNode "app.py"), ("core.py", sourceNode "core.py")]
  edges := [("e1", ⟨sourceNode "app.py", sourceNode "core.py", "imports", .observed, "syntax/1",
    .resolved, .null⟩)]
  providers := [⟨"syntax/1", true, "current"⟩]
  unknown := []
  repositories := []
  lookup := [(("u1", "r1"), ⟨"demo", "main", "r1"⟩)]

def importRequest : Request where
  project := "demo"
  targets := [.str "core.py"]
  mode := .paths
  changeClass := "unknown"
  query := none
  maxNodes := 200
  maxEdges := 2000
  timeBudgetMs := 1000
  since := none
  cursor := []

theorem importState_closed : Closed idOf importState := by
  intro key e hmem _
  obtain ⟨-, rfl⟩ := Prod.mk.inj (List.mem_singleton.mp hmem)
  exact ⟨List.mem_cons_self, List.mem_cons_of_mem _ List.mem_cons_self⟩

theorem importer_is_traced : ∃ result found,
    trace idOf ⟨fun _ => 0, fun _ _ => .null, fun _ _ => .null⟩ [] importState importRequest =
      .ok (.traced result) ∧ Exact idOf importState ["core.py"] found result := by
  have hseeds : seedsOf importState importRequest.project importRequest.targets =
      .ok (["core.py"], []) := by rfl
  obtain ⟨result, found, htrace, hexact, -⟩ := trace_is_exact
    ⟨fun _ => 0, fun _ _ => .null, fun _ _ => .null⟩ [] importRequest importState_closed rfl hseeds
  exact ⟨result, found, htrace, hexact⟩

end Examples

end ProjectControl.Trace
