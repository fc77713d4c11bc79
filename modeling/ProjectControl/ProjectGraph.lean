import Mathlib.Data.List.Sort
import Mathlib.Data.Prod.Lex
import Mathlib.Data.String.Basic
import Mathlib.Logic.Function.Basic
import ProjectControl.HopSearch
import ProjectControl.Json
import ProjectControl.Keyed

/-! The request-local project graph: entities under their keys, edges that are stored with a
reversed copy, and the entities related to one of them. -/

set_option autoImplicit false

namespace ProjectControl.Graph

open HopSearch

structure Entity where
  key : String
  type : String
  id : String
  title : Json
  aliases : List String
  record : Dict
  relevance : Json

structure Edge where
  source : String
  target : String
  relation : String
  basis : String
  confidence : String
deriving DecidableEq

/-- The copy that stands in the list of the other end. -/
def Edge.reversed (e : Edge) : Edge :=
  { e with source := e.target, target := e.source, relation := "reverse:" ++ e.relation }

/-- `ProjectGraph`; the lists of `adjacency` are empty where there is none. -/
structure ProjectGraph where
  entities : List (String × Entity)
  edges : List Edge
  adjacency : String → List Edge

def key (kind entityId : String) : String := kind ++ ":" ++ entityId

/-- The texts of a record under which an entity is found. -/
def recordNames (record : Dict) : List String :=
  ["title", "name", "objective", "path", "symbol", "rule", "summary"].filterMap fun field =>
    match record.value field with
    | .str s => some s
    | _ => none

def entityOf (kind value : String) (record : Dict) (title : Option String)
    (aliases : List String) : Entity where
  key := key kind value
  type := kind
  id := value
  title := (((Json.ofText? title).orElse (record.value "title")).orElse
    (record.value "name")).orElse (.str value)
  aliases := ((value :: title.getD "" :: aliases ++ recordNames record).filter (· ≠ "")).eraseDups
  record := record
  relevance := ((record.value "relevance").orElse (record.value "current_relevance")).orElse
    (.str "unknown")

namespace ProjectGraph

def keys (g : ProjectGraph) : List String := g.entities.map Prod.fst

def empty : ProjectGraph := ⟨[], [], fun _ => []⟩

/-- `_add_entity`. -/
def addEntity (g : ProjectGraph) (kind value : String) (record : Dict) (title : Option String)
    (aliases : List String) : ProjectGraph :=
  let entity := entityOf kind value record title aliases
  { g with entities := Keyed.assign g.entities entity.key entity }

def push (adjacency : String → List Edge) (v : String) (e : Edge) : String → List Edge :=
  Function.update adjacency v (adjacency v ++ [e])

/-- `_edge`: an edge whose ends are not both known is left out. -/
def edge (g : ProjectGraph) (source target relation basis confidence : String) : ProjectGraph :=
  if source ∉ g.keys ∨ target ∉ g.keys then g
  else
    let edge : Edge := ⟨source, target, relation, basis, confidence⟩
    { g with
      edges := g.edges ++ [edge]
      adjacency := push (push g.adjacency source edge) target edge.reversed }

/-- The edges of a vertex by relation and target, under their targets. -/
def neighbours (g : ProjectGraph) (v : String) : List (String × Edge) :=
  ((g.adjacency v).insertionSort
    fun a b => toLex (a.relation, a.target) ≤ toLex (b.relation, b.target)).map
      fun e => (e.target, e)

end ProjectGraph

/-- What `related` tells of an entity. -/
structure RelatedItem where
  type : String
  id : String
  title : Json
  relevance : Json
  relation : String
  basis : String
  confidence : String
  record : Dict

def RelatedItem.key (item : RelatedItem) : String := Graph.key item.type item.id

def itemOf (edge : Edge) (entity : Entity) : RelatedItem where
  type := entity.type
  id := entity.id
  title := entity.title
  relevance := entity.relevance
  relation := edge.relation
  basis := edge.basis
  confidence := edge.confidence
  record := entity.record

def ProjectGraph.item? (g : ProjectGraph) (x : Visit String Edge) : Option RelatedItem :=
  (g.entities.lookup x.vertex).map (itemOf x.edge)

/-- `related` in so many rounds; there is no result where a target is no entity. -/
def ProjectGraph.related (g : ProjectGraph) (fuel : ℕ) (key : String) (maxHops maxItems : ℤ) :
    Option (List RelatedItem) :=
  (search g.neighbours maxHops.toNat (fun n => maxItems ≤ n) fuel (start key)).result.mapM g.item?

/-- The graphs that `_add_entity` and `_edge` build. -/
inductive Built : ProjectGraph → Prop
  | empty : Built .empty
  | entity {g : ProjectGraph} (kind value : String) (record : Dict) (title : Option String)
      (aliases : List String) : Built g → Built (g.addEntity kind value record title aliases)
  | edge {g : ProjectGraph} (source target relation basis confidence : String) :
      Built g → Built (g.edge source target relation basis confidence)

/-- There is an edge between the two, in either direction. -/
def ProjectGraph.Joined (g : ProjectGraph) (u v : String) : Prop :=
  ∃ e ∈ g.edges, (e.source = u ∧ e.target = v) ∨ (e.source = v ∧ e.target = u)

theorem ProjectGraph.Joined.symm {g : ProjectGraph} {u v : String} (h : g.Joined u v) :
    g.Joined v u := by
  obtain ⟨e, he, hends⟩ := h
  exact ⟨e, he, hends.symm⟩

/-- Entities stand under their own keys, and the lists of neighbours hold every edge from both
of its ends. -/
structure Consistent (g : ProjectGraph) : Prop where
  named : ∀ x ∈ g.entities, x.1 = key x.2.type x.2.id
  ends : ∀ e ∈ g.edges, e.source ∈ g.keys ∧ e.target ∈ g.keys
  listed : ∀ v e, e ∈ g.adjacency v ↔
    e.source = v ∧ (e ∈ g.edges ∨ ∃ f ∈ g.edges, e = f.reversed)

theorem mem_push {adjacency : String → List Edge} {u v : String} {e f : Edge} :
    f ∈ ProjectGraph.push adjacency v e u ↔ f ∈ adjacency u ∨ (u = v ∧ f = e) := by
  rw [ProjectGraph.push]
  by_cases h : u = v
  · subst h
    rw [Function.update_self, List.mem_append, List.mem_singleton]
    simp only [true_and]
  · rw [Function.update_of_ne h]
    simp only [h, false_and, or_false]

theorem consistent_empty : Consistent .empty where
  named := fun _ hx => absurd hx List.not_mem_nil
  ends := fun _ he => absurd he List.not_mem_nil
  listed := fun v e => by simp [ProjectGraph.empty]

theorem mem_keys_assign {entries : List (String × Entity)} {k v : String} {entity : Entity}
    (h : v ∈ entries.map Prod.fst) : v ∈ (Keyed.assign entries k entity).map Prod.fst := by
  rw [Keyed.keys_assign]
  split_ifs
  · exact h
  · exact List.mem_append_left _ h

theorem Consistent.addEntity {g : ProjectGraph} (h : Consistent g) (kind value : String)
    (record : Dict) (title : Option String) (aliases : List String) :
    Consistent (g.addEntity kind value record title aliases) where
  named := by
    intro x hx
    rcases Keyed.mem_assign hx with rfl | hx
    · rfl
    · exact h.named x hx
  ends := fun e he => ⟨mem_keys_assign (h.ends e he).1, mem_keys_assign (h.ends e he).2⟩
  listed := h.listed

theorem Consistent.edge {g : ProjectGraph} (h : Consistent g)
    (source target relation basis confidence : String) :
    Consistent (g.edge source target relation basis confidence) := by
  unfold ProjectGraph.edge
  split_ifs with hends
  · exact h
  · rw [not_or, not_not, not_not] at hends
    constructor
    case named => exact h.named
    case ends =>
      intro e he
      rcases List.mem_append.mp he with he | he
      · exact h.ends e he
      · obtain rfl := List.mem_singleton.mp he
        exact hends
    case listed =>
      intro v e
      dsimp only
      rw [mem_push, mem_push, h.listed]
      simp only [List.mem_append, List.mem_singleton]
      constructor
      · rintro ((⟨hsource, hold | ⟨f, hf, rfl⟩⟩ | ⟨rfl, rfl⟩) | ⟨rfl, rfl⟩)
        · exact ⟨hsource, .inl (.inl hold)⟩
        · exact ⟨hsource, .inr ⟨f, .inl hf, rfl⟩⟩
        · exact ⟨rfl, .inl (.inr rfl)⟩
        · exact ⟨rfl, .inr ⟨_, .inr rfl, rfl⟩⟩
      · rintro ⟨rfl, (hold | rfl) | ⟨f, hf | rfl, rfl⟩⟩
        · exact .inl (.inl ⟨rfl, .inl hold⟩)
        · exact .inl (.inr ⟨rfl, rfl⟩)
        · exact .inl (.inl ⟨rfl, .inr ⟨f, hf, rfl⟩⟩)
        · exact .inr ⟨rfl, rfl⟩

theorem Built.consistent {g : ProjectGraph} (h : Built g) : Consistent g := by
  induction h with
  | empty => exact consistent_empty
  | entity kind value record title aliases _ ih =>
    exact ih.addEntity kind value record title aliases
  | edge source target relation basis confidence _ ih =>
    exact ih.edge source target relation basis confidence

section Neighbours

variable {g : ProjectGraph} {u v : String} {e : Edge}

theorem mem_neighbours : (v, e) ∈ g.neighbours u ↔ e ∈ g.adjacency u ∧ e.target = v := by
  rw [ProjectGraph.neighbours, List.mem_map]
  constructor
  · rintro ⟨f, hf, heq⟩
    obtain ⟨rfl, rfl⟩ := Prod.mk.inj heq
    exact ⟨(List.mem_insertionSort _).mp hf, rfl⟩
  · rintro ⟨he, rfl⟩
    exact ⟨e, (List.mem_insertionSort _).mpr he, rfl⟩

/-- One is in the list of the other exactly when an edge joins them. -/
theorem Consistent.linked (h : Consistent g) : Linked g.neighbours u v ↔ g.Joined u v := by
  constructor
  · rintro ⟨e, hnext⟩
    obtain ⟨he, rfl⟩ := mem_neighbours.mp hnext
    obtain ⟨rfl, hedge | ⟨f, hf, rfl⟩⟩ := (h.listed _ _).mp he
    · exact ⟨e, hedge, .inl ⟨rfl, rfl⟩⟩
    · exact ⟨f, hf, .inr ⟨rfl, rfl⟩⟩
  · rintro ⟨e, he, ⟨rfl, rfl⟩ | ⟨rfl, rfl⟩⟩
    · exact ⟨e, mem_neighbours.mpr ⟨(h.listed _ _).mpr ⟨rfl, .inl he⟩, rfl⟩⟩
    · exact ⟨e.reversed, mem_neighbours.mpr ⟨(h.listed _ _).mpr ⟨rfl, .inr ⟨e, he, rfl⟩⟩, rfl⟩⟩

theorem Consistent.joined (h : Consistent g) : Linked g.neighbours = g.Joined := by
  funext u v
  exact propext h.linked

theorem Consistent.neighbour_mem (h : Consistent g) {x : String × Edge}
    (hx : x ∈ g.neighbours u) : x.1 ∈ g.keys := by
  obtain ⟨e, he, hends⟩ := h.linked.mp ⟨x.2, hx⟩
  rcases hends with ⟨_, htarget⟩ | ⟨hsource, _⟩
  · exact htarget ▸ (h.ends e he).2
  · exact hsource ▸ (h.ends e he).1

theorem Consistent.entity (h : Consistent g) (hv : v ∈ g.keys) :
    ∃ entity, g.entities.lookup v = some entity ∧ key entity.type entity.id = v := by
  obtain ⟨x, hx, rfl⟩ := List.mem_map.mp hv
  rcases hentity : g.entities.lookup x.1 with _ | entity
  · have hnone := List.lookup_eq_none_iff.mp hentity x hx
    simp at hnone
  · obtain ⟨front, back, hsplit, _⟩ := List.lookup_eq_some_iff.mp hentity
    have hmem : (x.1, entity) ∈ g.entities := hsplit ▸ List.mem_append_right _ List.mem_cons_self
    exact ⟨entity, rfl, (h.named _ hmem).symm⟩

end Neighbours

/-- Every entity at a distance of one to `maxHops` from the first, once, with its distance, the
nearer ones first, and with an edge that leads to it from one hop nearer. -/
structure Nearest (g : ProjectGraph) (first : String) (maxHops : ℤ)
    (found : List (ℕ × RelatedItem)) : Prop where
  once : (found.map (·.2.key)).Nodup
  exact : ∀ v, v ∈ found.map (·.2.key) ↔
    ∃ n : ℕ, 1 ≤ n ∧ (n : ℤ) ≤ maxHops ∧ Distance g.Joined first n v
  distance : ∀ x ∈ found, Distance g.Joined first x.1 x.2.key
  ordered : found.Pairwise (fun x y => x.1 ≤ y.1)
  told : ∀ x ∈ found, ∃ entity edge, g.entities.lookup x.2.key = some entity ∧
    (∃ u, Walk g.Joined first (x.1 - 1) u ∧ edge ∈ g.adjacency u) ∧ edge.target = x.2.key ∧
    x.2 = itemOf edge entity

section Search

variable {g : ProjectGraph}

theorem mapM_some {α β : Type} {f : α → Option β} {k : α → β} {xs : List α}
    (h : ∀ x ∈ xs, f x = some (k x)) : xs.mapM f = some (xs.map k) := by
  induction xs with
  | nil => rfl
  | cons x xs ih =>
    rw [List.mapM_cons, h x List.mem_cons_self, ih fun y hy => h y (List.mem_cons_of_mem _ hy)]
    rfl

def noItem : RelatedItem := ⟨"", "", .null, .null, "", "", "", []⟩

/-- A search without a limit, each visit told as an item. -/
def ProjectGraph.found (g : ProjectGraph) (first : String) (maxHops : ℤ) (fuel : ℕ) :
    List (ℕ × RelatedItem) :=
  (search g.neighbours maxHops.toNat never fuel (start first)).result.map
    fun x => (x.depth, (g.item? x).getD noItem)

variable {first : String} {maxHops : ℤ} {fuel : ℕ}

/-- No more rounds are needed than there are entities, and one for the first vertex. -/
theorem Consistent.layered (h : Consistent g) (first : String) (maxHops : ℤ)
    (hfuel : g.entities.length + 1 ≤ fuel) :
    Layered g.neighbours maxHops.toNat first
        (search g.neighbours maxHops.toNat never fuel (start first)) ∧
      (search g.neighbours maxHops.toNat never fuel (start first)).queue = [] := by
  refine search_layered g.keys (fun v edge hedge => h.neighbour_mem hedge)
    (layered_start _ _ _) ?_
  have hle : (g.keys.filter (fun v => v ∉ (start first : State String Edge).seen)).length ≤
      g.entities.length := by
    have hlength : g.keys.length = g.entities.length := List.length_map _
    exact hlength ▸ List.length_filter_le _ _
  have hqueue : (start first : State String Edge).queue.length = 1 := rfl
  rw [State.left]
  omega

theorem Consistent.told (h : Consistent g) {s : State String Edge}
    (hs : Layered g.neighbours maxHops.toNat first s) {x : Visit String Edge}
    (hx : x ∈ s.result) : ∃ entity, g.entities.lookup x.vertex = some entity ∧
      g.item? x = some (itemOf x.edge entity) ∧
      (itemOf x.edge entity).key = x.vertex := by
  obtain ⟨_, u, _, hedge⟩ := hs.edge x hx
  obtain ⟨entity, hlookup, hkey⟩ := h.entity (h.neighbour_mem hedge)
  refine ⟨entity, hlookup, ?_, hkey⟩
  rw [ProjectGraph.item?, hlookup]
  rfl

theorem Consistent.nearest (h : Consistent g) (hfuel : g.entities.length + 1 ≤ fuel) :
    Nearest g first maxHops (g.found first maxHops fuel) := by
  obtain ⟨hlayered, hempty⟩ := h.layered first maxHops hfuel
  generalize hs : search g.neighbours maxHops.toNat never fuel (start first) = s
    at hlayered hempty
  have hfound : g.found first maxHops fuel =
      s.result.map fun x => (x.depth, (g.item? x).getD noItem) := by rw [← hs]; rfl
  have hkeys : (g.found first maxHops fuel).map (·.2.key) = s.result.map (·.vertex) := by
    rw [hfound, List.map_map]
    apply List.map_congr_left
    intro x hx
    obtain ⟨entity, _, hitem, hkey⟩ := h.told hlayered hx
    rw [Function.comp_apply, hitem, Option.getD_some, hkey]
  constructor
  case once => exact hkeys ▸ hlayered.toSound.result_nodup
  case exact =>
    intro v
    rw [hkeys, hlayered.result_iff hempty, h.joined]
    have hbound (n : ℕ) (hn : 1 ≤ n) : n ≤ maxHops.toNat ↔ (n : ℤ) ≤ maxHops := by omega
    constructor
    · rintro ⟨n, hone, hle, hdistance⟩
      exact ⟨n, hone, (hbound n hone).mp hle, hdistance⟩
    · rintro ⟨n, hone, hle, hdistance⟩
      exact ⟨n, hone, (hbound n hone).mpr hle, hdistance⟩
  case distance =>
    rw [hfound]
    intro y hy
    obtain ⟨x, hx, rfl⟩ := List.mem_map.mp hy
    obtain ⟨entity, _, hitem, hkey⟩ := h.told hlayered hx
    rw [hitem, Option.getD_some, hkey, ← h.joined]
    exact (hlayered.result_mem hempty hx).1
  case ordered =>
    rw [hfound, List.pairwise_map]
    exact hlayered.toSound.result_ordered
  case told =>
    rw [hfound]
    intro y hy
    obtain ⟨x, hx, rfl⟩ := List.mem_map.mp hy
    obtain ⟨entity, hlookup, hitem, hkey⟩ := h.told hlayered hx
    obtain ⟨_, u, hwalk, hedge⟩ := hlayered.edge x hx
    obtain ⟨hedge, htarget⟩ := mem_neighbours.mp hedge
    rw [hitem, Option.getD_some, hkey, ← h.joined]
    exact ⟨entity, x.edge, hlookup, ⟨u, hwalk, hedge⟩, htarget, rfl⟩

/-- A limit leaves the head of what is found without it. -/
theorem Consistent.related (h : Consistent g) (hfuel : g.entities.length + 1 ≤ fuel)
    (maxItems : ℤ) : g.related fuel first maxHops maxItems =
      some (((g.found first maxHops fuel).map Prod.snd).take maxItems.toNat) := by
  have hstop (n : ℕ) : decide (maxItems ≤ n) = true ↔ maxItems.toNat ≤ n := by
    rw [decide_eq_true_iff]
    omega
  have hcut := search_cut hstop g.neighbours maxHops.toNat fuel
    (s := start first) (Nat.zero_le _)
  obtain ⟨hlayered, _⟩ := h.layered first maxHops hfuel
  rw [ProjectGraph.related, hcut, mapM_some (k := fun x => (g.item? x).getD noItem)]
  · rw [ProjectGraph.found, List.map_map, List.map_take]
    rfl
  · intro x hx
    obtain ⟨entity, _, hitem, _⟩ := h.told hlayered (List.mem_of_mem_take hx)
    rw [hitem, Option.getD_some]

/-- Enough rounds find the same. -/
theorem Consistent.found_eq (h : Consistent g) (hfuel : g.entities.length + 1 ≤ fuel) :
    g.found first maxHops fuel = g.found first maxHops (g.entities.length + 1) := by
  obtain ⟨_, hempty⟩ := h.layered first maxHops (Nat.le_refl _)
  rw [ProjectGraph.found, ProjectGraph.found, search_more hempty hfuel]

/-- Each is within the hops of the other. -/
theorem Nearest.symm {a b : String} {foundA foundB : List (ℕ × RelatedItem)}
    (ha : Nearest g a maxHops foundA) (hb : Nearest g b maxHops foundB)
    (h : b ∈ foundA.map (·.2.key)) : a ∈ foundB.map (·.2.key) := by
  obtain ⟨n, hone, hle, hdistance⟩ := (ha.exact b).mp h
  have hback := hdistance.symm fun _ _ hjoined => hjoined.symm
  exact (hb.exact a).mpr ⟨n, hone, hle, hback⟩

end Search

/-- `related` returns the head of the one sequence of everything within the hops, all of it where
`maxItems` is not reached, and of two calls that do not reach it each finds the other's start
or none does. -/
theorem related_nearest {g : ProjectGraph} (h : Built g) (maxHops : ℤ) :
    ∃ sequence : String → List (ℕ × RelatedItem),
      (∀ a, Nearest g a maxHops (sequence a)) ∧
      (∀ a maxItems fuel, g.entities.length + 1 ≤ fuel →
        g.related fuel a maxHops maxItems =
          some (((sequence a).map Prod.snd).take maxItems.toNat)) ∧
      (∀ a b, b ∈ (sequence a).map (·.2.key) ↔ a ∈ (sequence b).map (·.2.key)) ∧
      ∀ a b limitA limitB fuel itemsA itemsB, g.entities.length + 1 ≤ fuel →
        g.related fuel a maxHops limitA = some itemsA → (itemsA.length : ℤ) < limitA →
        g.related fuel b maxHops limitB = some itemsB → (itemsB.length : ℤ) < limitB →
        itemsA = (sequence a).map Prod.snd ∧
          (b ∈ itemsA.map (·.key) ↔ a ∈ itemsB.map (·.key)) := by
  have hg := h.consistent
  have hnearest (a : String) :
      Nearest g a maxHops (g.found a maxHops (g.entities.length + 1)) :=
    hg.nearest (Nat.le_refl _)
  have hrelated (a : String) (maxItems : ℤ) (fuel : ℕ) (hfuel : g.entities.length + 1 ≤ fuel) :
      g.related fuel a maxHops maxItems = some (((g.found a maxHops
        (g.entities.length + 1)).map Prod.snd).take maxItems.toNat) := by
    rw [hg.related hfuel, hg.found_eq hfuel]
  have hsymm (a b : String) :
      b ∈ (g.found a maxHops (g.entities.length + 1)).map (·.2.key) ↔
        a ∈ (g.found b maxHops (g.entities.length + 1)).map (·.2.key) :=
    ⟨(hnearest a).symm (hnearest b), (hnearest b).symm (hnearest a)⟩
  -- a call that does not reach its limit returns the whole sequence
  have hwhole {a : String} {limit : ℤ} {fuel : ℕ} {items : List RelatedItem}
      (hfuel : g.entities.length + 1 ≤ fuel) (hitems : g.related fuel a maxHops limit = some items)
      (hshort : (items.length : ℤ) < limit) :
      items = (g.found a maxHops (g.entities.length + 1)).map Prod.snd := by
    obtain rfl := Option.some.inj ((hrelated a limit fuel hfuel).symm.trans hitems)
    rw [List.length_take] at hshort
    exact List.take_of_length_le (by omega)
  refine ⟨fun a => g.found a maxHops (g.entities.length + 1), hnearest, hrelated, hsymm, ?_⟩
  intro a b limitA limitB fuel itemsA itemsB hfuel hA hlimitA hB hlimitB
  obtain rfl := hwhole hfuel hA hlimitA
  obtain rfl := hwhole hfuel hB hlimitB
  refine ⟨rfl, ?_⟩
  rw [List.map_map, List.map_map]
  exact hsymm a b

/-- A task that two others depend on. -/
def hub : ProjectGraph :=
  let tasks := ((ProjectGraph.empty.addEntity "task" "h" [] none []).addEntity
    "task" "x" [] none []).addEntity "task" "y" [] none []
  (tasks.edge "task:h" "task:x" "depends_on" "todo" "high").edge
    "task:h" "task:y" "depends_on" "todo" "high"

theorem hub_built : Built hub :=
  .edge _ _ _ _ _ (.edge _ _ _ _ _ (.entity _ _ _ _ _ (.entity _ _ _ _ _
    (.entity _ _ _ _ _ .empty))))

/-- Within one hop every task finds another one, with and without a limit. -/
theorem hub_related_nearest : ∃ sequence : String → List (ℕ × RelatedItem),
    (∀ a, Nearest hub a 1 (sequence a)) ∧
      hub.related 4 "task:h" 1 60 = some (((sequence "task:h").map Prod.snd).take 60) ∧
      hub.related 4 "task:h" 1 1 = some (((sequence "task:h").map Prod.snd).take 1) := by
  obtain ⟨sequence, hnearest, hrelated, _⟩ := related_nearest hub_built 1
  exact ⟨sequence, hnearest, hrelated "task:h" 60 4 (by decide), hrelated "task:h" 1 4 (by decide)⟩

/-- A limit hides the second task from the hub, but not the hub from the second task. -/
theorem related_not_symmetric : ¬ ∀ (g : ProjectGraph) (a b : String) (maxHops maxItems : ℤ)
    (fuel : ℕ) (itemsA itemsB : List RelatedItem), Built g → g.entities.length + 1 ≤ fuel →
      g.related fuel a maxHops maxItems = some itemsA →
      g.related fuel b maxHops maxItems = some itemsB →
      (b ∈ itemsA.map (·.key) ↔ a ∈ itemsB.map (·.key)) := by
  intro h
  have hhub : (hub.related 4 "task:h" 1 1).map (·.map (·.key)) = some ["task:x"] := by decide
  have htask : (hub.related 4 "task:y" 1 1).map (·.map (·.key)) = some ["task:h"] := by decide
  obtain ⟨itemsA, hA, hkeysA⟩ := Option.map_eq_some_iff.mp hhub
  obtain ⟨itemsB, hB, hkeysB⟩ := Option.map_eq_some_iff.mp htask
  have hiff := h hub "task:h" "task:y" 1 1 4 itemsA itemsB hub_built (by decide) hA hB
  rw [hkeysA, hkeysB] at hiff
  have habsent : "task:y" ∉ ["task:x"] := by decide
  exact habsent (hiff.mpr List.mem_cons_self)

end ProjectControl.Graph
