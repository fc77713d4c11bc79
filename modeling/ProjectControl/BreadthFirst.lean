import Mathlib.Data.List.Basic
import Mathlib.Data.List.Nodup
import Mathlib.Data.List.Perm.Subperm
import Mathlib.Data.Nat.Notation
import Mathlib.Order.Basic

/-! Breadth-first search with witnesses over labelled edges, which a budget may stop inside a
list of neighbours. -/

set_option autoImplicit false

namespace BreadthFirst

variable {V E : Type}

/-- A vertex with the labels of the way that found it. -/
structure Found (V E : Type) where
  vertex : V
  chain : List E

structure Progress (V E : Type) where
  queue : List (Found V E)
  visited : List V
  results : List (Found V E)
  traversed : ℕ
  cycles : ℕ

/-- Looks at the neighbours of a vertex; a stop tells how many of them are left. -/
def expand [DecidableEq V] (stop : Progress V E → Bool) (chain : List E) :
    List (V × E) → Progress V E → Progress V E × Option ℕ
  | [], s => (s, none)
  | (v, e) :: rest, s =>
    if stop s then (s, some (rest.length + 1))
    else if v ∈ s.visited then
      expand stop chain rest { s with traversed := s.traversed + 1, cycles := s.cycles + 1 }
    else
      expand stop chain rest { s with
        traversed := s.traversed + 1
        visited := v :: s.visited
        results := s.results ++ [⟨v, chain ++ [e]⟩]
        queue := s.queue ++ [⟨v, chain ++ [e]⟩] }

/-- Takes vertices from the queue for at most `fuel` rounds. The vertices that a stop leaves
are returned with the number of their neighbours. -/
def search [DecidableEq V] (adj : V → List (V × E)) (stop : Progress V E → Bool) :
    ℕ → Progress V E → Progress V E × List (V × ℕ)
  | 0, s => (s, [])
  | fuel + 1, s =>
    match s.queue with
    | [] => (s, [])
    | current :: queue =>
      match expand stop current.chain (adj current.vertex) { s with queue := queue } with
      | (s, none) => search adj stop fuel s
      | (s, some left) => ({ s with queue := [] }, (current.vertex, left) ::
          s.queue.map (fun f => (f.vertex, (adj f.vertex).length)))

def start (seeds : List V) : Progress V E where
  queue := seeds.map (fun v => ⟨v, []⟩)
  visited := seeds
  results := []
  traversed := 0
  cycles := 0

/-- The labels of a way along the edges. -/
inductive Path (adj : V → List (V × E)) : V → List E → V → Prop
  | nil (v : V) : Path adj v [] v
  | snoc {u v w : V} {chain : List E} {e : E} :
      Path adj u chain v → (w, e) ∈ adj v → Path adj u (chain ++ [e]) w

theorem Path.eq_of_nil {adj : V → List (V × E)} {u v : V} (h : Path adj u [] v) : u = v := by
  generalize hchain : ([] : List E) = chain at h
  cases h with
  | nil => rfl
  | snoc _ _ => exact absurd hchain.symm (List.append_ne_nil_of_right_ne_nil _ (by simp))

section Invariant

variable {adj : V → List (V × E)} {seeds : List V} {s : Progress V E}

/-- The seeds and the results, in the order in which they were found. -/
def Progress.found (s : Progress V E) (seeds : List V) : List (Found V E) :=
  seeds.map (fun v => ⟨v, []⟩) ++ s.results

/-- Every neighbour was found on a way that is at most one edge longer. -/
def Expanded (adj : V → List (V × E)) (found : List (Found V E)) (x : Found V E) : Prop :=
  ∀ a ∈ adj x.vertex, ∃ y ∈ found, y.vertex = a.1 ∧ y.chain.length ≤ x.chain.length + 1

/-- What was found has been found once, on ways along the edges. -/
structure Sound (adj : V → List (V × E)) (seeds : List V) (s : Progress V E) : Prop where
  once : ((s.found seeds).map (·.vertex)).Nodup
  visited : ∀ v, v ∈ s.visited ↔ v ∈ (s.found seeds).map (·.vertex)
  path : ∀ x ∈ s.found seeds, ∃ u ∈ seeds, Path adj u x.chain x.vertex

/-- The queue holds what is still to be expanded, the shorter ways first, and nothing was found
on a way that is more than one edge longer than one in the queue. -/
structure Ordered (adj : V → List (V × E)) (seeds : List V) (s : Progress V E) : Prop where
  sound : Sound adj seeds s
  queue : ∀ x ∈ s.queue, x ∈ s.found seeds
  sorted : s.queue.Pairwise (fun x y => x.chain.length ≤ y.chain.length)
  near : ∀ x ∈ s.found seeds, ∀ y ∈ s.queue, x.chain.length ≤ y.chain.length + 1
  expanded : ∀ x ∈ s.found seeds, x ∈ s.queue ∨ Expanded adj (s.found seeds) x

/-- The same while the neighbours of `current` are looked at, `seen` of them so far. -/
structure Expanding (adj : V → List (V × E)) (seeds : List V) (current : Found V E)
    (seen : List (V × E)) (s : Progress V E) : Prop where
  sound : Sound adj seeds s
  mem : current ∈ s.found seeds
  queue : ∀ x ∈ s.queue, x ∈ s.found seeds
  sorted : s.queue.Pairwise (fun x y => x.chain.length ≤ y.chain.length)
  above : ∀ y ∈ s.queue, current.chain.length ≤ y.chain.length
  near : ∀ x ∈ s.found seeds, x.chain.length ≤ current.chain.length + 1
  expanded : ∀ x ∈ s.found seeds,
    x ∈ s.queue ∨ x = current ∨ Expanded adj (s.found seeds) x
  covered : ∀ a ∈ seen, ∃ y ∈ s.found seeds,
    y.vertex = a.1 ∧ y.chain.length ≤ current.chain.length + 1

theorem vertices_start (seeds : List V) :
    (seeds.map (fun v => (⟨v, []⟩ : Found V E))).map (·.vertex) = seeds := by
  rw [List.map_map]
  exact List.map_id seeds

theorem ordered_start (hseeds : seeds.Nodup) : Ordered adj seeds (start seeds) where
  sound := by
    refine ⟨?_, fun v => ?_, fun x hx => ?_⟩
    · rw [start, Progress.found, List.append_nil, vertices_start]
      exact hseeds
    · rw [start, Progress.found, List.append_nil, vertices_start]
    · obtain ⟨v, hv, rfl⟩ : ∃ v ∈ seeds, (⟨v, []⟩ : Found V E) = x := by
        simpa [start, Progress.found] using hx
      exact ⟨v, hv, .nil v⟩
  queue := fun x hx => List.mem_append_left _ hx
  sorted := by
    rw [start, List.pairwise_map]
    exact List.pairwise_of_forall (fun _ _ => Nat.le_refl 0)
  near := by
    intro x hx y hy
    obtain ⟨v, -, rfl⟩ : ∃ v ∈ seeds, (⟨v, []⟩ : Found V E) = x := by
      simpa [start, Progress.found] using hx
    exact Nat.zero_le _
  expanded := fun x hx => Or.inl (by simpa [start, Progress.found] using hx)

/-- A neighbour that was found before is counted only. -/
theorem Expanding.known {current : Found V E} {seen : List (V × E)} {a : V × E} {n k : ℕ}
    (h : Expanding adj seeds current seen s) (ha : a.1 ∈ s.visited) :
    Expanding adj seeds current (seen ++ [a]) { s with traversed := n, cycles := k } where
  sound := ⟨h.sound.once, h.sound.visited, h.sound.path⟩
  mem := h.mem
  queue := h.queue
  sorted := h.sorted
  above := h.above
  near := h.near
  expanded := h.expanded
  covered := by
    intro b hb
    rcases List.mem_append.mp hb with hseen | hnew
    · exact h.covered b hseen
    · obtain rfl := List.mem_singleton.mp hnew
      obtain ⟨y, hy, hvertex⟩ := List.mem_map.mp ((h.sound.visited b.1).mp ha)
      exact ⟨y, hy, hvertex, h.near y hy⟩

theorem Expanded.mono {found found' : List (Found V E)} {x : Found V E} (h : Expanded adj found x)
    (hsub : ∀ y ∈ found, y ∈ found') : Expanded adj found' x := by
  intro a ha
  obtain ⟨y, hy, hrest⟩ := h a ha
  exact ⟨y, hsub y hy, hrest⟩

/-- A new neighbour is found one edge after the current vertex. -/
theorem Expanding.new {current : Found V E} {seen : List (V × E)} {a : V × E} {n : ℕ}
    (h : Expanding adj seeds current seen s) (ha : a ∈ adj current.vertex)
    (hnew : a.1 ∉ s.visited) :
    Expanding adj seeds current (seen ++ [a]) { s with
      traversed := n
      visited := a.1 :: s.visited
      results := s.results ++ [⟨a.1, current.chain ++ [a.2]⟩]
      queue := s.queue ++ [⟨a.1, current.chain ++ [a.2]⟩] } := by
  let y : Found V E := ⟨a.1, current.chain ++ [a.2]⟩
  have hlength : y.chain.length = current.chain.length + 1 := by simp [y]
  have hfound : ∀ t : Progress V E, t.results = s.results ++ [y] →
      t.found seeds = s.found seeds ++ [y] := by
    intro t ht
    rw [Progress.found, ht, ← List.append_assoc]
    rfl
  have hmem : ∀ x, x ∈ s.found seeds ++ [y] ↔ x ∈ s.found seeds ∨ x = y := by
    intro x
    rw [List.mem_append, List.mem_singleton]
  have hfresh : a.1 ∉ (s.found seeds).map (·.vertex) :=
    fun hold => hnew ((h.sound.visited a.1).mpr hold)
  constructor
  case sound =>
    refine ⟨?_, fun v => ?_, fun x hx => ?_⟩
    · rw [hfound _ rfl, List.map_append, List.map_singleton]
      exact h.sound.once.append (List.nodup_singleton _) (by simpa using hfresh)
    · rw [hfound _ rfl, List.map_append, List.map_singleton, List.mem_append, List.mem_singleton,
        List.mem_cons, h.sound.visited v, or_comm]
    · rw [hfound _ rfl, hmem] at hx
      rcases hx with hold | rfl
      · exact h.sound.path x hold
      · obtain ⟨u, hu, hpath⟩ := h.sound.path current h.mem
        exact ⟨u, hu, hpath.snoc ha⟩
  case mem =>
    rw [hfound _ rfl, hmem]
    exact Or.inl h.mem
  case queue =>
    intro x hx
    rw [hfound _ rfl, hmem]
    rcases List.mem_append.mp hx with hold | hlast
    · exact Or.inl (h.queue x hold)
    · exact Or.inr (List.mem_singleton.mp hlast)
  case sorted =>
    refine List.pairwise_append.mpr ⟨h.sorted, List.pairwise_singleton _ _, fun x hx z hz => ?_⟩
    obtain rfl := List.mem_singleton.mp hz
    exact hlength ▸ h.near x (h.queue x hx)
  case above =>
    intro x hx
    rcases List.mem_append.mp hx with hold | hlast
    · exact h.above x hold
    · obtain rfl := List.mem_singleton.mp hlast
      exact hlength ▸ Nat.le_succ _
  case near =>
    intro x hx
    rw [hfound _ rfl, hmem] at hx
    rcases hx with hold | rfl
    · exact h.near x hold
    · exact Nat.le_of_eq hlength
  case expanded =>
    intro x hx
    rw [hfound _ rfl, hmem] at hx
    rw [hfound _ rfl]
    rcases hx with hold | rfl
    · rcases h.expanded x hold with hqueue | heq | hdone
      · exact Or.inl (List.mem_append_left _ hqueue)
      · exact Or.inr (Or.inl heq)
      · exact Or.inr (Or.inr (hdone.mono (fun z hz => (hmem z).mpr (Or.inl hz))))
    · exact Or.inl (List.mem_append_right _ (List.mem_singleton.mpr rfl))
  case covered =>
    intro b hb
    rw [hfound _ rfl]
    rcases List.mem_append.mp hb with hseen | hlast
    · obtain ⟨z, hz, hrest⟩ := h.covered b hseen
      exact ⟨z, (hmem z).mpr (Or.inl hz), hrest⟩
    · obtain rfl := List.mem_singleton.mp hlast
      exact ⟨y, (hmem y).mpr (Or.inr rfl), rfl, Nat.le_of_eq hlength⟩

/-- The first vertex of the queue is the one to expand. -/
theorem Ordered.pop {current : Found V E} {queue : List (Found V E)} (h : Ordered adj seeds s)
    (hqueue : s.queue = current :: queue) :
    Expanding adj seeds current [] { s with queue := queue } where
  sound := ⟨h.sound.once, h.sound.visited, h.sound.path⟩
  mem := h.queue current (hqueue ▸ List.mem_cons_self)
  queue := fun x hx => h.queue x (hqueue ▸ List.mem_cons_of_mem _ hx)
  sorted := (List.pairwise_cons.mp (hqueue ▸ h.sorted)).2
  above := (List.pairwise_cons.mp (hqueue ▸ h.sorted)).1
  near := fun x hx => h.near x hx current (hqueue ▸ List.mem_cons_self)
  expanded := by
    intro x hx
    rcases h.expanded x hx with hmem | hdone
    · rw [hqueue] at hmem
      rcases List.mem_cons.mp hmem with heq | hrest
      · exact Or.inr (Or.inl heq)
      · exact Or.inl hrest
    · exact Or.inr (Or.inr hdone)
  covered := fun a ha => absurd ha List.not_mem_nil

/-- A vertex whose neighbours were all looked at is expanded. -/
theorem Expanding.ordered {current : Found V E}
    (h : Expanding adj seeds current (adj current.vertex) s) : Ordered adj seeds s where
  sound := h.sound
  queue := h.queue
  sorted := h.sorted
  near := fun x hx y hy => Nat.le_trans (h.near x hx) (Nat.succ_le_succ (h.above y hy))
  expanded := by
    intro x hx
    rcases h.expanded x hx with hqueue | rfl | hdone
    · exact Or.inl hqueue
    · exact Or.inr h.covered
    · exact Or.inr hdone

end Invariant

section Runs

variable [DecidableEq V] {adj : V → List (V × E)} {stop : Progress V E → Bool} {seeds : List V}
  {s : Progress V E}

/-- Neighbours are looked at in turn, all of them unless a stop comes first. -/
theorem expanding_expand (stop : Progress V E → Bool) {current : Found V E} {rest : List (V × E)}
    (hrest : ∀ a ∈ rest, a ∈ adj current.vertex) {seen : List (V × E)}
    (h : Expanding adj seeds current seen s) :
    ∃ seen', Expanding adj seeds current seen' (expand stop current.chain rest s).1 ∧
      ((expand stop current.chain rest s).2 = none → seen' = seen ++ rest) := by
  induction rest generalizing s seen with
  | nil => exact ⟨seen, h, fun _ => (List.append_nil seen).symm⟩
  | cons a rest ih =>
    obtain ⟨v, e⟩ := a
    have hmem := hrest (v, e) List.mem_cons_self
    have hnext := fun b hb => hrest b (List.mem_cons_of_mem _ hb)
    unfold expand
    split
    · exact ⟨seen, h, fun hnone => by cases hnone⟩
    · split
      · next hknown =>
        obtain ⟨seen', hexpanding, hseen⟩ := ih hnext (h.known (a := (v, e)) hknown)
        refine ⟨seen', hexpanding, fun hnone => ?_⟩
        rw [hseen hnone, List.append_assoc, List.singleton_append]
      · next hnew =>
        obtain ⟨seen', hexpanding, hseen⟩ := ih hnext (h.new hmem hnew)
        refine ⟨seen', hexpanding, fun hnone => ?_⟩
        rw [hseen hnone, List.append_assoc, List.singleton_append]

/-- The rounds that are left: every vertex that is found later is one of `univ`. -/
def Progress.left (univ : List V) (s : Progress V E) : ℕ :=
  s.queue.length + (univ.filter (fun v => v ∉ s.visited)).length

theorem filter_visit_lt {univ visited : List V} {v : V} (hv : v ∈ univ) (hnew : v ∉ visited) :
    (univ.filter (fun w => w ∉ v :: visited)).length < (univ.filter (fun w => w ∉ visited)).length := by
  have hsplit : univ.filter (fun w => w ∉ v :: visited) =
      (univ.filter (fun w => w ∉ visited)).filter (fun w => w ≠ v) := by
    rw [List.filter_filter]
    refine List.filter_congr (fun w _ => ?_)
    simp only [List.mem_cons, not_or, Bool.decide_and]
  rw [hsplit]
  refine List.length_filter_lt_length_iff_exists.mpr ⟨v, ?_, by simp⟩
  exact List.mem_filter.mpr ⟨hv, by simpa using hnew⟩

theorem left_expand {univ : List V} {chain : List E} {rest : List (V × E)}
    (hrest : ∀ a ∈ rest, a.1 ∈ univ) :
    (expand stop chain rest s).1.left univ ≤ s.left univ := by
  induction rest generalizing s with
  | nil => exact Nat.le_refl _
  | cons a rest ih =>
    obtain ⟨v, e⟩ := a
    have hnext := fun b hb => hrest b (List.mem_cons_of_mem _ hb)
    unfold expand
    split
    · exact Nat.le_refl _
    · split
      · exact ih hnext
      · next hnew =>
        have hv : v ∈ univ := hrest (v, e) List.mem_cons_self
        have hlt := filter_visit_lt hv hnew
        refine Nat.le_trans (ih hnext) ?_
        simp only [Progress.left, List.length_append, List.length_singleton]
        omega

/-- What a search found, and that nothing is left to expand unless it was stopped. -/
theorem search_spec {univ : List V} (huniv : ∀ v, ∀ a ∈ adj v, a.1 ∈ univ) {fuel : ℕ}
    (h : Ordered adj seeds s) (hfuel : s.left univ ≤ fuel) :
    Sound adj seeds (search adj stop fuel s).1 ∧
      (∀ o ∈ (search adj stop fuel s).2,
        o.1 ∈ ((search adj stop fuel s).1.found seeds).map (·.vertex)) ∧
      ((search adj stop fuel s).2 = [] → Ordered adj seeds (search adj stop fuel s).1 ∧
        (search adj stop fuel s).1.queue = []) := by
  have hnone : ∀ o : V × ℕ, o ∈ ([] : List (V × ℕ)) → o.1 ∈ (s.found seeds).map (·.vertex) :=
    fun o ho => absurd ho List.not_mem_nil
  induction fuel generalizing s with
  | zero =>
    have hempty : s.queue = [] := by
      rw [Progress.left] at hfuel
      exact List.length_eq_zero_iff.mp (by omega)
    exact ⟨h.sound, hnone, fun _ => ⟨h, hempty⟩⟩
  | succ fuel ih =>
    unfold search
    split
    · next hempty => exact ⟨h.sound, hnone, fun _ => ⟨h, hempty⟩⟩
    · next current queue hqueue =>
      obtain ⟨seen, hexpanding, hseen⟩ :=
        expanding_expand stop (fun a ha => ha) (h.pop hqueue)
      have hleft : (expand stop current.chain (adj current.vertex) { s with queue := queue }).1.left
          univ ≤ fuel := by
        refine Nat.le_trans (left_expand (huniv current.vertex)) ?_
        rw [Progress.left, hqueue, List.length_cons] at hfuel
        rw [Progress.left]
        dsimp only
        omega
      split
      · next s' hout =>
        rw [hout] at hexpanding hseen hleft
        have hall : seen = adj current.vertex := hseen rfl
        rw [hall] at hexpanding
        exact ih hexpanding.ordered hleft (fun o ho => absurd ho List.not_mem_nil)
      · next s' left hout =>
        rw [hout] at hexpanding
        refine ⟨⟨hexpanding.sound.once, hexpanding.sound.visited, hexpanding.sound.path⟩, ?_, ?_⟩
        · intro o ho
          rcases List.mem_cons.mp ho with rfl | hqueue
          · exact List.mem_map_of_mem hexpanding.mem
          · obtain ⟨x, hx, rfl⟩ := List.mem_map.mp hqueue
            exact List.mem_map.mpr ⟨x, hexpanding.queue x hx, rfl⟩
        · intro hstopped
          cases hstopped

end Runs

section Results

variable {adj : V → List (V × E)} {seeds : List V} {s : Progress V E}

theorem Sound.results_nodup (h : Sound adj seeds s) : (s.results.map (·.vertex)).Nodup := by
  have honce := h.once
  rw [Progress.found, List.map_append] at honce
  exact (List.nodup_append.mp honce).2.1

/-- A result is no seed, and its labels are those of a way to it from a seed. -/
theorem Sound.result (h : Sound adj seeds s) {x : Found V E} (hx : x ∈ s.results) :
    x.vertex ∉ seeds ∧ x.chain ≠ [] ∧ ∃ u ∈ seeds, Path adj u x.chain x.vertex := by
  have honce := h.once
  rw [Progress.found, List.map_append, vertices_start] at honce
  have hseed : x.vertex ∉ seeds := by
    intro hmem
    exact (List.nodup_append.mp honce).2.2 _ hmem _ (List.mem_map_of_mem hx) rfl
  obtain ⟨u, hu, hpath⟩ := h.path x (List.mem_append_right _ hx)
  refine ⟨hseed, fun hnil => hseed ?_, u, hu, hpath⟩
  rw [hnil] at hpath
  exact hpath.eq_of_nil ▸ hu

/-- Where nothing is left to expand, a vertex was found on a way as short as any. -/
theorem Ordered.shortest (h : Ordered adj seeds s) (hempty : s.queue = []) {u v : V}
    {chain : List E} (hu : u ∈ seeds) (hpath : Path adj u chain v) :
    ∃ y ∈ s.found seeds, y.vertex = v ∧ y.chain.length ≤ chain.length := by
  induction hpath with
  | nil =>
    exact ⟨⟨u, []⟩, List.mem_append_left _ (List.mem_map.mpr ⟨u, hu, rfl⟩), rfl, Nat.le_refl _⟩
  | snoc _ hedge ih =>
    obtain ⟨x, hx, rfl, hlength⟩ := ih
    rcases h.expanded x hx with hqueue | hdone
    · rw [hempty] at hqueue
      cases hqueue
    · obtain ⟨y, hy, hvertex, hnext⟩ := hdone _ hedge
      refine ⟨y, hy, hvertex, ?_⟩
      rw [List.length_append, List.length_singleton]
      omega

/-- A search that was not stopped finds what can be reached, each on a shortest way. -/
theorem Ordered.result_iff (h : Ordered adj seeds s) (hempty : s.queue = []) {v : V} :
    v ∈ s.results.map (·.vertex) ↔
      v ∉ seeds ∧ ∃ u ∈ seeds, ∃ chain ≠ [], Path adj u chain v := by
  constructor
  · intro hv
    obtain ⟨x, hx, rfl⟩ := List.mem_map.mp hv
    obtain ⟨hseed, hne, u, hu, hpath⟩ := h.sound.result hx
    exact ⟨hseed, u, hu, x.chain, hne, hpath⟩
  · rintro ⟨hseed, u, hu, chain, -, hpath⟩
    obtain ⟨y, hy, rfl, -⟩ := h.shortest hempty hu hpath
    rcases List.mem_append.mp hy with hstart | hresult
    · obtain ⟨w, hw, rfl⟩ := List.mem_map.mp hstart
      exact absurd hw hseed
    · exact List.mem_map_of_mem hresult

theorem Ordered.result_shortest (h : Ordered adj seeds s) (hempty : s.queue = [])
    {x : Found V E} (hx : x ∈ s.results) {u : V} {chain : List E} (hu : u ∈ seeds)
    (hpath : Path adj u chain x.vertex) : x.chain.length ≤ chain.length := by
  obtain ⟨y, hy, hvertex, hlength⟩ := h.shortest hempty hu hpath
  have heq : y = x :=
    List.inj_on_of_nodup_map h.sound.once hy (List.mem_append_right _ hx) hvertex
  exact heq ▸ hlength

end Results

end BreadthFirst
