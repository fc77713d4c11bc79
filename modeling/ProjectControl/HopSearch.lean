import Mathlib.Data.List.Basic
import Mathlib.Data.List.Infix
import Mathlib.Data.List.Nodup
import Mathlib.Data.Nat.Notation
import Mathlib.Order.Basic

/-! Breadth-first search from one vertex, no further than a number of hops, which may be cut off
when it has found enough: what it finds, in which order, and what a cut leaves of it. -/

set_option autoImplicit false

namespace HopSearch

variable {V E : Type}

/-- A vertex, the edge over which it was found, and how many hops away. -/
structure Visit (V E : Type) where
  vertex : V
  edge : E
  depth : ℕ

structure State (V E : Type) where
  queue : List (V × ℕ)
  seen : List V
  result : List (Visit V E)

def State.add (s : State V E) (v : V) (e : E) (depth : ℕ) : State V E where
  queue := s.queue ++ [(v, depth + 1)]
  seen := v :: s.seen
  result := s.result ++ [⟨v, e, depth + 1⟩]

/-- Looks at the neighbours of a vertex; `stop` tells whether so many results are enough. -/
def expand [DecidableEq V] (stop : ℕ → Bool) (depth : ℕ) : List (V × E) → State V E → State V E
  | [], s => s
  | (v, e) :: rest, s =>
    if v ∈ s.seen then expand stop depth rest s
    else
      if stop (s.add v e depth).result.length then s.add v e depth
      else expand stop depth rest (s.add v e depth)

/-- Takes vertices from the queue for at most `fuel` rounds. -/
def search [DecidableEq V] (adj : V → List (V × E)) (hops : ℕ) (stop : ℕ → Bool) :
    ℕ → State V E → State V E
  | 0, s => s
  | fuel + 1, s =>
    match s.queue with
    | [] => s
    | (v, depth) :: queue =>
      if stop s.result.length then s
      else if hops ≤ depth then search adj hops stop fuel { s with queue := queue }
      else search adj hops stop fuel (expand stop depth (adj v) { s with queue := queue })

def start (v : V) : State V E := ⟨[(v, 0)], [v], []⟩

/-- A walk of so many steps. -/
inductive Walk (R : V → V → Prop) : V → ℕ → V → Prop
  | nil (v : V) : Walk R v 0 v
  | snoc {u v w : V} {n : ℕ} : Walk R u n v → R v w → Walk R u (n + 1) w

/-- The least number of steps of a walk. -/
def Distance (R : V → V → Prop) (u : V) (n : ℕ) (v : V) : Prop :=
  Walk R u n v ∧ ∀ m, Walk R u m v → n ≤ m

/-- One vertex is a neighbour of another. -/
def Linked (adj : V → List (V × E)) (u v : V) : Prop := ∃ e, (v, e) ∈ adj u

section Symmetry

variable {R : V → V → Prop} {u v w : V} {m n : ℕ}

theorem Walk.trans (h : Walk R u m v) (h' : Walk R v n w) : Walk R u (m + n) w := by
  induction h' with
  | nil => exact h
  | snoc _ hstep ih => exact ih.snoc hstep

theorem Walk.reverse (hsymm : ∀ x y, R x y → R y x) (h : Walk R u n v) : Walk R v n u := by
  induction h with
  | nil => exact .nil _
  | @snoc v w n _ hstep ih =>
    have hfirst : Walk R w 1 v := (Walk.nil w).snoc (hsymm v w hstep)
    have hwalk := hfirst.trans ih
    rwa [Nat.add_comm] at hwalk

theorem Distance.symm (hsymm : ∀ x y, R x y → R y x) (h : Distance R u n v) :
    Distance R v n u :=
  ⟨h.1.reverse hsymm, fun m hm => h.2 m (hm.reverse hsymm)⟩

end Symmetry

section Invariant

variable {adj : V → List (V × E)} {hops : ℕ} {a : V} {s : State V E}

/-- The first vertex and the results with their depths, in the order in which they were found. -/
def State.found (s : State V E) (a : V) : List (V × ℕ) :=
  (a, 0) :: s.result.map fun x => (x.vertex, x.depth)

/-- Every neighbour was found no more than one hop further away. -/
def Covers (found : List (V × ℕ)) (depth : ℕ) (edges : List (V × E)) : Prop :=
  ∀ edge ∈ edges, ∃ y ∈ found, y.1 = edge.1 ∧ y.2 ≤ depth + 1

/-- What was found has been found once, on walks no longer than the number of hops, the nearer
vertices first. -/
structure Sound (adj : V → List (V × E)) (hops : ℕ) (a : V) (s : State V E) : Prop where
  once : ((s.found a).map Prod.fst).Nodup
  seen : ∀ v, v ∈ s.seen ↔ v ∈ (s.found a).map Prod.fst
  walk : ∀ x ∈ s.found a, Walk (Linked adj) a x.2 x.1
  short : ∀ x ∈ s.found a, x.2 ≤ hops
  ordered : (s.found a).Pairwise (fun x y => x.2 ≤ y.2)
  edge : ∀ x ∈ s.result, 1 ≤ x.depth ∧ ∃ u, Walk (Linked adj) a (x.depth - 1) u ∧
    (x.vertex, x.edge) ∈ adj u
  queue : ∀ x ∈ s.queue, x ∈ s.found a
  sorted : s.queue.Pairwise (fun x y => x.2 ≤ y.2)

/-- Between two rounds: nothing was found more than one hop further away than what is in the
queue, and what is not in the queue has been expanded, if it is not too far away. -/
structure Layered (adj : V → List (V × E)) (hops : ℕ) (a : V) (s : State V E) : Prop
    extends Sound adj hops a s where
  near : ∀ x ∈ s.found a, ∀ y ∈ s.queue, x.2 ≤ y.2 + 1
  expanded : ∀ x ∈ s.found a, x.2 < hops → x ∈ s.queue ∨ Covers (s.found a) x.2 (adj x.1)

/-- While the neighbours of `current` are looked at, `tried` of them so far. -/
structure Expanding (adj : V → List (V × E)) (hops : ℕ) (a : V) (current : V × ℕ)
    (tried : List (V × E)) (s : State V E) : Prop extends Sound adj hops a s where
  mem : current ∈ s.found a
  above : ∀ y ∈ s.queue, current.2 ≤ y.2
  near : ∀ x ∈ s.found a, x.2 ≤ current.2 + 1
  expanded : ∀ x ∈ s.found a, x.2 < hops →
    x ∈ s.queue ∨ x = current ∨ Covers (s.found a) x.2 (adj x.1)
  covered : Covers (s.found a) current.2 tried

theorem Covers.mono {found found' : List (V × ℕ)} {depth : ℕ} {edges : List (V × E)}
    (h : Covers found depth edges) (hsub : ∀ y ∈ found, y ∈ found') :
    Covers found' depth edges := by
  intro edge hedge
  obtain ⟨y, hy, hrest⟩ := h edge hedge
  exact ⟨y, hsub y hy, hrest⟩

theorem layered_start (adj : V → List (V × E)) (hops : ℕ) (a : V) :
    Layered adj hops a (start a) := by
  have hfound : (start a : State V E).found a = [(a, 0)] := rfl
  constructor
  case toSound =>
    constructor
    case once => rw [hfound]; exact List.nodup_singleton _
    case seen => intro v; rw [hfound]; exact Iff.rfl
    case walk => rintro x hx; obtain rfl := List.mem_singleton.mp hx; exact .nil a
    case short => rintro x hx; obtain rfl := List.mem_singleton.mp hx; exact Nat.zero_le _
    case ordered => exact List.pairwise_singleton _ _
    case edge => exact fun x hx => absurd hx List.not_mem_nil
    case queue => exact fun x hx => hx
    case sorted => exact List.pairwise_singleton _ _
  case near =>
    rintro x hx y hy
    obtain rfl := List.mem_singleton.mp hx
    exact Nat.zero_le _
  case expanded => exact fun x hx _ => .inl hx

theorem found_add (s : State V E) (a v : V) (e : E) (depth : ℕ) :
    (s.add v e depth).found a = s.found a ++ [(v, depth + 1)] := by
  simp [State.found, State.add]

/-- A neighbour that was found before is skipped. -/
theorem Expanding.skip {current : V × ℕ} {tried : List (V × E)} {edge : V × E}
    (h : Expanding adj hops a current tried s) (hseen : edge.1 ∈ s.seen) :
    Expanding adj hops a current (tried ++ [edge]) s := by
  refine { h with covered := fun other hother => ?_ }
  rcases List.mem_append.mp hother with hold | hnew
  · exact h.covered other hold
  · obtain rfl := List.mem_singleton.mp hnew
    obtain ⟨y, hy, hvertex⟩ := List.mem_map.mp ((h.seen other.1).mp hseen)
    exact ⟨y, hy, hvertex, h.near y hy⟩

/-- A new neighbour is found one hop after the current vertex. -/
theorem Expanding.add {current : V × ℕ} {tried : List (V × E)} {v : V} {e : E}
    (h : Expanding adj hops a current tried s) (hhops : current.2 < hops)
    (hedge : (v, e) ∈ adj current.1) (hnew : v ∉ s.seen) :
    Expanding adj hops a current (tried ++ [(v, e)]) (s.add v e current.2) := by
  have hfound := found_add s a v e current.2
  have hmem (x : V × ℕ) : x ∈ (s.add v e current.2).found a ↔
      x ∈ s.found a ∨ x = (v, current.2 + 1) := by
    rw [hfound, List.mem_append, List.mem_singleton]
  have hold (x : V × ℕ) (hx : x ∈ s.found a) : x ∈ (s.add v e current.2).found a :=
    (hmem x).mpr (.inl hx)
  have hlast : (v, current.2 + 1) ∈ (s.add v e current.2).found a := (hmem _).mpr (.inr rfl)
  have hfresh : v ∉ (s.found a).map Prod.fst := fun hv => hnew ((h.seen v).mpr hv)
  constructor
  case toSound =>
    constructor
    case once =>
      rw [hfound, List.map_append]
      exact h.once.append (List.nodup_singleton _) (by simpa using hfresh)
    case seen =>
      intro w
      rw [hfound, List.map_append, List.mem_append, ← h.seen w]
      simp [State.add, or_comm]
    case walk =>
      intro x hx
      rcases (hmem x).mp hx with hx | rfl
      · exact h.walk x hx
      · exact (h.walk current h.mem).snoc ⟨e, hedge⟩
    case short =>
      intro x hx
      rcases (hmem x).mp hx with hx | rfl
      · exact h.short x hx
      · exact hhops
    case ordered =>
      rw [hfound]
      refine List.pairwise_append.mpr ⟨h.ordered, List.pairwise_singleton _ _, ?_⟩
      intro x hx y hy
      obtain rfl := List.mem_singleton.mp hy
      exact h.near x hx
    case edge =>
      intro x hx
      rcases List.mem_append.mp hx with hx | hx
      · exact h.edge x hx
      · obtain rfl := List.mem_singleton.mp hx
        exact ⟨Nat.succ_pos _, current.1, h.walk current h.mem, hedge⟩
    case queue =>
      intro x hx
      rcases List.mem_append.mp hx with hx | hx
      · exact hold x (h.queue x hx)
      · obtain rfl := List.mem_singleton.mp hx
        exact hlast
    case sorted =>
      refine List.pairwise_append.mpr ⟨h.sorted, List.pairwise_singleton _ _, ?_⟩
      intro x hx y hy
      obtain rfl := List.mem_singleton.mp hy
      exact h.near x (h.queue x hx)
  case mem => exact hold current h.mem
  case above =>
    intro x hx
    rcases List.mem_append.mp hx with hx | hx
    · exact h.above x hx
    · obtain rfl := List.mem_singleton.mp hx
      exact Nat.le_succ _
  case near =>
    intro x hx
    rcases (hmem x).mp hx with hx | rfl
    · exact h.near x hx
    · exact Nat.le_refl _
  case expanded =>
    intro x hx hlt
    rcases (hmem x).mp hx with hx | rfl
    · rcases h.expanded x hx hlt with hqueue | heq | hcovers
      · exact .inl (List.mem_append_left _ hqueue)
      · exact .inr (.inl heq)
      · exact .inr (.inr (hcovers.mono hold))
    · exact .inl (List.mem_append_right _ (List.mem_singleton_self _))
  case covered =>
    intro other hother
    rcases List.mem_append.mp hother with hother | hother
    · obtain ⟨y, hy, hrest⟩ := h.covered other hother
      exact ⟨y, hold y hy, hrest⟩
    · obtain rfl := List.mem_singleton.mp hother
      exact ⟨_, hlast, rfl, Nat.le_refl _⟩

/-- A vertex that is too far away is dropped from the queue. -/
theorem Layered.drop {current : V × ℕ} {queue : List (V × ℕ)} (h : Layered adj hops a s)
    (hqueue : s.queue = current :: queue) (hdeep : hops ≤ current.2) :
    Layered adj hops a { s with queue := queue } := by
  have hsub (x : V × ℕ) (hx : x ∈ queue) : x ∈ s.queue := hqueue ▸ List.mem_cons_of_mem _ hx
  have hsorted := hqueue ▸ h.sorted
  refine ⟨{ h.toSound with queue := fun x hx => h.queue x (hsub x hx)
                           sorted := (List.pairwise_cons.mp hsorted).2 },
    fun x hx y hy => h.near x hx y (hsub y hy), fun x hx hlt => ?_⟩
  rcases h.expanded x hx hlt with hmem | hcovers
  · rw [hqueue] at hmem
    rcases List.mem_cons.mp hmem with rfl | hmem
    · exact absurd hdeep (Nat.not_le.mpr hlt)
    · exact .inl hmem
  · exact .inr hcovers

/-- The first vertex of the queue is the one to expand. -/
theorem Layered.pop {current : V × ℕ} {queue : List (V × ℕ)} (h : Layered adj hops a s)
    (hqueue : s.queue = current :: queue) :
    Expanding adj hops a current [] { s with queue := queue } := by
  have hsub (x : V × ℕ) (hx : x ∈ queue) : x ∈ s.queue := hqueue ▸ List.mem_cons_of_mem _ hx
  have hfirst : current ∈ s.queue := hqueue ▸ List.mem_cons_self
  have hsorted := hqueue ▸ h.sorted
  refine ⟨{ h.toSound with queue := fun x hx => h.queue x (hsub x hx)
                           sorted := (List.pairwise_cons.mp hsorted).2 },
    h.queue current hfirst, (List.pairwise_cons.mp hsorted).1,
    fun x hx => h.near x hx current hfirst, fun x hx hlt => ?_, fun edge hedge => nomatch hedge⟩
  rcases h.expanded x hx hlt with hmem | hcovers
  · rw [hqueue] at hmem
    rcases List.mem_cons.mp hmem with heq | hmem
    · exact .inr (.inl heq)
    · exact .inl hmem
  · exact .inr (.inr hcovers)

/-- A vertex whose neighbours were all looked at is expanded. -/
theorem Expanding.layered {current : V × ℕ}
    (h : Expanding adj hops a current (adj current.1) s) : Layered adj hops a s := by
  refine ⟨h.toSound, fun x hx y hy => ?_, fun x hx hlt => ?_⟩
  · exact Nat.le_trans (h.near x hx) (Nat.succ_le_succ (h.above y hy))
  · rcases h.expanded x hx hlt with hqueue | rfl | hcovers
    · exact .inl hqueue
    · exact .inr h.covered
    · exact .inr hcovers

/-- Where the queue is empty, everything within the hops was found, no further away than it is. -/
theorem Layered.nearest (h : Layered adj hops a s) (hempty : s.queue = []) {v : V} {n : ℕ}
    (hwalk : Walk (Linked adj) a n v) (hn : n ≤ hops) : ∃ y ∈ s.found a, y.1 = v ∧ y.2 ≤ n := by
  induction hwalk with
  | nil => exact ⟨(a, 0), List.mem_cons_self, rfl, Nat.le_refl 0⟩
  | snoc _ hedge ih =>
    obtain ⟨e, hedge⟩ := hedge
    obtain ⟨x, hx, rfl, hle⟩ := ih (by omega)
    rcases h.expanded x hx (by omega) with hqueue | hcovers
    · rw [hempty] at hqueue
      cases hqueue
    · obtain ⟨y, hy, hvertex, hnext⟩ := hcovers _ hedge
      exact ⟨y, hy, hvertex, by omega⟩

end Invariant

section Runs

variable [DecidableEq V] {adj : V → List (V × E)} {hops : ℕ} {a : V} {s : State V E}

/-- A search that never has enough. -/
def never : ℕ → Bool := fun _ => false

theorem expand_known {stop : ℕ → Bool} {depth : ℕ} {v : V} {e : E} {rest : List (V × E)}
    (h : v ∈ s.seen) : expand stop depth ((v, e) :: rest) s = expand stop depth rest s := if_pos h

theorem expand_enough {stop : ℕ → Bool} {depth : ℕ} {v : V} {e : E} {rest : List (V × E)}
    (h : v ∉ s.seen) (hstop : stop (s.add v e depth).result.length = true) :
    expand stop depth ((v, e) :: rest) s = s.add v e depth := (if_neg h).trans (if_pos hstop)

theorem expand_new {stop : ℕ → Bool} {depth : ℕ} {v : V} {e : E} {rest : List (V × E)}
    (h : v ∉ s.seen) (hstop : stop (s.add v e depth).result.length = false) :
    expand stop depth ((v, e) :: rest) s = expand stop depth rest (s.add v e depth) :=
  (if_neg h).trans (if_neg (Bool.eq_false_iff.mp hstop))

theorem search_empty {stop : ℕ → Bool} {fuel : ℕ} (h : s.queue = []) :
    search adj hops stop fuel s = s := by
  cases fuel with
  | zero => rfl
  | succ fuel => rw [search, h]

theorem search_stop {stop : ℕ → Bool} {fuel : ℕ} (hstop : stop s.result.length = true) :
    search adj hops stop fuel s = s := by
  cases fuel with
  | zero => rfl
  | succ fuel =>
    rw [search]
    split
    · rfl
    · exact if_pos hstop

theorem search_deep {stop : ℕ → Bool} {fuel depth : ℕ} {v : V} {queue : List (V × ℕ)}
    (h : s.queue = (v, depth) :: queue) (hstop : stop s.result.length = false)
    (hdeep : hops ≤ depth) : search adj hops stop (fuel + 1) s =
      search adj hops stop fuel { s with queue := queue } := by
  rw [search, h]
  dsimp only
  rw [if_neg (Bool.eq_false_iff.mp hstop), if_pos hdeep]

theorem search_near {stop : ℕ → Bool} {fuel depth : ℕ} {v : V} {queue : List (V × ℕ)}
    (h : s.queue = (v, depth) :: queue) (hstop : stop s.result.length = false)
    (hnear : ¬ hops ≤ depth) : search adj hops stop (fuel + 1) s =
      search adj hops stop fuel (expand stop depth (adj v) { s with queue := queue }) := by
  rw [search, h]
  dsimp only
  rw [if_neg (Bool.eq_false_iff.mp hstop), if_neg hnear]

theorem expanding_expand {current : V × ℕ} (hhops : current.2 < hops) {rest : List (V × E)}
    (hrest : ∀ edge ∈ rest, edge ∈ adj current.1) {tried : List (V × E)}
    (h : Expanding adj hops a current tried s) :
    Expanding adj hops a current (tried ++ rest) (expand never current.2 rest s) := by
  induction rest generalizing s tried with
  | nil => rwa [List.append_nil]
  | cons edge rest ih =>
    obtain ⟨v, e⟩ := edge
    have hnext := fun edge hedge => hrest edge (List.mem_cons_of_mem _ hedge)
    rw [List.append_cons]
    by_cases hv : v ∈ s.seen
    · rw [expand_known hv]
      exact ih hnext (h.skip hv)
    · rw [expand_new hv rfl]
      exact ih hnext (h.add hhops (hrest _ List.mem_cons_self) hv)

/-- The rounds that are left: every vertex that is found later is one of `univ`. -/
def State.left (s : State V E) (univ : List V) : ℕ :=
  s.queue.length + (univ.filter (fun v => v ∉ s.seen)).length

theorem filter_unseen_lt {univ seen : List V} {v : V} (hv : v ∈ univ) (hnew : v ∉ seen) :
    (univ.filter (fun w => w ∉ v :: seen)).length < (univ.filter (fun w => w ∉ seen)).length := by
  have hsplit : univ.filter (fun w => w ∉ v :: seen) =
      (univ.filter (fun w => w ∉ seen)).filter (fun w => w ≠ v) := by
    rw [List.filter_filter]
    apply List.filter_congr
    intro w _
    simp only [List.mem_cons, not_or, Bool.decide_and]
  rw [hsplit]
  apply List.length_filter_lt_length_iff_exists.mpr
  exact ⟨v, List.mem_filter.mpr ⟨hv, by simpa using hnew⟩, by simp⟩

theorem left_expand {univ : List V} {depth : ℕ} {rest : List (V × E)}
    (hrest : ∀ edge ∈ rest, edge.1 ∈ univ) :
    (expand never depth rest s).left univ ≤ s.left univ := by
  induction rest generalizing s with
  | nil => exact Nat.le_refl _
  | cons edge rest ih =>
    obtain ⟨v, e⟩ := edge
    have hnext := fun edge hedge => hrest edge (List.mem_cons_of_mem _ hedge)
    by_cases hv : v ∈ s.seen
    · rw [expand_known hv]
      exact ih hnext
    · rw [expand_new hv rfl]
      have hlt := filter_unseen_lt (v := v) (hrest (v, e) List.mem_cons_self) hv
      have hlength : (s.add v e depth).queue.length = s.queue.length + 1 := by simp [State.add]
      refine Nat.le_trans (ih hnext) ?_
      rw [State.left, State.left, hlength]
      change _ + (univ.filter (fun w => w ∉ v :: s.seen)).length ≤ _
      omega

/-- A search that never has enough empties its queue. -/
theorem search_layered (univ : List V) (huniv : ∀ v, ∀ edge ∈ adj v, edge.1 ∈ univ) {fuel : ℕ}
    (h : Layered adj hops a s) (hfuel : s.left univ ≤ fuel) :
    Layered adj hops a (search adj hops never fuel s) ∧
      (search adj hops never fuel s).queue = [] := by
  induction fuel generalizing s with
  | zero =>
    have hempty : s.queue = [] := by
      rw [State.left] at hfuel
      exact List.length_eq_zero_iff.mp (by omega)
    exact ⟨h, hempty⟩
  | succ fuel ih =>
    rcases hqueue : s.queue with _ | ⟨⟨v, depth⟩, queue⟩
    · rw [search_empty hqueue]
      exact ⟨h, hqueue⟩
    · have hpopped : ({ s with queue := queue } : State V E).left univ ≤ fuel := by
        rw [State.left, hqueue, List.length_cons] at hfuel
        rw [State.left]
        dsimp only
        omega
      by_cases hdeep : hops ≤ depth
      · rw [search_deep hqueue rfl hdeep]
        exact ih (h.drop hqueue hdeep) hpopped
      · rw [search_near hqueue rfl hdeep]
        have hexpanding := expanding_expand (Nat.lt_of_not_le hdeep) (fun edge hedge => hedge)
          (h.pop hqueue)
        exact ih hexpanding.layered (Nat.le_trans (left_expand (huniv v)) hpopped)

/-- More rounds do nothing where the queue is empty. -/
theorem search_more {fuel more : ℕ} (h : (search adj hops never fuel s).queue = [])
    (hle : fuel ≤ more) : search adj hops never more s = search adj hops never fuel s := by
  induction fuel generalizing s more with
  | zero => exact search_empty h
  | succ fuel ih =>
    obtain ⟨more, rfl⟩ := Nat.exists_eq_add_of_le' (Nat.le_trans (Nat.succ_pos fuel) hle)
    rcases hqueue : s.queue with _ | ⟨⟨v, depth⟩, queue⟩
    · rw [search_empty hqueue, search_empty hqueue]
    · by_cases hdeep : hops ≤ depth
      · rw [search_deep hqueue rfl hdeep] at h ⊢
        rw [search_deep hqueue rfl hdeep]
        exact ih h (Nat.le_of_succ_le_succ hle)
      · rw [search_near hqueue rfl hdeep] at h ⊢
        rw [search_near hqueue rfl hdeep]
        exact ih h (Nat.le_of_succ_le_succ hle)

end Runs

section Cut

variable [DecidableEq V] {adj : V → List (V × E)} {hops limit : ℕ} {stop : ℕ → Bool}
  {s : State V E}

theorem result_expand (depth : ℕ) (rest : List (V × E)) (s : State V E) :
    s.result <+: (expand never depth rest s).result := by
  induction rest generalizing s with
  | nil => exact List.prefix_rfl
  | cons edge rest ih =>
    obtain ⟨v, e⟩ := edge
    by_cases hv : v ∈ s.seen
    · rw [expand_known hv]
      exact ih s
    · rw [expand_new hv rfl]
      exact (List.prefix_append s.result _).trans (ih (s.add v e depth))

theorem result_search (adj : V → List (V × E)) (hops fuel : ℕ) (s : State V E) :
    s.result <+: (search adj hops never fuel s).result := by
  induction fuel generalizing s with
  | zero => exact List.prefix_rfl
  | succ fuel ih =>
    rcases hqueue : s.queue with _ | ⟨⟨v, depth⟩, queue⟩
    · rw [search_empty hqueue]
    · by_cases hdeep : hops ≤ depth
      · rw [search_deep hqueue rfl hdeep]
        exact ih { s with queue := queue }
      · rw [search_near hqueue rfl hdeep]
        exact (result_expand depth (adj v) { s with queue := queue }).trans (ih _)

/-- The neighbours are looked at in the same order until there are enough results. -/
theorem expand_cut (hstop : ∀ n, stop n = true ↔ limit ≤ n) (depth : ℕ) (rest : List (V × E))
    (hs : s.result.length < limit) :
    (expand stop depth rest s).result = (expand never depth rest s).result.take limit ∧
      ((expand never depth rest s).result.length < limit →
        expand stop depth rest s = expand never depth rest s) := by
  induction rest generalizing s with
  | nil => exact ⟨(List.take_of_length_le (Nat.le_of_lt hs)).symm, fun _ => rfl⟩
  | cons edge rest ih =>
    obtain ⟨v, e⟩ := edge
    by_cases hv : v ∈ s.seen
    · rw [expand_known hv, expand_known hv]
      exact ih hs
    · have hlength : (s.add v e depth).result.length = s.result.length + 1 := by
        simp [State.add]
      have hnew : expand never depth ((v, e) :: rest) s =
          expand never depth rest (s.add v e depth) := expand_new hv rfl
      rw [hnew]
      by_cases henough : limit ≤ (s.add v e depth).result.length
      · -- the limit is reached here, and the full search only adds to the results
        obtain ⟨more, hmore⟩ := result_expand depth rest (s.add v e depth)
        have hexact : (s.add v e depth).result.length = limit := by omega
        rw [expand_enough hv ((hstop _).mpr henough), ← hmore, ← hexact, List.take_left]
        refine ⟨rfl, fun hlt => ?_⟩
        rw [List.length_append] at hlt
        omega
      · have hgo : stop (s.add v e depth).result.length = false :=
          Bool.eq_false_iff.mpr fun h => henough ((hstop _).mp h)
        rw [expand_new hv hgo]
        exact ih (by omega)

/-- What a limit leaves is the head of what would be found without it. -/
theorem search_cut (hstop : ∀ n, stop n = true ↔ limit ≤ n) (adj : V → List (V × E))
    (hops fuel : ℕ) (hs : s.result.length ≤ limit) :
    (search adj hops stop fuel s).result = (search adj hops never fuel s).result.take limit := by
  have hdone {s : State V E} (fuel : ℕ) (hs : limit ≤ s.result.length) :
      search adj hops stop fuel s = s := search_stop ((hstop _).mpr hs)
  rcases Nat.lt_or_eq_of_le hs with hlt | hexact
  · induction fuel generalizing s with
    | zero => exact (List.take_of_length_le hs).symm
    | succ fuel ih =>
      rcases hqueue : s.queue with _ | ⟨⟨v, depth⟩, queue⟩
      · rw [search_empty hqueue, search_empty hqueue]
        exact (List.take_of_length_le hs).symm
      · have hgo : stop s.result.length = false :=
          Bool.eq_false_iff.mpr fun h => Nat.not_le.mpr hlt ((hstop _).mp h)
        by_cases hdeep : hops ≤ depth
        · rw [search_deep hqueue hgo hdeep, search_deep hqueue rfl hdeep]
          exact ih hs hlt
        · rw [search_near hqueue hgo hdeep, search_near hqueue rfl hdeep]
          obtain ⟨hcut, hsame⟩ := expand_cut hstop depth (adj v)
            (s := { s with queue := queue }) hlt
          by_cases hmore : (expand never depth (adj v) { s with queue := queue }).result.length <
              limit
          · rw [hsame hmore]
            exact ih (Nat.le_of_lt hmore) hmore
          · -- the limit is reached while this vertex is expanded
            have henough := Nat.le_of_not_lt hmore
            have hlength : limit ≤
                (expand stop depth (adj v) { s with queue := queue }).result.length := by
              rw [hcut, List.length_take]
              omega
            obtain ⟨more, hrest⟩ := result_search adj hops fuel
              (expand never depth (adj v) { s with queue := queue })
            rw [hdone fuel hlength, hcut, ← hrest, List.take_append_of_le_length henough]
  · obtain ⟨more, hrest⟩ := result_search adj hops fuel s
    rw [hdone fuel (Nat.le_of_eq hexact.symm), ← hrest, ← hexact, List.take_left]

end Cut

section Results

variable {adj : V → List (V × E)} {hops : ℕ} {a : V} {s : State V E}

theorem Layered.distance (h : Layered adj hops a s) (hempty : s.queue = []) {x : V × ℕ}
    (hx : x ∈ s.found a) : Distance (Linked adj) a x.2 x.1 := by
  refine ⟨h.walk x hx, fun m hm => ?_⟩
  by_cases hle : m ≤ hops
  · obtain ⟨y, hy, hvertex, hdepth⟩ := h.nearest hempty hm hle
    have heq : y = x := List.inj_on_of_nodup_map h.once hy hx hvertex
    exact heq ▸ hdepth
  · have hshort := h.short x hx
    omega

theorem Layered.result_mem (h : Layered adj hops a s) (hempty : s.queue = []) {x : Visit V E}
    (hx : x ∈ s.result) :
    Distance (Linked adj) a x.depth x.vertex ∧ 1 ≤ x.depth ∧ x.depth ≤ hops := by
  have hfound : (x.vertex, x.depth) ∈ s.found a :=
    List.mem_cons_of_mem _ (List.mem_map.mpr ⟨x, hx, rfl⟩)
  exact ⟨h.distance hempty hfound, (h.edge x hx).1, h.short _ hfound⟩

/-- What is found is what is at a distance of at least one and at most the number of hops. -/
theorem Layered.result_iff (h : Layered adj hops a s) (hempty : s.queue = []) {v : V} :
    v ∈ s.result.map (·.vertex) ↔ ∃ n, 1 ≤ n ∧ n ≤ hops ∧ Distance (Linked adj) a n v := by
  constructor
  · intro hv
    obtain ⟨x, hx, rfl⟩ := List.mem_map.mp hv
    obtain ⟨hdistance, hone, hle⟩ := h.result_mem hempty hx
    exact ⟨x.depth, hone, hle, hdistance⟩
  · rintro ⟨n, hone, hle, hdistance⟩
    obtain ⟨y, hy, rfl, hdepth⟩ := h.nearest hempty hdistance.1 hle
    rcases List.mem_cons.mp hy with rfl | hy
    · -- the first vertex is at no distance
      have hzero := hdistance.2 0 (.nil a)
      omega
    · obtain ⟨x, hx, rfl⟩ := List.mem_map.mp hy
      exact List.mem_map_of_mem hx

theorem Sound.result_nodup (h : Sound adj hops a s) : (s.result.map (·.vertex)).Nodup := by
  have honce := h.once
  rw [State.found, List.map_cons, List.map_map] at honce
  exact (List.nodup_cons.mp honce).2

theorem Sound.result_ordered (h : Sound adj hops a s) :
    s.result.Pairwise (fun x y => x.depth ≤ y.depth) := by
  have hordered := h.ordered
  rw [State.found, List.pairwise_cons, List.pairwise_map] at hordered
  exact hordered.2

end Results

end HopSearch
