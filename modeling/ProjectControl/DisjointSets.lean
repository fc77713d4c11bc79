import Mathlib.Data.Finset.Card
import Mathlib.Logic.Relation
import Mathlib.Order.Lattice

/-! Disjoint sets over an ordered type: every element points to one that is no larger, the search
for a root halves the path, and the larger of two roots is put under the smaller one. -/

set_option autoImplicit false

/-- Elements with their parents, none of which is above its element. -/
structure Forest (α : Type*) [LinearOrder α] where
  keys : Finset α
  parent : α → α
  closed : ∀ v ∈ keys, parent v ∈ keys
  below : ∀ v ∈ keys, parent v ≤ v

namespace Forest

variable {α : Type*} [LinearOrder α]

section Operations

/-- Every element on its own. -/
def discrete (keys : Finset α) : Forest α := ⟨keys, id, fun _ hv => hv, fun _ _ => le_rfl⟩

variable (F : Forest α) {u v p : α}

def point (v p : α) (hp : p ∈ F.keys) (hle : p ≤ v) : Forest α where
  keys := F.keys
  parent := Function.update F.parent v p
  closed := by
    intro w hw
    by_cases h : w = v
    · rw [h, Function.update_self]
      exact hp
    · rw [Function.update_of_ne h]
      exact F.closed w hw
  below := by
    intro w hw
    by_cases h : w = v
    · rw [h, Function.update_self]
      exact hle
    · rw [Function.update_of_ne h]
      exact F.below w hw

theorem parent_lt (hv : v ∈ F.keys) (hne : F.parent v ≠ v) : F.parent v < v :=
  lt_of_le_of_ne (F.below v hv) hne

theorem grandparent_mem (hv : v ∈ F.keys) : F.parent (F.parent v) ∈ F.keys :=
  F.closed _ (F.closed v hv)

theorem grandparent_lt (hv : v ∈ F.keys) (hne : F.parent v ≠ v) :
    F.parent (F.parent v) < v :=
  lt_of_le_of_lt (F.below _ (F.closed v hv)) (F.parent_lt hv hne)

/-- The elements that are smaller get fewer. -/
theorem smaller_lt {keys : Finset α} {w : α} (hw : w ∈ keys) (hlt : w < v) :
    (keys.filter (· < w)).card < (keys.filter (· < v)).card := by
  apply Finset.card_lt_card
  rw [Finset.ssubset_iff_of_subset]
  · refine ⟨w, Finset.mem_filter.mpr ⟨hw, hlt⟩, fun h => ?_⟩
    exact lt_irrefl w (Finset.mem_filter.mp h).2
  · intro x hx
    obtain ⟨hx, hxw⟩ := Finset.mem_filter.mp hx
    exact Finset.mem_filter.mpr ⟨hx, hxw.trans hlt⟩

/-- The root above an element; the path to it is halved. -/
def find (F : Forest α) (v : α) (hv : v ∈ F.keys) : Forest α × α :=
  if h : F.parent v = v then (F, v)
  else find (F.point v (F.parent (F.parent v)) (F.grandparent_mem hv) (F.grandparent_lt hv h).le)
      (F.parent (F.parent v)) (F.grandparent_mem hv)
termination_by (F.keys.filter (· < v)).card
decreasing_by exact smaller_lt (F.grandparent_mem hv) (F.grandparent_lt hv h)

/-- The root above an element. -/
def root (F : Forest α) (v : α) : α :=
  if _h : v ∈ F.keys ∧ F.parent v ≠ v then root F (F.parent v) else v
termination_by (F.keys.filter (· < v)).card
decreasing_by exact smaller_lt (F.closed v _h.1) (F.parent_lt _h.1 _h.2)

end Operations

section Roots

variable {F : Forest α} {u v w p : α}

theorem root_outside (hv : v ∉ F.keys) : F.root v = v := by
  rw [root, dif_neg fun h => hv h.1]

theorem root_fixed (h : F.parent v = v) : F.root v = v := by
  rw [root, dif_neg fun hne => hne.2 h]

theorem root_parent (hv : v ∈ F.keys) : F.root (F.parent v) = F.root v := by
  by_cases h : F.parent v = v
  · rw [h]
  · rw [root.eq_def F v, dif_pos ⟨hv, h⟩]

/-- What holds of an element if it holds of its parent holds of all elements. -/
theorem climb {P : α → Prop} (F : Forest α)
    (h : ∀ v ∈ F.keys, (F.parent v ≠ v → P (F.parent v)) → P v) : ∀ v ∈ F.keys, P v := by
  intro v hv
  induction hn : (F.keys.filter (· < v)).card using Nat.strong_induction_on generalizing v with
  | _ n ih =>
    refine h v hv fun hne => ?_
    exact ih _ (hn ▸ smaller_lt (F.closed v hv) (F.parent_lt hv hne)) _ (F.closed v hv) rfl

theorem root_mem (hv : v ∈ F.keys) : F.root v ∈ F.keys := by
  refine F.climb (P := fun v => F.root v ∈ F.keys) (fun v hv ih => ?_) v hv
  by_cases h : F.parent v = v
  · rw [root_fixed h]
    exact hv
  · rw [← root_parent hv]
    exact ih h

theorem parent_root (hv : v ∈ F.keys) : F.parent (F.root v) = F.root v := by
  refine F.climb (P := fun v => F.parent (F.root v) = F.root v) (fun v hv ih => ?_) v hv
  by_cases h : F.parent v = v
  · rw [root_fixed h]
    exact h
  · rw [← root_parent hv]
    exact ih h

/-- A new parent of the same root leaves every root. -/
theorem root_point_same (hv : v ∈ F.keys) (hp : p ∈ F.keys) (hlt : p < v)
    (hroot : F.root p = F.root v) (hne : F.parent v ≠ v) (w : α) :
    (F.point v p hp hlt.le).root w = F.root w := by
  by_cases hw : w ∈ F.keys
  · refine (F.point v p hp hlt.le).climb
      (P := fun w => (F.point v p hp hlt.le).root w = F.root w) (fun w hw ih => ?_) w hw
    by_cases h : w = v
    · subst h
      have hparent : (F.point w p hp hlt.le).parent w = p := Function.update_self ..
      have hne' : (F.point w p hp hlt.le).parent w ≠ w := by rw [hparent]; exact hlt.ne
      rw [← root_parent hw, ih hne', hparent, hroot]
    · have hparent : (F.point v p hp hlt.le).parent w = F.parent w := Function.update_of_ne h ..
      by_cases hfixed : F.parent w = w
      · rw [root_fixed hfixed, root_fixed (hparent.trans hfixed)]
      · have hne' : (F.point v p hp hlt.le).parent w ≠ w := by rw [hparent]; exact hfixed
        rw [← root_parent hw, ih hne', hparent, root_parent (F := F) hw]
  · have hw' : w ∉ (F.point v p hp hlt.le).keys := hw
    rw [root_outside hw', root_outside hw]

/-- A root that is put under another one takes its elements along. -/
theorem root_point_root (hv : v ∈ F.keys) (hp : p ∈ F.keys) (hlt : p < v)
    (hroot : F.parent v = v) (hfixed : F.parent p = p) (w : α) :
    (F.point v p hp hlt.le).root w = if F.root w = v then p else F.root w := by
  by_cases hw : w ∈ F.keys
  · refine (F.point v p hp hlt.le).climb (P := fun w => (F.point v p hp hlt.le).root w =
      if F.root w = v then p else F.root w) (fun w hw ih => ?_) w hw
    by_cases h : w = v
    · subst h
      have hparent : (F.point w p hp hlt.le).parent w = p := Function.update_self ..
      have htop : (F.point w p hp hlt.le).parent p = p :=
        (Function.update_of_ne hlt.ne ..).trans hfixed
      rw [← root_parent hw, hparent, root_fixed htop, root_fixed hroot, if_pos rfl]
    · have hparent : (F.point v p hp hlt.le).parent w = F.parent w := Function.update_of_ne h ..
      by_cases hself : F.parent w = w
      · rw [root_fixed hself, root_fixed (hparent.trans hself), if_neg h]
      · have hne' : (F.point v p hp hlt.le).parent w ≠ w := by rw [hparent]; exact hself
        rw [← root_parent hw, ih hne', hparent, root_parent (F := F) hw]
  · have hne : w ≠ v := fun h => hw (h ▸ hv)
    have hw' : w ∉ (F.point v p hp hlt.le).keys := hw
    rw [root_outside hw', root_outside hw, if_neg hne]

/-- A search finds the root, and leaves the elements and their roots. -/
theorem find_spec (F : Forest α) (v : α) (hv : v ∈ F.keys) :
    (F.find v hv).1.keys = F.keys ∧ (∀ w, (F.find v hv).1.root w = F.root w) ∧
      (F.find v hv).2 = F.root v := by
  fun_induction find F v hv with
  | case1 F v hv h => exact ⟨rfl, fun _ => rfl, (root_fixed h).symm⟩
  | case2 F v hv h ih =>
    have hroot : F.root (F.parent (F.parent v)) = F.root v := by
      rw [root_parent (F.closed v hv), root_parent hv]
    have hsame := root_point_same hv (F.grandparent_mem hv) (F.grandparent_lt hv h) hroot h
    obtain ⟨hkeys, hroots, hfound⟩ := ih
    refine ⟨hkeys, fun w => (hroots w).trans (hsame w), ?_⟩
    rw [hfound, hsame, hroot]

theorem find_keys (F : Forest α) (v : α) (hv : v ∈ F.keys) : (F.find v hv).1.keys = F.keys :=
  (F.find_spec v hv).1

end Roots

section Union

variable (F : Forest α) (u v : α) (hu : u ∈ F.keys) (hv : v ∈ F.keys)

/-- The forest after both searches, and the two roots. -/
def findBoth : Forest α × α × α :=
  let a := F.find u hu
  let b := a.1.find v (by rw [F.find_keys u hu]; exact hv)
  (b.1, a.2, b.2)

theorem findBoth_spec : (F.findBoth u v hu hv).1.keys = F.keys ∧
    (∀ w, (F.findBoth u v hu hv).1.root w = F.root w) ∧
    (F.findBoth u v hu hv).2 = (F.root u, F.root v) := by
  have hv' : v ∈ (F.find u hu).1.keys := by rw [F.find_keys u hu]; exact hv
  obtain ⟨hkeys, hroots, hfound⟩ := F.find_spec u hu
  obtain ⟨hkeys', hroots', hfound'⟩ := (F.find u hu).1.find_spec v hv'
  exact ⟨hkeys'.trans hkeys, fun w => (hroots' w).trans (hroots w),
    Prod.ext hfound (hfound'.trans (hroots v))⟩

theorem min_mem_findBoth : min (F.findBoth u v hu hv).2.1 (F.findBoth u v hu hv).2.2 ∈
    (F.findBoth u v hu hv).1.keys := by
  obtain ⟨hkeys, _, hfound⟩ := F.findBoth_spec u v hu hv
  rw [hkeys, hfound]
  rcases min_choice (F.root u) (F.root v) with h | h
  · rw [h]
    exact root_mem hu
  · rw [h]
    exact root_mem hv

/-- Puts the larger of the two roots under the smaller one. -/
def union : Forest α :=
  let found := F.findBoth u v hu hv
  if found.2.1 ≠ found.2.2 then
    found.1.point (max found.2.1 found.2.2) (min found.2.1 found.2.2)
      (F.min_mem_findBoth u v hu hv) min_le_max
  else found.1

theorem union_keys : (F.union u v hu hv).keys = F.keys := by
  rw [← (F.findBoth_spec u v hu hv).1, union]
  split <;> rfl

/-- The elements of the larger root go to the smaller one. -/
theorem union_root (w : α) : (F.union u v hu hv).root w =
    if F.root w = max (F.root u) (F.root v) then min (F.root u) (F.root v) else F.root w := by
  obtain ⟨hkeys, hroots, hfound⟩ := F.findBoth_spec u v hu hv
  have hfirst := congrArg Prod.fst hfound
  have hsecond := congrArg Prod.snd hfound
  dsimp only at hfirst hsecond
  have htop {x : α} (hx : x ∈ F.keys) :
      (F.findBoth u v hu hv).1.parent (F.root x) = F.root x := by
    rw [← hroots x]
    exact parent_root (hkeys ▸ hx)
  have hchoice (x : α) (hx : x = F.root u ∨ x = F.root v) :
      x ∈ (F.findBoth u v hu hv).1.keys ∧ (F.findBoth u v hu hv).1.parent x = x := by
    rw [hkeys]
    rcases hx with rfl | rfl
    · exact ⟨root_mem hu, htop hu⟩
    · exact ⟨root_mem hv, htop hv⟩
  obtain ⟨hmaxMem, hmaxTop⟩ := hchoice _ (max_choice (F.root u) (F.root v))
  obtain ⟨hminMem, hminTop⟩ := hchoice _ (min_choice (F.root u) (F.root v))
  rw [union]
  split
  · next hne =>
    rw [hfirst, hsecond] at hne
    have hlt : min (F.root u) (F.root v) < max (F.root u) (F.root v) := min_lt_max.mpr hne
    have hpoint := root_point_root hmaxMem hminMem hlt hmaxTop hminTop w
    rw [hroots w] at hpoint
    rw [← hpoint]
    simp only [hfirst, hsecond]
  · next heq =>
    rw [not_not, hfirst, hsecond] at heq
    rw [hroots w, heq, max_self, min_self]
    split
    · next h => exact h
    · rfl

end Union

section Classes

variable {F : Forest α} {R : α → α → Prop} {u v x y : α}

omit [LinearOrder α] in
theorem eq_of_eqvGen {β : Type*} {f : α → β} (h : ∀ x y, R x y → f x = f y)
    (hxy : Relation.EqvGen R x y) : f x = f y := by
  induction hxy with
  | rel x y hxy => exact h x y hxy
  | refl => rfl
  | symm _ _ _ ih => exact ih.symm
  | trans _ _ _ _ _ ih ih' => exact ih.trans ih'

/-- Two elements have one root exactly when the relation connects them. -/
def Represents (F : Forest α) (R : α → α → Prop) : Prop :=
  ∀ x y, F.root x = F.root y ↔ Relation.EqvGen R x y

theorem represents_root (F : Forest α) : F.Represents (fun x y => F.root x = F.root y) :=
  fun x y => ⟨fun h => .rel x y h, fun h => eq_of_eqvGen (fun _ _ h => h) h⟩

theorem represents_discrete (keys : Finset α) :
    (discrete keys).Represents (fun _ _ => False) := by
  intro x y
  rw [root_fixed rfl, root_fixed rfl]
  exact ⟨fun h => h ▸ .refl x, fun h => eq_of_eqvGen (f := id) (fun _ _ h => h.elim) h⟩

/-- A union connects two more elements. -/
theorem Represents.union (h : F.Represents R) (hu : u ∈ F.keys) (hv : v ∈ F.keys) :
    (F.union u v hu hv).Represents (fun x y => R x y ∨ (x = u ∧ y = v)) := by
  have hold {x y : α} (hxy : F.root x = F.root y) :
      Relation.EqvGen (fun x y => R x y ∨ (x = u ∧ y = v)) x y :=
    Relation.EqvGen.mono (fun _ _ => .inl) x y ((h x y).mp hxy)
  have hjoin : Relation.EqvGen (fun x y => R x y ∨ (x = u ∧ y = v)) u v :=
    .rel u v (.inr ⟨rfl, rfl⟩)
  -- each root of the two has an element that is connected with `u`
  have hboth {x : α} (hx : F.root x = F.root u ∨ F.root x = F.root v) :
      Relation.EqvGen (fun x y => R x y ∨ (x = u ∧ y = v)) x u := by
    rcases hx with hx | hx
    · exact hold hx
    · exact (hold hx).trans _ _ _ hjoin.symm
  have hmax := max_choice (F.root u) (F.root v)
  have hmin := min_choice (F.root u) (F.root v)
  intro x y
  constructor
  · intro hxy
    rw [union_root, union_root] at hxy
    split_ifs at hxy with hx hy hy
    · exact hold (hx.trans hy.symm)
    · exact (hboth (hx ▸ hmax)).trans _ _ _ (hboth (hxy ▸ hmin)).symm
    · exact (hboth (hxy ▸ hmin)).trans _ _ _ (hboth (hy ▸ hmax)).symm
    · exact hold hxy
  · refine eq_of_eqvGen fun x y hxy => ?_
    rcases hxy with hxy | ⟨rfl, rfl⟩
    · rw [union_root, union_root, (h x y).mpr (.rel x y hxy)]
    · rw [union_root, union_root]
      rcases le_total (F.root x) (F.root y) with hle | hle
      · rw [max_eq_right hle, min_eq_left hle, if_pos rfl]
        split <;> rfl
      · rw [max_eq_left hle, min_eq_right hle, if_pos rfl]
        split <;> rfl

end Classes

end Forest
