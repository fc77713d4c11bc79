import Mathlib.Logic.Relation
import Mathlib.Data.List.Basic

/-! The closure of a list under a successor function, computed with a stack of the items that
are still to be expanded. -/

set_option autoImplicit false

namespace Worklist

open Relation

variable {α : Type} [DecidableEq α] {next : α → List α} {univ start : List α} {a b : α}

/-- The items found so far, and those of them that are still to be expanded. -/
structure Progress (α : Type) where
  found : List α
  pending : List α

namespace Progress

def add (s : Progress α) (a : α) : Progress α :=
  if a ∈ s.found then s else ⟨a :: s.found, a :: s.pending⟩

/-- The bound on the rounds that are left: an item is pushed when it is found, and every
item that is found later is one of `univ`. -/
def left (univ : List α) (s : Progress α) : ℕ :=
  s.pending.length + (univ.filter (fun a => a ∉ s.found)).length

theorem mem_found_add {s : Progress α} : b ∈ (s.add a).found ↔ b = a ∨ b ∈ s.found := by
  unfold add
  split
  · rename_i h
    exact ⟨Or.inr, fun hb => hb.elim (fun hb => hb ▸ h) id⟩
  · exact List.mem_cons

theorem mem_pending_add {s : Progress α} (h : b ∈ s.pending) : b ∈ (s.add a).pending := by
  unfold add
  split
  · exact h
  · exact List.mem_cons_of_mem a h

theorem pending_of_add {s : Progress α} (h : b ∈ (s.add a).found) (hs : b ∉ s.found) :
    b ∈ (s.add a).pending := by
  unfold add at h ⊢
  split at h
  · exact absurd h hs
  · rename_i hnew
    rw [if_neg hnew]
    exact (List.mem_cons.mp h).elim (fun h => h ▸ List.mem_cons_self) (fun h => absurd h hs)

theorem left_add {s : Progress α} (ha : a ∈ univ) : (s.add a).left univ ≤ s.left univ := by
  unfold add
  split
  · exact Nat.le_refl _
  · rename_i hnew
    have hsub : (univ.filter (fun b => b ∉ a :: s.found)).Sublist
        (univ.filter (fun b => b ∉ s.found)) :=
      List.monotone_filter_right univ (fun b hb => by
        simp only [decide_eq_true_eq] at hb ⊢
        exact fun h => hb (List.mem_cons_of_mem a h))
    have hne : univ.filter (fun b => b ∉ a :: s.found) ≠ univ.filter (fun b => b ∉ s.found) := by
      intro heq
      have hmem : a ∈ univ.filter (fun b => b ∉ s.found) :=
        List.mem_filter.mpr ⟨ha, decide_eq_true hnew⟩
      rw [← heq] at hmem
      have hout := of_decide_eq_true (List.mem_filter.mp hmem).2
      exact hout List.mem_cons_self
    have hlt : (univ.filter (fun b => b ∉ a :: s.found)).length
        < (univ.filter (fun b => b ∉ s.found)).length :=
      Nat.lt_of_le_of_ne hsub.length_le (fun h => hne (hsub.eq_of_length h))
    simp only [left, List.length_cons]
    omega

end Progress

open Progress

/-- Expands pending items until none is left, for at most `fuel` rounds. -/
def expand (next : α → List α) : ℕ → Progress α → List α
  | 0, s => s.found
  | _ + 1, ⟨found, []⟩ => found
  | fuel + 1, ⟨found, a :: pending⟩ => expand next fuel ((next a).foldl add ⟨found, pending⟩)

/-- The items that are reached from `start`, where every successor is one of `univ`. -/
def closure (next : α → List α) (univ start : List α) : List α :=
  expand next (start.length + univ.length) ⟨start, start⟩

/-- Everything found is reached from `start`, and what is not pending has been expanded. -/
structure Sound (next : α → List α) (start : List α) (s : Progress α) : Prop where
  kept : ∀ a ∈ start, a ∈ s.found
  reached : ∀ a ∈ s.found, ∃ b ∈ start, ReflTransGen (fun x y => y ∈ next x) b a
  expanded : ∀ a ∈ s.found, a ∈ s.pending ∨ ∀ b ∈ next a, b ∈ s.found

omit [DecidableEq α] in
theorem sound_start : Sound next start ⟨start, start⟩ :=
  ⟨fun _ h => h, fun a h => ⟨a, h, .refl⟩, fun _ h => .inl h⟩

theorem mem_found_foldl {items : List α} {s : Progress α} :
    b ∈ (items.foldl add s).found ↔ b ∈ items ∨ b ∈ s.found := by
  induction items generalizing s with
  | nil => simp
  | cons c rest ih => rw [List.foldl_cons, ih, mem_found_add, List.mem_cons, or_assoc, or_left_comm]

theorem pending_subset {s : Progress α} (h : ∀ b ∈ s.pending, b ∈ s.found) :
    ∀ b ∈ (s.add a).pending, b ∈ (s.add a).found := by
  unfold add
  split
  · exact h
  · intro b hb
    exact List.mem_cons.mpr ((List.mem_cons.mp hb).imp_right (h b))

theorem pending_subset_foldl {items : List α} {s : Progress α}
    (h : ∀ b ∈ s.pending, b ∈ s.found) :
    ∀ b ∈ (items.foldl add s).pending, b ∈ (items.foldl add s).found := by
  induction items generalizing s with
  | nil => exact h
  | cons c rest ih => exact ih (pending_subset h)

theorem mem_pending_foldl {items : List α} {s : Progress α} (h : b ∈ s.pending) :
    b ∈ (items.foldl add s).pending := by
  induction items generalizing s with
  | nil => exact h
  | cons c rest ih => exact ih (mem_pending_add h)

theorem pending_of_foldl {items : List α} {s : Progress α} (h : b ∈ (items.foldl add s).found)
    (hs : b ∉ s.found) : b ∈ (items.foldl add s).pending := by
  induction items generalizing s with
  | nil => exact absurd h hs
  | cons c rest ih =>
    by_cases hc : b ∈ (s.add c).found
    · exact mem_pending_foldl (s := s.add c) (pending_of_add hc hs)
    · exact ih (s := s.add c) h hc

theorem left_foldl {items : List α} {s : Progress α} (h : ∀ a ∈ items, a ∈ univ) :
    (items.foldl add s).left univ ≤ s.left univ := by
  induction items generalizing s with
  | nil => exact Nat.le_refl _
  | cons c rest ih =>
    have hrest := ih (s := s.add c) (fun a ha => h a (List.mem_cons_of_mem c ha))
    exact Nat.le_trans hrest (left_add (h c List.mem_cons_self))

theorem Sound.expand {found pending : List α} (h : Sound next start ⟨found, a :: pending⟩)
    (ha : a ∈ found) : Sound next start ((next a).foldl add ⟨found, pending⟩) := by
  refine ⟨fun b hb => mem_found_foldl.mpr (.inr (h.kept b hb)), fun b hb => ?_, fun b hb => ?_⟩
  · rcases mem_found_foldl.mp hb with hnext | hold
    · obtain ⟨c, hc, hreach⟩ := h.reached a ha
      exact ⟨c, hc, hreach.tail hnext⟩
    · exact h.reached b hold
  · by_cases hold : b ∈ found
    · rcases h.expanded b hold with hpend | hdone
      · rcases List.mem_cons.mp hpend with rfl | hpend
        · exact .inr (fun c hc => mem_found_foldl.mpr (.inl hc))
        · exact .inl (mem_pending_foldl hpend)
      · exact .inr (fun c hc => mem_found_foldl.mpr (.inr (hdone c hc)))
    · exact .inl (pending_of_foldl hb hold)

/-- With enough fuel the expansion ends with nothing pending. -/
theorem sound_expand {fuel : ℕ} {s : Progress α} (hnext : ∀ a, ∀ b ∈ next a, b ∈ univ)
    (hsub : ∀ a ∈ s.pending, a ∈ s.found) (h : Sound next start s) (hfuel : s.left univ ≤ fuel) :
    Sound next start ⟨expand next fuel s, []⟩ := by
  induction fuel generalizing s with
  | zero =>
    obtain ⟨found, pending⟩ := s
    have hpending : pending = [] := by
      apply List.eq_nil_of_length_eq_zero
      simp only [left] at hfuel
      omega
    subst hpending
    exact h
  | succ fuel ih =>
    obtain ⟨found, _ | ⟨a, pending⟩⟩ := s
    · exact h
    · have ha : a ∈ found := hsub a List.mem_cons_self
      refine ih ?_ (h.expand ha) ?_
      · exact pending_subset_foldl (fun c hc => hsub c (List.mem_cons_of_mem a hc))
      · have hle := left_foldl (s := ⟨found, pending⟩) (hnext a)
        simp only [left, List.length_cons] at hfuel hle ⊢
        omega

/-- The computed closure is the set of items reached from `start`. -/
theorem mem_closure (hnext : ∀ a, ∀ b ∈ next a, b ∈ univ) :
    a ∈ closure next univ start ↔ ∃ b ∈ start, ReflTransGen (fun x y => y ∈ next x) b a := by
  have hsound : Sound next start ⟨closure next univ start, []⟩ := by
    refine sound_expand hnext (fun _ h => h) sound_start ?_
    exact Nat.add_le_add_left (List.length_filter_le _ _) _
  constructor
  · exact hsound.reached a
  rintro ⟨b, hb, hreach⟩
  induction hreach with
  | refl => exact hsound.kept b hb
  | tail _ hcd ih =>
    rcases hsound.expanded _ ih with hpend | hdone
    · cases hpend
    · exact hdone _ hcd

end Worklist
