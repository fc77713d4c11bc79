import Mathlib

/-! Walks along a partial function: from every element at most one step leads on. A walk ends if
and only if no cycle can be reached from its start. -/

set_option autoImplicit false

namespace Walks

section Walks

variable {α : Type*} (next : α → Option α)

/-- One step leads from the first to the second. -/
def Leads (a b : α) : Prop := next a = some b

/-- A walk that has come to its end. -/
inductive Ends : α → List α → Prop
  | stop {a : α} (h : next a = none) : Ends a [a]
  | step {a b : α} {path : List α} (h : next a = some b) (rest : Ends b path) : Ends a (a :: path)

/-- The walk from `a`, as far as the fuel reaches. -/
def walk : ℕ → α → Option (List α)
  | 0, _ => none
  | n + 1, a =>
    match next a with
    | none => some [a]
    | some b => (walk n b).map (a :: ·)

/-- No element that can be reached can be reached from itself again. -/
def Acyclic (a : α) : Prop :=
  ∀ b, Relation.ReflTransGen (Leads next) a b → ¬Relation.TransGen (Leads next) b b

variable {next} {a b : α} {path : List α}

theorem ends_of_walk {n : ℕ} (h : walk next n a = some path) : Ends next a path := by
  induction n generalizing a path with
  | zero => cases h
  | succ n ih =>
    rw [walk] at h
    cases hnext : next a with
    | none =>
      rw [hnext] at h
      cases h
      exact .stop hnext
    | some b =>
      rw [hnext] at h
      obtain ⟨rest, hrest, rfl⟩ := Option.map_eq_some_iff.mp h
      exact .step hnext (ih hrest)

theorem walk_of_ends (h : Ends next a path) : ∃ n, walk next n a = some path := by
  induction h with
  | stop hnext => exact ⟨1, by rw [walk, hnext]⟩
  | step hnext _ ih =>
    obtain ⟨n, hn⟩ := ih
    refine ⟨n + 1, ?_⟩
    simp only [walk, hnext, hn, Option.map_some]

theorem Ends.unique {path' : List α} (h : Ends next a path) (h' : Ends next a path') :
    path = path' := by
  induction h generalizing path' with
  | stop hnext =>
    cases h' with
    | stop _ => rfl
    | step hstep _ => cases hnext.symm.trans hstep
  | step hnext _ ih =>
    cases h' with
    | stop hstop => cases hnext.symm.trans hstop
    | step hstep hrest =>
      obtain rfl := Option.some.inj (hnext.symm.trans hstep)
      rw [ih hrest]

theorem Ends.start_mem (h : Ends next a path) : path.head? = some a := by
  cases h <;> rfl

/-- What is on the walk has been reached from its start. -/
theorem Ends.reached (h : Ends next a path) {x : α} (hx : x ∈ path) :
    Relation.ReflTransGen (Leads next) a x := by
  induction h with
  | stop _ =>
    obtain rfl := List.mem_singleton.mp hx
    exact .refl
  | step hnext _ ih =>
    rcases List.mem_cons.mp hx with rfl | hx
    · exact .refl
    · exact .head hnext (ih hx)

/-- From what can be reached the walk goes on as the rest of it. -/
theorem Ends.suffix (h : Ends next a path) (hab : Relation.ReflTransGen (Leads next) a b) :
    ∃ rest, Ends next b rest ∧ rest.length ≤ path.length := by
  induction hab using Relation.ReflTransGen.head_induction_on generalizing path with
  | refl => exact ⟨path, h, Nat.le_refl _⟩
  | head hstep _ ih =>
    cases h with
    | stop hstop => cases hstop.symm.trans hstep
    | step hnext hrest =>
      obtain rfl := Option.some.inj (hnext.symm.trans hstep)
      obtain ⟨rest, hends, hlength⟩ := ih hrest
      exact ⟨rest, hends, Nat.le_succ_of_le hlength⟩

theorem Ends.suffix_lt (h : Ends next a path) (hab : Relation.TransGen (Leads next) a b) :
    ∃ rest, Ends next b rest ∧ rest.length < path.length := by
  obtain ⟨c, hstep, hcb⟩ := Relation.TransGen.head'_iff.mp hab
  cases h with
  | stop hstop => cases hstop.symm.trans hstep
  | step hnext hrest =>
    obtain rfl := Option.some.inj (hnext.symm.trans hstep)
    obtain ⟨rest, hends, hlength⟩ := hrest.suffix hcb
    exact ⟨rest, hends, Nat.lt_succ_of_le hlength⟩

theorem Ends.acyclic (h : Ends next a path) : Acyclic next a := by
  intro b hab hbb
  obtain ⟨rest, hrest, _⟩ := h.suffix hab
  obtain ⟨rest', hrest', hlt⟩ := hrest.suffix_lt hbb
  rw [hrest.unique hrest'] at hlt
  exact Nat.lt_irrefl _ hlt

theorem Ends.nodup (h : Ends next a path) : path.Nodup := by
  induction h with
  | stop _ => exact List.nodup_singleton _
  | step hnext hrest ih =>
    refine List.nodup_cons.mpr ⟨fun hmem => ?_, ih⟩
    exact (Ends.step hnext hrest).acyclic _ .refl (.head' hnext (hrest.reached hmem))

theorem Ends.isChain (h : Ends next a path) : path.IsChain (Leads next) := by
  induction h with
  | stop _ => exact List.isChain_singleton _
  | step hnext hrest ih =>
    cases hrest with
    | stop hstop => exact List.isChain_pair.mpr hnext
    | step hstep hends => exact List.isChain_cons_cons.mpr ⟨hnext, ih⟩

theorem Ends.last (h : Ends next a path) {x : α} (hx : path.getLast? = some x) : next x = none := by
  induction h with
  | stop hstop =>
    cases hx
    exact hstop
  | step hnext hrest ih =>
    cases hrest with
    | stop hstop => exact ih hx
    | step hstep hends => exact ih hx

/-- Without a cycle the steps of a finite set come to an end. -/
theorem ends_of_acyclic {s : Set α} (hs : s.Finite) (hclosed : ∀ a b, next a = some b → b ∈ s)
    (h : Acyclic next a) : ∃ path, Ends next a path := by
  -- the elements of the set that the walk can meet, ordered by how far on they lie
  let Met := {b : s // Relation.ReflTransGen (Leads next) a b}
  let Before (c b : Met) : Prop := Relation.TransGen (Leads next) b.1.1 c.1.1
  have : Finite s := hs
  have : IsTrans Met Before := ⟨fun c b d hcb hbd => hbd.trans hcb⟩
  have : Std.Irrefl Before := ⟨fun b => h b.1.1 b.2⟩
  have hmet (b : Met) : ∃ path, Ends next b.1.1 path := by
    induction b using (Finite.wellFounded_of_trans_of_irrefl Before).induction with
    | _ b ih =>
      cases hnext : next b.1.1 with
      | none => exact ⟨_, .stop hnext⟩
      | some c =>
        let c' : Met := ⟨⟨c, hclosed _ c hnext⟩, b.2.tail hnext⟩
        obtain ⟨path, hpath⟩ := ih c' (.single hnext)
        exact ⟨_, .step hnext hpath⟩
  cases hnext : next a with
  | none => exact ⟨_, .stop hnext⟩
  | some b =>
    obtain ⟨path, hpath⟩ := hmet ⟨⟨b, hclosed a b hnext⟩, .single hnext⟩
    exact ⟨_, .step hnext hpath⟩

end Walks

end Walks
