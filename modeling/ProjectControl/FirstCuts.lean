import Mathlib

/-! Paths from a root on which something is cut off: the places where it is cut first. -/

set_option autoImplicit false

namespace FirstCuts

section Paths

variable {α : Type*} {cut : List α → Prop} {p q : List α} {a b : α}

/-- The path ends in a cut and passes none before; the root itself is never cut. -/
def First (cut : List α → Prop) (p : List α) : Prop :=
  cut p ∧ ∀ q, q <+: p → q ≠ [] → q ≠ p → ¬ cut q

theorem first_single : First cut [a] ↔ cut [a] := by
  refine ⟨fun h => h.1, fun h => ⟨h, fun q hq hne hproper => ?_⟩⟩
  rcases List.prefix_cons_iff.mp hq with rfl | ⟨rest, rfl, hrest⟩
  · exact absurd rfl hne
  · exact absurd (by rw [List.prefix_nil.mp hrest]) hproper

/-- A longer path passes its first step and goes on from there. -/
theorem first_cons : First cut (a :: b :: p) ↔
    ¬ cut [a] ∧ First (fun q => cut (a :: q)) (b :: p) := by
  constructor
  · rintro ⟨hcut, hbefore⟩
    refine ⟨hbefore [a] ⟨b :: p, rfl⟩ (List.cons_ne_nil _ _) (by simp), hcut, ?_⟩
    intro q hq _ hproper
    apply hbefore (a :: q) (List.prefix_cons_inj a |>.mpr hq) (List.cons_ne_nil _ _)
    exact fun heq => hproper (List.cons.inj heq).2
  · rintro ⟨hfirst, hcut, hbefore⟩
    refine ⟨hcut, fun q hq hne hproper => ?_⟩
    rcases List.prefix_cons_iff.mp hq with rfl | ⟨rest, rfl, hrest⟩
    · exact absurd rfl hne
    · cases rest with
      | nil => exact hfirst
      | cons c rest =>
        exact hbefore (c :: rest) hrest (List.cons_ne_nil _ _) fun heq => hproper (by rw [heq])

/-- A cut path has a first cut on it. -/
theorem exists_first (cut : List α → Prop) (hcut : cut p) (hne : p ≠ []) :
    ∃ q, q <+: p ∧ q ≠ [] ∧ First cut q := by
  induction p generalizing cut with
  | nil => exact absurd rfl hne
  | cons a p ih =>
    by_cases ha : cut [a]
    · exact ⟨[a], ⟨p, rfl⟩, List.cons_ne_nil _ _, first_single.mpr ha⟩
    · cases p with
      | nil => exact absurd hcut ha
      | cons b p =>
        obtain ⟨q, hq, hqne, hfirst⟩ :=
          ih (fun q => cut (a :: q)) hcut (List.cons_ne_nil _ _)
        refine ⟨a :: q, List.prefix_cons_inj a |>.mpr hq, List.cons_ne_nil _ _, ?_⟩
        cases q with
        | nil => exact absurd rfl hqne
        | cons c q => exact first_cons.mpr ⟨ha, hfirst⟩

/-- No first cut lies behind another one. -/
theorem First.apart (hp : First cut p) (hq : First cut q) (hne : q ≠ []) (h : q <+: p) :
    q = p := by
  by_contra hproper
  exact hp.2 q h hne hproper hq.1

end Paths

end FirstCuts
