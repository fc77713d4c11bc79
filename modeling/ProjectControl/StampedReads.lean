import Mathlib.Data.Nat.Notation
import Mathlib.Data.Nat.Basic
import Mathlib.Tactic.Cases

/-! Values that may change at any time and that are kept together with a stamp: while the stamp of
a key is the same, what is kept for it need not be read again. -/

set_option autoImplicit false

namespace Stamped

variable {K S V W ε : Type}

/-- What a source shows at one moment. -/
structure View (K S V ε : Type) where
  stamp : K → Except ε S
  value : K → Except ε V

/-- What is made of the values, as the same stamps tell of it. -/
def View.through (view : View K S V ε) (f : K → V → Except ε W) : View K S W ε where
  stamp := view.stamp
  value key := view.value key >>= f key

/-- A stamp that is seen again was there all the time in between, and with it the value. -/
def Telling (view : ℕ → View K S V ε) : Prop :=
  ∀ ⦃t u t' : ℕ⦄ ⦃key : K⦄ ⦃s : S⦄, t ≤ u → u ≤ t' → (view t).stamp key = .ok s →
    (view t').stamp key = .ok s → (view u).value key = (view t).value key

theorem Telling.through {view : ℕ → View K S V ε} (h : Telling view) (f : K → V → Except ε W) :
    Telling fun t => (view t).through f := by
  intro t u t' key s htu hut' hs hs'
  have hvalue : (view u).value key = (view t).value key := h htu hut' hs hs'
  exact congrArg (· >>= f key) hvalue

variable {view : ℕ → View K S V ε} {since since' now later : ℕ} {key : K} {s : S} {v : V}

/-- What may be kept: the stamp was taken, and after it the value was read. -/
def Kept (view : ℕ → View K S V ε) (since now : ℕ) (key : K) (s : S) (v : V) : Prop :=
  ∃ t u, since ≤ t ∧ t ≤ u ∧ u < now ∧ (view t).stamp key = .ok s ∧ (view u).value key = .ok v

theorem Kept.mono (h : Kept view since now key s v) (hsince : since' ≤ since) (hnow : now ≤ later) :
    Kept view since' later key s v := by
  obtain ⟨t, u, ht, htu, hu, hs, hv⟩ := h
  exact ⟨t, u, by omega, htu, by omega, hs, hv⟩

theorem kept_of_read {t : ℕ} (hs : (view t).stamp key = .ok s)
    (hv : (view (t + 1)).value key = .ok v) : Kept view t (t + 2) key s v :=
  ⟨t, t + 1, le_rfl, t.le_succ, Nat.lt_succ_self _, hs, hv⟩

/-- Where the stamp is still the same, what is kept is what would be read: the stamp was there when
the value was read, too. -/
theorem Kept.value_eq {t' : ℕ} (h : Kept view since now key s v) (htelling : Telling view)
    (hle : now ≤ t') (hs : (view t').stamp key = .ok s) : (view t').value key = .ok v := by
  obtain ⟨t, u, -, htu, hu, ht, hv⟩ := h
  have hut' : u ≤ t' := by omega
  calc (view t').value key = (view t).value key := htelling (Nat.le_trans htu hut') le_rfl ht hs
    _ = (view u).value key := (htelling htu hut' ht hs).symm
    _ = .ok v := hv

/-- What is kept stays kept, from now on, while its stamp is seen. -/
theorem Kept.renew {t' : ℕ} (h : Kept view since now key s v) (htelling : Telling view)
    (hle : now ≤ t') (hs : (view t').stamp key = .ok s) : Kept view t' (t' + 1) key s v :=
  ⟨t', t', le_rfl, le_rfl, Nat.lt_succ_self _, hs, h.value_eq htelling hle hs⟩

end Stamped
