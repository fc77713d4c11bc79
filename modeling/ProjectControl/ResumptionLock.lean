import ProjectControl.ResumptionAlone

/-! A lock over a shared state: one thread at a time holds it, and the steps of the
holder may do what the steps of the others may not. -/

set_option autoImplicit false

namespace Resumption

structure Locked (ι σ : Type) where
  shared : σ
  holder : Option ι := none

/-- The state in which thread `i` does not have the lock. -/
def Locked.freed {ι σ : Type} [DecidableEq ι] (i : ι) (s : Locked ι σ) : Locked ι σ :=
  if s.holder = some i then { s with holder := none } else s

/-- What a step does under a lock: a step on the shared state, or an access to the lock. The
thread that acquires it brings the data `γ` along. -/
inductive Access (ℓ γ : Type) where
  | inner (label : ℓ)
  | acquire (data : γ)
  | release

/-- The condition on the steps that threads take the lock with data that `may` allows. -/
def EntersWith {ι σ ℓ γ : Type} (may : σ → γ → Prop) (s : Locked ι σ) : Access ℓ γ → Prop
  | .acquire data => may s.shared data
  | _ => True

instance {ι σ ℓ γ : Type} {may : σ → γ → Prop} [hmay : ∀ s d, Decidable (may s d)]
    (s : Locked ι σ) : (l : Access ℓ γ) → Decidable (EntersWith may s l)
  | .acquire data => hmay s.shared data
  | .inner _ | .release => isTrue trivial

namespace Prog

variable {ι σ ν ℓ γ ε α : Type}

/-- A program on the shared state, whether or not the thread holds the lock. -/
def inside : Prog σ ν ℓ ε α → Prog (Locked ι σ) ν (Access ℓ γ) ε α
  | done a => done a
  | fail e => fail e
  | act l en u n => act (.inner l) (fun s v => en s.shared v)
      (fun s v => { s with shared := u s.shared v }) (fun s v => (n s.shared v).inside)

def acquire (i : ι) (data : γ) : Prog (Locked ι σ) ν (Access ℓ γ) ε Unit :=
  .await (.acquire data) (fun s _ => s.holder.isNone)
    (fun s _ => ({ s with holder := some i }, .ok ()))

def release [DecidableEq ι] (i : ι) : Prog (Locked ι σ) ν (Access ℓ γ) ε Unit :=
  .atomic .release (fun s _ => (s.freed i, .ok ()))

/-- Runs `body` under the lock, which is released when `body` returns and when it raises. -/
def withLock [DecidableEq ι] (i : ι) (data : γ) (body : Prog σ ν ℓ ε α) :
    Prog (Locked ι σ) ν (Access ℓ γ) ε α := do
  acquire i data
  body.inside.andThen (release i)

/-- What a program can do, it can do whether or not the thread holds the lock. -/
theorem can_inside {Q : α → σ → Prop} {p : Prog σ ν ℓ ε α} {s : Locked ι σ}
    (hp : p.Can Q s.shared) :
    (p.inside : Prog (Locked ι σ) ν (Access ℓ γ) ε α).Can (fun a s' => Q a s'.shared) s := by
  induction p generalizing s with
  | done a => exact hp
  | fail e => exact hp.elim
  | act l en u n ih =>
    obtain ⟨v, hv, hn⟩ := hp
    exact ⟨v, hv, ih s.shared v hn⟩

/-- A block can run while the lock is free. -/
theorem can_withLock [DecidableEq ι] {Q : α → σ → Prop} {i : ι} {data : γ} {body : Prog σ ν ℓ ε α}
    {s : Locked ι σ} (v : ν) (hs : s.holder = none) (hbody : body.Can Q s.shared) :
    (withLock i data body).Can (fun a s' => Q a s'.shared) s := by
  refine can_bind (M := fun _ s' => s'.shared = s.shared) ?_ (fun _ s' hs' => ?_)
  · exact can_await v (a := ()) (by rw [hs]; rfl) rfl rfl
  · refine can_andThen (can_inside (hs' ▸ hbody)) (fun a s'' hq => ?_)
    refine can_atomic v (a := ()) rfl ?_
    unfold Locked.freed
    split
    · exact hq
    · exact hq

end Prog

variable {ι σ ν ℓ γ ε α : Type}

/-- What the steps under a lock may do to the shared state, and what those without it may
do, which is less. -/
structure Discipline (σ γ : Type) where
  inv : σ → Prop
  /-- What holds of the data of a thread that acquires the lock. -/
  enters : σ → γ → Prop
  held : σ → σ → Prop
  free : σ → σ → Prop
  free_refl : ∀ s, free s s
  free_held : ∀ s s', free s s' → held s s'

namespace Discipline

open Spec

variable (D : Discipline σ γ)

theorem held_refl (s : σ) : D.held s s := D.free_held s s (D.free_refl s)

/-- A step of the holder, or a step of another thread, which may take the lock if it is free. -/
def Guar (i : ι) (s s' : Locked ι σ) : Prop :=
  (s.holder = some i ∧ (s'.holder = some i ∨ s'.holder = none) ∧ D.held s.shared s'.shared) ∨
    (s.holder ≠ some i ∧ (s'.holder = s.holder ∨ s.holder = none ∧ s'.holder = some i) ∧
      D.free s.shared s'.shared)

def spec : Spec ι (Locked ι σ) (Access ℓ γ) where
  inv := fun s => D.inv s.shared
  cond := EntersWith D.enters
  guar := D.Guar
  env := fun s s' => s'.holder = s.holder ∧ D.free s.shared s'.shared

/-- The shared state as the holder sees it, with no thread but itself. -/
def heldSpec : Spec Unit σ ℓ where
  inv := D.inv
  cond := System.anyStep
  guar := fun _ => D.held
  env := D.free

/-- The shared state as a thread without the lock sees it. -/
def freeSpec : Spec Unit σ ℓ where
  inv := D.inv
  cond := System.anyStep
  guar := fun _ => D.free
  env := D.held

variable {D} {i : ι} {B : σ → Prop} {s s' : Locked ι σ}

theorem Guar.held (h : D.Guar i s s') : D.held s.shared s'.shared := by
  rcases h with ⟨-, -, h⟩ | ⟨-, -, h⟩
  · exact h
  · exact D.free_held _ _ h

/-- A step that leaves the lock alone and that is allowed without it. -/
theorem guar_of_free (hh : s'.holder = s.holder) (hf : D.free s.shared s'.shared) :
    D.Guar i s s' := by
  by_cases hi : s.holder = some i
  · exact Or.inl ⟨hi, Or.inl (hh.trans hi), D.free_held _ _ hf⟩
  · exact Or.inr ⟨hi, Or.inl hh, hf⟩

theorem rely_held (h : (D.spec (ℓ := ℓ)).Rely i s s') (hi : s.holder = some i) :
    s'.holder = some i ∧ (D.heldSpec (ℓ := ℓ)).Rely () s.shared s'.shared := by
  obtain ⟨h1, h2, ⟨j, hj, ⟨hh, -⟩ | ⟨-, hh, hf⟩⟩ | ⟨hh, hf⟩⟩ := h
  · exact absurd (Option.some.inj (hh.symm.trans hi)) hj
  · rcases hh with hh | ⟨hh, -⟩
    · exact ⟨hh.trans hi, h1, h2, Or.inr hf⟩
    · cases hi.symm.trans hh
  · exact ⟨hh.trans hi, h1, h2, Or.inr hf⟩

theorem rely_free (h : (D.spec (ℓ := ℓ)).Rely i s s') :
    (D.freeSpec (ℓ := ℓ)).Rely () s.shared s'.shared := by
  obtain ⟨h1, h2, ⟨j, -, hg⟩ | ⟨-, hf⟩⟩ := h
  · exact ⟨h1, h2, Or.inr hg.held⟩
  · exact ⟨h1, h2, Or.inr (D.free_held _ _ hf)⟩

theorem interferes_held (h : (D.spec (ℓ := ℓ)).Interferes i s s') (hi : s.holder = some i) :
    s'.holder = some i ∧ (D.heldSpec (ℓ := ℓ)).Interferes () s.shared s'.shared := by
  induction h with
  | refl => exact ⟨hi, Relation.ReflTransGen.refl⟩
  | tail _ hr ih =>
    obtain ⟨h1, h2⟩ := rely_held hr ih.1
    exact ⟨h1, ih.2.tail h2⟩

theorem interferes_free (h : (D.spec (ℓ := ℓ)).Interferes i s s') :
    (D.freeSpec (ℓ := ℓ)).Interferes () s.shared s'.shared := by
  induction h with
  | refl => exact Relation.ReflTransGen.refl
  | tail _ hr ih => exact ih.tail (rely_free hr)

/-- What the steps of the others keep while thread `i` has the lock. -/
theorem stable_held (hB : ∀ s s', D.free s s' → B s → B s') :
    (D.spec (ℓ := ℓ)).Stable i (fun s => s.holder = some i ∧ B s.shared) := by
  rintro s s' hr ⟨hi, hb⟩
  obtain ⟨h1, -, -, ⟨j, hj, -⟩ | hf⟩ := rely_held hr hi
  · exact absurd rfl hj
  · exact ⟨h1, hB _ _ hf hb⟩

theorem stable_free (hB : ∀ s s', D.held s s' → B s → B s') :
    (D.spec (ℓ := ℓ)).Stable i (fun s => B s.shared) := by
  intro s s' hr hb
  obtain ⟨-, -, ⟨j, hj, -⟩ | hh⟩ := rely_free hr
  · exact absurd rfl hj
  · exact hB _ _ hh hb

/-- A program that is safe for the holder is safe where the thread has the lock. -/
theorem triple_inside_held {Q : α → σ → Prop} {p : Prog σ ν ℓ ε α}
    (hp : D.heldSpec.Triple () B p Q) :
    (D.spec (ℓ := ℓ)).Triple i (fun s => s.holder = some i ∧ B s.shared) p.inside
      (fun a s => s.holder = some i ∧ Q a s.shared) := by
  rintro s hs ⟨hi, hb⟩
  have hsafe := hp s.shared hs hb
  clear hp hb
  induction p generalizing s with
  | done a =>
    intro s' hr
    obtain ⟨h1, h2⟩ := interferes_held hr hi
    exact ⟨h1, hsafe _ h2⟩
  | fail e => trivial
  | act l en u n ih =>
    intro s' v hr hinv hc hen
    obtain ⟨h1, h2⟩ := interferes_held hr hi
    obtain ⟨h3, h4, h5⟩ := hsafe s'.shared v h2 hinv trivial hen
    exact ⟨h3, Or.inl ⟨h1, Or.inl h1, h4⟩, ih s'.shared v _ h3 h1 h5⟩

/-- A program that is safe without the lock is safe in any case. -/
theorem triple_inside_free {Q : α → σ → Prop} {p : Prog σ ν ℓ ε α}
    (hp : D.freeSpec.Triple () B p Q) :
    (D.spec (ℓ := ℓ)).Triple i (fun s => B s.shared) p.inside (fun a s => Q a s.shared) := by
  intro s hs hb
  have hsafe := hp s.shared hs hb
  clear hp hb
  induction p generalizing s with
  | done a => exact fun s' hr => hsafe _ (interferes_free hr)
  | fail e => trivial
  | act l en u n ih =>
    intro s' v hr hinv hc hen
    obtain ⟨h3, h4, h5⟩ := hsafe s'.shared v (interferes_free hr) hinv trivial hen
    exact ⟨h3, guar_of_free rfl h4, ih s'.shared v _ h3 h5⟩

variable [DecidableEq ι]

theorem freed_shared (i : ι) (s : Locked ι σ) : (s.freed i).shared = s.shared := by
  unfold Locked.freed
  split <;> rfl

/-- Giving the lock up, also where the thread does not have it. -/
theorem guar_freed (i : ι) (s : Locked ι σ) : D.Guar i s (s.freed i) := by
  unfold Locked.freed
  split
  · rename_i hi
    exact Or.inl ⟨hi, Or.inr rfl, D.held_refl _⟩
  · exact guar_of_free rfl (D.free_refl _)

theorem inv_freed (i : ι) (hs : D.inv s.shared) : D.inv (s.freed i).shared := by
  rwa [freed_shared]

/-- The lock is given up after an error as well, where nothing is known of it. -/
theorem triple_release (hB : ∀ s s', D.held s s' → B s → B s') :
    (D.spec (ℓ := ℓ)).Triple (ν := ν) (ε := ε) i (fun s => B s.shared) (Prog.release i)
      (fun _ s => B s.shared) := by
  refine triple_atomic (stable_free hB) (fun _ => stable_free hB) ?_
  intro s v hs hb _
  refine ⟨inv_freed i hs, guar_freed i s, fun _ _ => ?_⟩
  rwa [freed_shared]

/-- The rule for a block under the lock: its body starts with data that may enter. -/
theorem triple_withLock {Q : α → σ → Prop} {data : γ} {body : Prog σ ν ℓ ε α}
    (hB : ∀ s s', D.held s s' → B s → B s') (hQ : ∀ a s s', D.held s s' → Q a s → Q a s')
    (hE : ∀ s s', D.free s s' → D.enters s data → D.enters s' data)
    (hp : D.heldSpec.Triple () (fun s => B s ∧ D.enters s data) body Q) :
    (D.spec (ℓ := ℓ)).Triple i (fun s => B s.shared) (Prog.withLock i data body)
      (fun a s => Q a s.shared) := by
  have hkeep : ∀ s s', D.free s s' → B s ∧ D.enters s data → B s' ∧ D.enters s' data :=
    fun s s' h hb => ⟨hB s s' (D.free_held s s' h) hb.1, hE s s' h hb.2⟩
  refine triple_bind (M := fun _ s => s.holder = some i ∧ B s.shared ∧ D.enters s.shared data)
    ?_ (fun _ => ?_)
  · refine triple_await (stable_free hB) (fun _ => stable_held hkeep) ?_
    intro s v hs hb hc hen
    have hn : s.holder = none := Option.isNone_iff_eq_none.mp hen
    have hi : s.holder ≠ some i := by simp [hn]
    exact ⟨hs, Or.inr ⟨hi, Or.inr ⟨hn, rfl⟩, D.free_refl _⟩, fun _ _ => ⟨rfl, hb, hc⟩⟩
  · refine triple_andThen (fun a => stable_free (hQ a)) (triple_inside_held hp) (fun a => ?_) ?_
    · exact triple_pre (triple_release (hQ a)) (fun _ _ h => h.2)
    · exact triple_release (B := fun _ => True) (fun _ _ _ h => h)

variable {κ ω : Type} {S : System ι (Locked ι σ) ν (Access ℓ γ) ε α κ ω}

/-- A preorder that contains the steps under the lock relates the shared states along a run. -/
theorem reach_shared (hS : D.spec.Sound S) {T : σ → σ → Prop} (hrefl : ∀ s, T s s)
    (htrans : ∀ a b c, T a b → T b c → T a c) (hh : ∀ s s', D.held s s' → T s s')
    {p q : Pool ι (Locked ι σ) ν (Access ℓ γ) ε α} (hp : D.spec.PoolSafe p)
    (h : S.Reach (EntersWith D.enters) p q) : T p.shared.shared q.shared.shared :=
  reach_related hS (T := fun s s' => T s.shared s'.shared) (fun s => hrefl s.shared)
    (fun a b c => htrans a.shared b.shared c.shared) (fun _ _ _ hg => hh _ _ hg.held)
    (fun _ _ he => hh _ _ (D.free_held _ _ he.2)) hp h

end Discipline

end Resumption
