import Mathlib.Logic.Relation
import Mathlib.Logic.Function.Basic

/-! Programs made of atomic steps over a shared state, pools of threads that run
them in any order, and rely-guarantee rules for such pools. -/
set_option autoImplicit false

namespace Resumption

/-- A step reads an input `ν` that the environment chooses (a reply, a fresh
token) and may be disabled in a state; its label only describes it. -/
inductive Prog (σ ν ℓ ε α : Type) : Type where
  | done (a : α)
  | fail (e : ε)
  | act (label : ℓ) (enabled : σ → ν → Bool) (upd : σ → ν → σ)
      (next : σ → ν → Prog σ ν ℓ ε α)

namespace Prog

variable {σ ν ℓ ε α β : Type}

def bind : Prog σ ν ℓ ε α → (α → Prog σ ν ℓ ε β) → Prog σ ν ℓ ε β
  | done a, f => f a
  | fail e, _ => fail e
  | act l en u n, f => act l en u (fun s v => (n s v).bind f)

def tryCatch : Prog σ ν ℓ ε α → (ε → Prog σ ν ℓ ε α) → Prog σ ν ℓ ε α
  | done a, _ => done a
  | fail e, h => h e
  | act l en u n, h => act l en u (fun s v => (n s v).tryCatch h)

/-- Runs `after` whether the program returns or raises. -/
def andThen (p : Prog σ ν ℓ ε α) (after : Prog σ ν ℓ ε Unit) : Prog σ ν ℓ ε α :=
  (p.tryCatch (fun e => after.bind (fun _ => fail e))).bind
    (fun a => after.bind (fun _ => done a))

instance : Monad (Prog σ ν ℓ ε) where
  pure := done
  bind := bind

def ofExcept : Except ε α → Prog σ ν ℓ ε α
  | .ok a => done a
  | .error e => fail e

/-- One atomic step that is always enabled. -/
def atomic (label : ℓ) (f : σ → ν → σ × Except ε α) : Prog σ ν ℓ ε α :=
  act label (fun _ _ => true) (fun s v => (f s v).1) (fun s v => ofExcept (f s v).2)

/-- A step that waits until `enabled` holds. -/
def await (label : ℓ) (enabled : σ → ν → Bool) (f : σ → ν → σ × Except ε α) :
    Prog σ ν ℓ ε α :=
  act label enabled (fun s v => (f s v).1) (fun s v => ofExcept (f s v).2)

def finished : Prog σ ν ℓ ε α → Bool
  | act .. => false
  | _ => true

/-- The program alone, with the inputs of its steps in order. -/
def eval : Prog σ ν ℓ ε α → σ → List ν → Option (Except ε α × σ)
  | done a, s, _ => some (.ok a, s)
  | fail e, s, _ => some (.error e, s)
  | act .., _, [] => none
  | act _ en u n, s, v :: vs => if en s v then (n s v).eval (u s v) vs else none

@[simp] theorem pure_eq (a : α) : (pure a : Prog σ ν ℓ ε α) = done a := rfl

@[simp] theorem done_bind (a : α) (f : α → Prog σ ν ℓ ε β) : (done a >>= f) = f a := rfl

@[simp] theorem fail_bind (e : ε) (f : α → Prog σ ν ℓ ε β) :
    (fail e >>= f) = (fail e : Prog σ ν ℓ ε β) := rfl

end Prog

variable {ι σ ν ℓ ε α β κ ω : Type}

structure Pool (ι σ ν ℓ ε α : Type) where
  shared : σ
  threads : ι → Option (Prog σ ν ℓ ε α)

inductive Action (ι ν κ ω : Type) where
  | act (i : ι) (v : ν)
  | start (i : ι) (call : κ)
  | crash (i : ι)
  | env (e : ω)

/-- What the threads may run, what a crash of a thread does to the shared state
and which steps others take on it. -/
structure System (ι σ ν ℓ ε α κ ω : Type) where
  program : ι → κ → Prog σ ν ℓ ε α
  crash : ι → σ → σ
  env : σ → ω → Option σ

namespace System

variable [DecidableEq ι] (S : System ι σ ν ℓ ε α κ ω)

def step (p : Pool ι σ ν ℓ ε α) : Action ι ν κ ω → Option (Pool ι σ ν ℓ ε α)
  | .act i v =>
    match p.threads i with
    | some (.act _ en u n) =>
      if en p.shared v then
        some ⟨u p.shared v, Function.update p.threads i (some (n p.shared v))⟩
      else none
    | _ => none
  | .start i c =>
    if (p.threads i).all Prog.finished then
      some ⟨p.shared, Function.update p.threads i (some (S.program i c))⟩
    else none
  | .crash i => some ⟨S.crash i p.shared, Function.update p.threads i none⟩
  | .env e => (S.env p.shared e).map (fun s => ⟨s, p.threads⟩)

/-- The label of the step that an action takes satisfies `cond`. -/
def Meets (cond : σ → ℓ → Prop) (p : Pool ι σ ν ℓ ε α) : Action ι ν κ ω → Prop
  | .act i _ =>
    match p.threads i with
    | some (.act l _ _ _) => cond p.shared l
    | _ => True
  | _ => True

instance {cond : σ → ℓ → Prop} [hc : ∀ s l, Decidable (cond s l)] (p : Pool ι σ ν ℓ ε α) :
    (a : Action ι ν κ ω) → Decidable (Meets cond p a)
  | .act i _ =>
    match h : p.threads i with
    | some (.act l _ _ _) => decidable_of_iff (cond p.shared l) (by simp [Meets, h])
    | some (.done _) | some (.fail _) | none => isTrue (by simp [Meets, h])
  | .start _ _ | .crash _ | .env _ => isTrue trivial

/-- The pool after a list of actions that are all possible and meet `cond`. -/
def run (cond : σ → ℓ → Prop) [∀ s l, Decidable (cond s l)] (p : Pool ι σ ν ℓ ε α) :
    List (Action ι ν κ ω) → Option (Pool ι σ ν ℓ ε α)
  | [] => some p
  | a :: as =>
    if Meets cond p a then (S.step p a).bind (fun q => run cond q as) else none

def Step (cond : σ → ℓ → Prop) (p q : Pool ι σ ν ℓ ε α) : Prop :=
  ∃ a, Meets cond p a ∧ S.step p a = some q

def Reach (cond : σ → ℓ → Prop) : Pool ι σ ν ℓ ε α → Pool ι σ ν ℓ ε α → Prop :=
  Relation.ReflTransGen (S.Step cond)

/-- No step is excluded. -/
def anyStep : σ → ℓ → Prop := fun _ _ => True

instance (s : σ) (l : ℓ) : Decidable (anyStep s l) := isTrue trivial

theorem run_reach {cond : σ → ℓ → Prop} [∀ s l, Decidable (cond s l)]
    {p q : Pool ι σ ν ℓ ε α} {as : List (Action ι ν κ ω)}
    (h : S.run cond p as = some q) : S.Reach cond p q := by
  induction as generalizing p with
  | nil =>
    cases h
    exact Relation.ReflTransGen.refl
  | cons a as ih =>
    unfold run at h
    split at h
    · rename_i hm
      obtain ⟨r, hr, hq⟩ := Option.bind_eq_some_iff.mp h
      exact Relation.ReflTransGen.head ⟨a, hm, hr⟩ (ih hq)
    · cases h

omit [DecidableEq ι] in
theorem Meets.mono {cond cond' : σ → ℓ → Prop} (hc : ∀ s l, cond s l → cond' s l)
    {p : Pool ι σ ν ℓ ε α} {a : Action ι ν κ ω} (hm : Meets cond p a) : Meets cond' p a := by
  cases a with
  | act i v =>
    cases hi : p.threads i with
    | none => simp [Meets, hi]
    | some t =>
      cases t with
      | act l en u n =>
        simp only [Meets, hi] at hm ⊢
        exact hc _ _ hm
      | done | fail => simp [Meets, hi]
  | start | crash | env => trivial

theorem Step.mono {cond cond' : σ → ℓ → Prop} (hc : ∀ s l, cond s l → cond' s l)
    {p q : Pool ι σ ν ℓ ε α} (h : S.Step cond p q) : S.Step cond' p q := by
  obtain ⟨a, hm, hq⟩ := h
  exact ⟨a, hm.mono hc, hq⟩

theorem Reach.mono {cond cond' : σ → ℓ → Prop} (hc : ∀ s l, cond s l → cond' s l)
    {p q : Pool ι σ ν ℓ ε α} (h : S.Reach cond p q) : S.Reach cond' p q :=
  Relation.ReflTransGen.mono (fun _ _ hstep => Step.mono S hc hstep) _ _ h

/-- What a run ends in, for an outcome that can be computed. -/
theorem exists_reach (cond : σ → ℓ → Prop) [∀ s l, Decidable (cond s l)] {β : Type}
    {p : Pool ι σ ν ℓ ε α} (as : List (Action ι ν κ ω)) {f : Pool ι σ ν ℓ ε α → β} {b : β}
    (h : (S.run cond p as).map f = some b) : ∃ q, S.Reach cond p q ∧ f q = b := by
  obtain ⟨q, hq, hf⟩ := Option.map_eq_some_iff.mp h
  exact ⟨q, run_reach S hq, hf⟩

/-- The same for two states of one run. -/
theorem exists_reach_pair (cond : σ → ℓ → Prop) [∀ s l, Decidable (cond s l)] {β : Type}
    {p : Pool ι σ ν ℓ ε α} (as bs : List (Action ι ν κ ω))
    {f : Pool ι σ ν ℓ ε α → Pool ι σ ν ℓ ε α → β} {b : β}
    (h : ((S.run cond p as).bind (fun q => (S.run cond q bs).map (f q))) = some b) :
    ∃ q q', S.Reach cond p q ∧ S.Reach cond q q' ∧ f q q' = b := by
  obtain ⟨q, hq, h⟩ := Option.bind_eq_some_iff.mp h
  obtain ⟨q', hq', hf⟩ := Option.map_eq_some_iff.mp h
  exact ⟨q, q', run_reach S hq, run_reach S hq', hf⟩

end System

/-- An invariant, the condition under which steps are considered, what each
thread guarantees of its own steps and what the environment's steps satisfy. -/
structure Spec (ι σ ℓ : Type) where
  inv : σ → Prop
  cond : σ → ℓ → Prop
  guar : ι → σ → σ → Prop
  env : σ → σ → Prop

namespace Spec

variable (P : Spec ι σ ℓ)

/-- A step that thread `i` can see another party take. -/
def Rely (i : ι) (s s' : σ) : Prop :=
  P.inv s ∧ P.inv s' ∧ ((∃ j, j ≠ i ∧ P.guar j s s') ∨ P.env s s')

def Interferes (i : ι) : σ → σ → Prop := Relation.ReflTransGen (P.Rely i)

def Stable (i : ι) (A : σ → Prop) : Prop := ∀ s s', P.Rely i s s' → A s → A s'

/-- From here on thread `i`, running `p` under interference, keeps the invariant
and its guarantee at each of its steps, and returns only in states of `Q`. -/
def Safe (i : ι) (Q : α → σ → Prop) : Prog σ ν ℓ ε α → σ → Prop
  | .done a, s => ∀ s', P.Interferes i s s' → Q a s'
  | .fail _, _ => True
  | .act l en u n, s => ∀ s' v, P.Interferes i s s' → P.inv s' → P.cond s' l → en s' v = true →
      P.inv (u s' v) ∧ P.guar i s' (u s' v) ∧ Safe i Q (n s' v) (u s' v)

def Triple (i : ι) (A : σ → Prop) (p : Prog σ ν ℓ ε α) (Q : α → σ → Prop) : Prop :=
  ∀ s, P.inv s → A s → P.Safe i Q p s

variable {P} {i : ι}

theorem Stable.interferes {A : σ → Prop} (hA : P.Stable i A) {s s' : σ}
    (h : P.Interferes i s s') (hs : A s) : A s' := by
  induction h with
  | refl => exact hs
  | tail _ hr ih => exact hA _ _ hr ih

theorem Stable.and {A B : σ → Prop} (hA : P.Stable i A) (hB : P.Stable i B) :
    P.Stable i (fun s => A s ∧ B s) :=
  fun s s' hr h => ⟨hA s s' hr h.1, hB s s' hr h.2⟩

theorem stable_true : P.Stable i (fun _ => True) := fun _ _ _ _ => trivial

theorem stable_const (c : Prop) : P.Stable i (fun _ => c) := fun _ _ _ h => h

theorem Safe.interferes {Q : α → σ → Prop} {p : Prog σ ν ℓ ε α} {s s' : σ}
    (h : P.Safe i Q p s) (hs : P.Interferes i s s') : P.Safe i Q p s' := by
  cases p with
  | done a => exact fun t ht => h t (hs.trans ht)
  | fail e => trivial
  | act l en u n => exact fun t v ht => h t v (hs.trans ht)

theorem safe_bind {M : α → σ → Prop} {Q : β → σ → Prop} {p : Prog σ ν ℓ ε α}
    {f : α → Prog σ ν ℓ ε β} {s : σ} (hs : P.inv s) (hp : P.Safe i M p s)
    (hf : ∀ a s', P.inv s' → M a s' → P.Safe i Q (f a) s') : P.Safe i Q (p >>= f) s := by
  induction p generalizing s with
  | done a => exact hf a s hs (hp s Relation.ReflTransGen.refl)
  | fail e => trivial
  | act l en u n ih =>
    intro s' v hi hinv hc hen
    obtain ⟨h1, h2, h3⟩ := hp s' v hi hinv hc hen
    exact ⟨h1, h2, ih s' v h1 h3⟩

theorem safe_tryCatch {Q : α → σ → Prop} {p : Prog σ ν ℓ ε α} {h : ε → Prog σ ν ℓ ε α}
    {s : σ} (hs : P.inv s) (hp : P.Safe i Q p s)
    (hh : ∀ e s', P.inv s' → P.Safe i Q (h e) s') : P.Safe i Q (p.tryCatch h) s := by
  induction p generalizing s with
  | done a => exact hp
  | fail e => exact hh e s hs
  | act l en u n ih =>
    intro s' v hi hinv hc hen
    obtain ⟨h1, h2, h3⟩ := hp s' v hi hinv hc hen
    exact ⟨h1, h2, ih s' v h1 h3⟩

theorem Safe.mono {Q Q' : α → σ → Prop} {p : Prog σ ν ℓ ε α} {s : σ}
    (hp : P.Safe i Q p s) (hQ : ∀ a s, Q a s → Q' a s) : P.Safe i Q' p s := by
  induction p generalizing s with
  | done a => exact fun s' hi => hQ a s' (hp s' hi)
  | fail e => trivial
  | act l en u n ih =>
    intro s' v hi hinv hc hen
    obtain ⟨h1, h2, h3⟩ := hp s' v hi hinv hc hen
    exact ⟨h1, h2, ih s' v h3⟩

theorem triple_done {A : σ → Prop} {Q : α → σ → Prop} {a : α} (hQ : P.Stable i (Q a))
    (h : ∀ s, P.inv s → A s → Q a s) : P.Triple (ν := ν) (ε := ε) i A (.done a) Q :=
  fun s hs ha _ hi => hQ.interferes hi (h s hs ha)

theorem triple_fail {A : σ → Prop} {Q : α → σ → Prop} {e : ε} :
    P.Triple (ν := ν) i A (.fail e) Q :=
  fun _ _ _ => trivial

theorem triple_bind {A : σ → Prop} {M : α → σ → Prop} {Q : β → σ → Prop}
    {p : Prog σ ν ℓ ε α} {f : α → Prog σ ν ℓ ε β} (hp : P.Triple i A p M)
    (hf : ∀ a, P.Triple i (M a) (f a) Q) : P.Triple i A (p >>= f) Q :=
  fun s hs ha => safe_bind hs (hp s hs ha) (fun a s' hs' hm => hf a s' hs' hm)

theorem triple_tryCatch {A : σ → Prop} {Q : α → σ → Prop} {p : Prog σ ν ℓ ε α}
    {h : ε → Prog σ ν ℓ ε α} (hp : P.Triple i A p Q)
    (hh : ∀ e, P.Triple i (fun _ => True) (h e) Q) : P.Triple i A (p.tryCatch h) Q :=
  fun s hs ha => safe_tryCatch hs (hp s hs ha) (fun e s' hs' => hh e s' hs' trivial)

theorem triple_andThen {A : σ → Prop} {Q Q' : α → σ → Prop} {p : Prog σ ν ℓ ε α}
    {after : Prog σ ν ℓ ε Unit} (hQ' : ∀ a, P.Stable i (Q' a)) (hp : P.Triple i A p Q)
    (hafter : ∀ a, P.Triple i (Q a) after (fun _ => Q' a))
    (hfail : P.Triple i (fun _ => True) after (fun _ _ => True)) :
    P.Triple i A (p.andThen after) Q' :=
  triple_bind (triple_tryCatch hp (fun _ => triple_bind hfail (fun _ => triple_fail)))
    (fun a => triple_bind (hafter a) (fun _ => triple_done (hQ' a) (fun _ _ h => h)))

theorem triple_pre {A B : σ → Prop} {Q : α → σ → Prop} {p : Prog σ ν ℓ ε α}
    (hp : P.Triple i B p Q) (h : ∀ s, P.inv s → A s → B s) : P.Triple i A p Q :=
  fun s hs ha => hp s hs (h s hs ha)

theorem triple_post {A : σ → Prop} {Q Q' : α → σ → Prop} {p : Prog σ ν ℓ ε α}
    (hp : P.Triple i A p Q) (h : ∀ a s, Q a s → Q' a s) : P.Triple i A p Q' :=
  fun s hs ha => (hp s hs ha).mono h

theorem triple_await {A : σ → Prop} {Q : α → σ → Prop} {l : ℓ} {en : σ → ν → Bool}
    {f : σ → ν → σ × Except ε α} (hA : P.Stable i A) (hQ : ∀ a, P.Stable i (Q a))
    (h : ∀ s v, P.inv s → A s → P.cond s l → en s v = true →
      P.inv (f s v).1 ∧ P.guar i s (f s v).1 ∧ ∀ a, (f s v).2 = .ok a → Q a (f s v).1) :
    P.Triple i A (Prog.await l en f) Q := by
  intro s hs ha s' v hi hinv hc hen
  obtain ⟨h1, h2, h3⟩ := h s' v hinv (hA.interferes hi ha) hc hen
  refine ⟨h1, h2, ?_⟩
  change P.Safe i Q (Prog.ofExcept (f s' v).2) (f s' v).1
  cases hr : (f s' v).2 with
  | ok a => exact fun t ht => (hQ a).interferes ht (h3 a hr)
  | error e => trivial

/-- The rule for a step: what it must establish from the stable assertion `A`. -/
theorem triple_atomic {A : σ → Prop} {Q : α → σ → Prop} {l : ℓ} {f : σ → ν → σ × Except ε α}
    (hA : P.Stable i A) (hQ : ∀ a, P.Stable i (Q a))
    (h : ∀ s v, P.inv s → A s → P.cond s l →
      P.inv (f s v).1 ∧ P.guar i s (f s v).1 ∧ ∀ a, (f s v).2 = .ok a → Q a (f s v).1) :
    P.Triple i A (Prog.atomic l f) Q :=
  triple_await hA hQ (fun s v hs ha hc _ => h s v hs ha hc)

/-- The obligations of a system: a crash and the environment respect the
invariant, and every program that a thread may start is safe. -/
structure Sound [DecidableEq ι] (P : Spec ι σ ℓ) (S : System ι σ ν ℓ ε α κ ω) : Prop where
  crash : ∀ i s, P.inv s → P.inv (S.crash i s) ∧ P.guar i s (S.crash i s)
  env : ∀ s e s', P.inv s → S.env s e = some s' → P.inv s' ∧ P.env s s'
  program : ∀ i c, P.Triple i (fun _ => True) (S.program i c) (fun _ _ => True)

/-- The invariant holds and every running thread returns in states of its `Q` only. -/
def PoolEnsures (P : Spec ι σ ℓ) (Q : ι → α → σ → Prop) (p : Pool ι σ ν ℓ ε α) : Prop :=
  P.inv p.shared ∧ ∀ i t, p.threads i = some t → P.Safe i (Q i) t p.shared

/-- The invariant holds and every running thread is safe. -/
def PoolSafe (P : Spec ι σ ℓ) (p : Pool ι σ ν ℓ ε α) : Prop :=
  P.inv p.shared ∧ ∀ i t, p.threads i = some t → P.Safe i (fun _ _ => True) t p.shared

theorem poolEnsures_of_idle {Q : ι → α → σ → Prop} {p : Pool ι σ ν ℓ ε α} (hs : P.inv p.shared)
    (hi : ∀ i, p.threads i = none) : P.PoolEnsures Q p :=
  ⟨hs, fun i t ht => by simp [hi i] at ht⟩

theorem poolSafe_of_idle {p : Pool ι σ ν ℓ ε α} (hs : P.inv p.shared)
    (hi : ∀ i, p.threads i = none) : P.PoolSafe p :=
  poolEnsures_of_idle hs hi

theorem PoolEnsures.returned {Q : ι → α → σ → Prop} {p : Pool ι σ ν ℓ ε α}
    (hp : P.PoolEnsures Q p) {a : α} (ht : p.threads i = some (.done a)) : Q i a p.shared :=
  hp.2 i _ ht p.shared Relation.ReflTransGen.refl

variable [DecidableEq ι] {S : System ι σ ν ℓ ε α κ ω}

theorem poolEnsures_step (hS : P.Sound S) {Q : ι → α → σ → Prop}
    (hQ : ∀ i c, P.Triple i (fun _ => True) (S.program i c) (Q i)) {p q : Pool ι σ ν ℓ ε α}
    (hp : P.PoolEnsures Q p) (h : S.Step P.cond p q) :
    P.PoolEnsures Q q ∧ ((∃ i, P.guar i p.shared q.shared) ∨ P.env p.shared q.shared ∨
      q.shared = p.shared) := by
  obtain ⟨a, hm, hq⟩ := h
  obtain ⟨hinv, hth⟩ := hp
  cases a with
  | act i v =>
    simp only [System.step] at hq
    split at hq
    · rename_i l en u n hi
      split at hq
      · rename_i hen
        cases hq
        obtain ⟨h1, h2, h3⟩ := hth i _ hi p.shared v Relation.ReflTransGen.refl hinv
          (by simpa [System.Meets, hi] using hm) hen
        refine ⟨⟨h1, ?_⟩, Or.inl ⟨i, h2⟩⟩
        intro j t hj
        by_cases hji : j = i
        · subst hji
          simp only [Function.update_self, Option.some.injEq] at hj
          exact hj ▸ h3
        · simp only [Function.update_of_ne hji] at hj
          -- the step is interference for every other thread
          exact (hth j t hj).interferes (Relation.ReflTransGen.single
            ⟨hinv, h1, Or.inl ⟨i, fun e => hji e.symm, h2⟩⟩)
      · cases hq
    · cases hq
  | start i c =>
    simp only [System.step] at hq
    split at hq
    · cases hq
      refine ⟨⟨hinv, ?_⟩, Or.inr (Or.inr rfl)⟩
      intro j t hj
      by_cases hji : j = i
      · subst hji
        simp only [Function.update_self, Option.some.injEq] at hj
        exact hj ▸ hQ j c p.shared hinv trivial
      · simp only [Function.update_of_ne hji] at hj
        exact hth j t hj
    · cases hq
  | crash i =>
    simp only [System.step, Option.some.injEq] at hq
    subst hq
    obtain ⟨h1, h2⟩ := hS.crash i p.shared hinv
    refine ⟨⟨h1, ?_⟩, Or.inl ⟨i, h2⟩⟩
    intro j t hj
    by_cases hji : j = i
    · subst hji
      simp at hj
    · simp only [Function.update_of_ne hji] at hj
      exact (hth j t hj).interferes (Relation.ReflTransGen.single
        ⟨hinv, h1, Or.inl ⟨i, fun e => hji e.symm, h2⟩⟩)
  | env e =>
    obtain ⟨s, hs, rfl⟩ := Option.map_eq_some_iff.mp hq
    obtain ⟨h1, h2⟩ := hS.env p.shared e s hinv hs
    refine ⟨⟨h1, ?_⟩, Or.inr (Or.inl h2)⟩
    intro j t hj
    exact (hth j t hj).interferes (Relation.ReflTransGen.single ⟨hinv, h1, Or.inr h2⟩)

theorem poolEnsures_reach (hS : P.Sound S) {Q : ι → α → σ → Prop}
    (hQ : ∀ i c, P.Triple i (fun _ => True) (S.program i c) (Q i)) {p q : Pool ι σ ν ℓ ε α}
    (hp : P.PoolEnsures Q p) (h : S.Reach P.cond p q) : P.PoolEnsures Q q := by
  induction h with
  | refl => exact hp
  | tail _ hstep ih => exact (poolEnsures_step hS hQ ih hstep).1

theorem poolSafe_step (hS : P.Sound S) {p q : Pool ι σ ν ℓ ε α} (hp : P.PoolSafe p)
    (h : S.Step P.cond p q) :
    P.PoolSafe q ∧ ((∃ i, P.guar i p.shared q.shared) ∨ P.env p.shared q.shared ∨
      q.shared = p.shared) :=
  poolEnsures_step hS hS.program hp h

theorem poolSafe_reach (hS : P.Sound S) {p q : Pool ι σ ν ℓ ε α} (hp : P.PoolSafe p)
    (h : S.Reach P.cond p q) : P.PoolSafe q :=
  poolEnsures_reach hS hS.program hp h

/-- A preorder that contains every guarantee and every environment step relates
the shared states along a run. -/
theorem reach_related (hS : P.Sound S) {T : σ → σ → Prop} (hrefl : ∀ s, T s s)
    (htrans : ∀ a b c, T a b → T b c → T a c) (hguar : ∀ i s s', P.guar i s s' → T s s')
    (henv : ∀ s s', P.env s s' → T s s') {p q : Pool ι σ ν ℓ ε α} (hp : P.PoolSafe p)
    (h : S.Reach P.cond p q) : T p.shared q.shared := by
  induction h with
  | refl => exact hrefl _
  | @tail b c hpb hstep ih =>
    refine htrans _ _ _ ih ?_
    rcases (poolSafe_step hS (poolSafe_reach hS hp hpb) hstep).2 with ⟨i, hg⟩ | he | hsame
    · exact hguar i _ _ hg
    · exact henv _ _ he
    · rw [hsame]
      exact hrefl _

end Spec

end Resumption
