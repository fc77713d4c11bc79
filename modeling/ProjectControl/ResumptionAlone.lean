import ProjectControl.Resumption

/-! Rules for a program that runs alone: where it can return and with what it can
fail whatever its inputs are, that it can run to its end, where some inputs lead it,
and what it achieves whenever its inputs are good. -/

set_option autoImplicit false

namespace Resumption.Prog

variable {σ ν ℓ ε α β : Type}

/-- Alone from `s`, the program only returns as in `Q` and only fails as in `E`. -/
def Ends (Q : α → σ → Prop) (E : ε → σ → Prop) : Prog σ ν ℓ ε α → σ → Prop
  | done a, s => Q a s
  | fail e, s => E e s
  | act _ en u n, s => ∀ v, en s v = true → Ends Q E (n s v) (u s v)

variable {Q : α → σ → Prop} {E : ε → σ → Prop}

theorem Ends.eval {p : Prog σ ν ℓ ε α} {s s' : σ} {vs : List ν} {out : Except ε α}
    (hp : p.Ends Q E s) (h : p.eval s vs = some (out, s')) :
    (∀ a, out = .ok a → Q a s') ∧ ∀ e, out = .error e → E e s' := by
  induction p generalizing s vs with
  | done a =>
    cases h
    exact ⟨fun b hb => Except.ok.inj hb ▸ hp, fun e he => by cases he⟩
  | fail e =>
    cases h
    refine ⟨fun b hb => ?_, fun e' he => Except.error.inj he ▸ hp⟩
    cases hb
  | act l en u n ih =>
    cases vs with
    | nil => cases h
    | cons v vs =>
      unfold Prog.eval at h
      split at h
      · rename_i hen
        exact ih s v (hp v hen) h
      · cases h

theorem ends_bind {M : β → σ → Prop} {p : Prog σ ν ℓ ε β} {f : β → Prog σ ν ℓ ε α} {s : σ}
    (hp : p.Ends M E s) (hf : ∀ b s', M b s' → (f b).Ends Q E s') : (p >>= f).Ends Q E s := by
  induction p generalizing s with
  | done b => exact hf b s hp
  | fail e => exact hp
  | act l en u n ih =>
    intro v hen
    exact ih s v (hp v hen)

theorem ends_tryCatch {F : ε → σ → Prop} {p : Prog σ ν ℓ ε α} {h : ε → Prog σ ν ℓ ε α} {s : σ}
    (hp : p.Ends Q F s) (hh : ∀ e s', F e s' → (h e).Ends Q E s') :
    (p.tryCatch h).Ends Q E s := by
  induction p generalizing s with
  | done a => exact hp
  | fail e => exact hh e s hp
  | act l en u n ih =>
    intro v hen
    exact ih s v (hp v hen)

theorem Ends.mono {Q' : α → σ → Prop} {E' : ε → σ → Prop} {p : Prog σ ν ℓ ε α} {s : σ}
    (hp : p.Ends Q E s) (hQ : ∀ a s, Q a s → Q' a s) (hE : ∀ e s, E e s → E' e s) :
    p.Ends Q' E' s := by
  induction p generalizing s with
  | done a => exact hQ a s hp
  | fail e => exact hE e s hp
  | act l en u n ih =>
    intro v hen
    exact ih s v (hp v hen)

theorem ends_true (p : Prog σ ν ℓ ε α) (s : σ) :
    p.Ends (fun _ _ => True) (fun _ _ => True) s := by
  induction p generalizing s with
  | done a => trivial
  | fail e => trivial
  | act l en u n ih => exact fun v _ => ih s v (u s v)

theorem ends_ofExcept {r : Except ε α} {s : σ} (hok : ∀ a, r = .ok a → Q a s)
    (herr : ∀ e, r = .error e → E e s) : (ofExcept r : Prog σ ν ℓ ε α).Ends Q E s := by
  cases r with
  | ok a => exact hok a rfl
  | error e => exact herr e rfl

theorem ends_await {l : ℓ} {en : σ → ν → Bool} {f : σ → ν → σ × Except ε α} {s : σ}
    (hok : ∀ v a, en s v = true → (f s v).2 = .ok a → Q a (f s v).1)
    (herr : ∀ v e, en s v = true → (f s v).2 = .error e → E e (f s v).1) :
    (await l en f).Ends Q E s := by
  intro v hen
  exact ends_ofExcept (fun a ha => hok v a hen ha) (fun e he => herr v e hen he)

theorem ends_atomic {l : ℓ} {f : σ → ν → σ × Except ε α} {s : σ}
    (hok : ∀ v a, (f s v).2 = .ok a → Q a (f s v).1)
    (herr : ∀ v e, (f s v).2 = .error e → E e (f s v).1) : (atomic l f).Ends Q E s :=
  ends_await (fun v a _ h => hok v a h) (fun v e _ h => herr v e h)

/-- Whatever the state, some input enables the next step. -/
def Ready : Prog σ ν ℓ ε α → Prop
  | done _ => True
  | fail _ => True
  | act _ en _ n => (∀ s, ∃ v, en s v = true) ∧ ∀ s v, Ready (n s v)

theorem Ready.exists_eval {p : Prog σ ν ℓ ε α} (hp : p.Ready) (s : σ) :
    ∃ vs out s', p.eval s vs = some (out, s') := by
  induction p generalizing s with
  | done a => exact ⟨[], .ok a, s, rfl⟩
  | fail e => exact ⟨[], .error e, s, rfl⟩
  | act l en u n ih =>
    obtain ⟨v, hv⟩ := hp.1 s
    obtain ⟨vs, out, s', h⟩ := ih s v (hp.2 s v) (u s v)
    refine ⟨v :: vs, out, s', ?_⟩
    rw [Prog.eval, if_pos hv, h]

theorem ready_bind {p : Prog σ ν ℓ ε β} {f : β → Prog σ ν ℓ ε α} (hp : p.Ready)
    (hf : ∀ b, (f b).Ready) : (p >>= f).Ready := by
  induction p with
  | done b => exact hf b
  | fail e => trivial
  | act l en u n ih => exact ⟨hp.1, fun s v => ih s v (hp.2 s v)⟩

theorem ready_tryCatch {p : Prog σ ν ℓ ε α} {h : ε → Prog σ ν ℓ ε α} (hp : p.Ready)
    (hh : ∀ e, (h e).Ready) : (p.tryCatch h).Ready := by
  induction p with
  | done a => trivial
  | fail e => exact hh e
  | act l en u n ih => exact ⟨hp.1, fun s v => ih s v (hp.2 s v)⟩

theorem ready_ofExcept {r : Except ε α} : (ofExcept r : Prog σ ν ℓ ε α).Ready := by
  cases r <;> trivial

theorem ready_await {l : ℓ} {en : σ → ν → Bool} {f : σ → ν → σ × Except ε α}
    (hen : ∀ s, ∃ v, en s v = true) : (await l en f).Ready :=
  ⟨hen, fun _ _ => ready_ofExcept⟩

theorem ready_atomic [Nonempty ν] {l : ℓ} {f : σ → ν → σ × Except ε α} : (atomic l f).Ready :=
  ready_await (fun _ => ⟨Classical.arbitrary ν, rfl⟩)

/-- For some inputs the program, alone from `s`, returns as in `Q`. -/
def Can (Q : α → σ → Prop) : Prog σ ν ℓ ε α → σ → Prop
  | done a, s => Q a s
  | fail _, _ => False
  | act _ en u n, s => ∃ v, en s v = true ∧ Can Q (n s v) (u s v)

theorem Can.exists_eval {p : Prog σ ν ℓ ε α} {s : σ} (hp : p.Can Q s) :
    ∃ vs a s', p.eval s vs = some (.ok a, s') ∧ Q a s' := by
  induction p generalizing s with
  | done a => exact ⟨[], a, s, rfl, hp⟩
  | fail e => exact hp.elim
  | act l en u n ih =>
    obtain ⟨v, hv, hn⟩ := hp
    obtain ⟨vs, a, s', h, hq⟩ := ih s v hn
    refine ⟨v :: vs, a, s', ?_, hq⟩
    rw [Prog.eval, if_pos hv, h]

theorem Can.mono {Q' : α → σ → Prop} {p : Prog σ ν ℓ ε α} {s : σ} (hp : p.Can Q s)
    (h : ∀ a s, Q a s → Q' a s) : p.Can Q' s := by
  induction p generalizing s with
  | done a => exact h a s hp
  | fail e => exact hp.elim
  | act l en u n ih =>
    obtain ⟨v, hv, hn⟩ := hp
    exact ⟨v, hv, ih s v hn⟩

theorem can_bind {M : β → σ → Prop} {p : Prog σ ν ℓ ε β} {f : β → Prog σ ν ℓ ε α} {s : σ}
    (hp : p.Can M s) (hf : ∀ b s', M b s' → (f b).Can Q s') : (p >>= f).Can Q s := by
  induction p generalizing s with
  | done b => exact hf b s hp
  | fail e => exact hp.elim
  | act l en u n ih =>
    obtain ⟨v, hv, hn⟩ := hp
    exact ⟨v, hv, ih s v hn⟩

theorem can_tryCatch {p : Prog σ ν ℓ ε α} {h : ε → Prog σ ν ℓ ε α} {s : σ}
    (hp : p.Can Q s) : (p.tryCatch h).Can Q s := by
  induction p generalizing s with
  | done a => exact hp
  | fail e => exact hp.elim
  | act l en u n ih =>
    obtain ⟨v, hv, hn⟩ := hp
    exact ⟨v, hv, ih s v hn⟩

theorem can_await {l : ℓ} {en : σ → ν → Bool} {f : σ → ν → σ × Except ε α} {s : σ} (v : ν)
    {a : α} (hen : en s v = true) (hf : (f s v).2 = .ok a) (hq : Q a (f s v).1) :
    (await l en f).Can Q s := by
  refine ⟨v, hen, ?_⟩
  change Can Q (ofExcept (f s v).2) (f s v).1
  rw [hf]
  exact hq

theorem can_atomic {l : ℓ} {f : σ → ν → σ × Except ε α} {s : σ} (v : ν) {a : α}
    (hf : (f s v).2 = .ok a) (hq : Q a (f s v).1) : (atomic l f).Can Q s :=
  can_await v rfl hf hq

theorem can_andThen {M : α → σ → Prop} {p : Prog σ ν ℓ ε α} {after : Prog σ ν ℓ ε Unit} {s : σ}
    (hp : p.Can M s) (ha : ∀ a s', M a s' → after.Can (fun _ => Q a) s') :
    (p.andThen after).Can Q s :=
  can_bind (can_tryCatch hp) (fun a s' hm => can_bind (ha a s' hm) (fun _ _ h => h))

section Reaches

variable {ι κ ω : Type} [DecidableEq ι] {S : System ι σ ν ℓ ε α κ ω} {p : Pool ι σ ν ℓ ε α} {i : ι}

/-- A thread of a pool can run to its end while the others wait. -/
theorem Can.reach {t : Prog σ ν ℓ ε α} (ht : t.Can Q p.shared) (hi : p.threads i = some t) :
    ∃ q a, S.Reach System.anyStep p q ∧ q.threads i = some (.done a) ∧ Q a q.shared := by
  induction t generalizing p with
  | done a => exact ⟨p, a, Relation.ReflTransGen.refl, hi, ht⟩
  | fail e => exact ht.elim
  | act l en u n ih =>
    obtain ⟨v, hv, hn⟩ := ht
    let p' : Pool ι σ ν ℓ ε α :=
      ⟨u p.shared v, Function.update p.threads i (some (n p.shared v))⟩
    have hstep : S.Step System.anyStep p p' := by
      refine ⟨.act i v, ?_, ?_⟩
      · simp [System.Meets, hi, System.anyStep]
      · simp [System.step, hi, hv, p']
    obtain ⟨q, a, hq, hdone, hresult⟩ := ih p.shared v (p := p') hn (Function.update_self ..)
    exact ⟨q, a, Relation.ReflTransGen.head hstep hq, hdone, hresult⟩

theorem Can.reach_start {c : κ} (hc : (S.program i c).Can Q p.shared) (hi : p.threads i = none) :
    ∃ q a, S.Reach System.anyStep p q ∧ q.threads i = some (.done a) ∧ Q a q.shared := by
  let p' : Pool ι σ ν ℓ ε α := ⟨p.shared, Function.update p.threads i (some (S.program i c))⟩
  have hstep : S.Step System.anyStep p p' :=
    ⟨.start i c, trivial, by simp [System.step, hi, p']⟩
  obtain ⟨q, a, hq, hdone, hresult⟩ :=
    Can.reach (S := S) (p := p') (i := i) hc (Function.update_self ..)
  exact ⟨q, a, Relation.ReflTransGen.head hstep hq, hdone, hresult⟩

end Reaches

/-- Alone from `s` and with good inputs only, the program never gets stuck or fails, and
returns as in `Q`. -/
def Achieves (G : ν → Prop) (Q : α → σ → Prop) : Prog σ ν ℓ ε α → σ → Prop
  | done a, s => Q a s
  | fail _, _ => False
  | act _ en u n, s => (∃ v, G v ∧ en s v = true) ∧
      ∀ v, G v → en s v = true → Achieves G Q (n s v) (u s v)

variable {G : ν → Prop}

theorem Achieves.exists_eval {p : Prog σ ν ℓ ε α} {s : σ} (hp : p.Achieves G Q s) :
    ∃ vs out s', (∀ v ∈ vs, G v) ∧ p.eval s vs = some (out, s') := by
  induction p generalizing s with
  | done a => exact ⟨[], .ok a, s, fun v hv => (by cases hv), rfl⟩
  | fail e => exact hp.elim
  | act l en u n ih =>
    obtain ⟨⟨v, hg, hv⟩, hn⟩ := hp
    obtain ⟨vs, out, s', hvs, h⟩ := ih s v (hn v hg hv)
    refine ⟨v :: vs, out, s', ?_, ?_⟩
    · intro w hw
      rcases List.mem_cons.mp hw with rfl | hw
      · exact hg
      · exact hvs w hw
    · rw [Prog.eval, if_pos hv, h]

theorem Achieves.eval {p : Prog σ ν ℓ ε α} {s s' : σ} {vs : List ν} {out : Except ε α}
    (hp : p.Achieves G Q s) (hvs : ∀ v ∈ vs, G v) (h : p.eval s vs = some (out, s')) :
    ∃ a, out = .ok a ∧ Q a s' := by
  induction p generalizing s vs with
  | done a =>
    cases h
    exact ⟨a, rfl, hp⟩
  | fail e => exact hp.elim
  | act l en u n ih =>
    cases vs with
    | nil => cases h
    | cons v vs =>
      unfold Prog.eval at h
      split at h
      · rename_i hen
        exact ih s v (hp.2 v (hvs v List.mem_cons_self) hen)
          (fun w hw => hvs w (List.mem_cons_of_mem v hw)) h
      · cases h

theorem achieves_bind {M : β → σ → Prop} {p : Prog σ ν ℓ ε β} {f : β → Prog σ ν ℓ ε α} {s : σ}
    (hp : p.Achieves G M s) (hf : ∀ b s', M b s' → (f b).Achieves G Q s') :
    (p >>= f).Achieves G Q s := by
  induction p generalizing s with
  | done b => exact hf b s hp
  | fail e => exact hp.elim
  | act l en u n ih => exact ⟨hp.1, fun v hg hen => ih s v (hp.2 v hg hen)⟩

theorem achieves_tryCatch {p : Prog σ ν ℓ ε α} {h : ε → Prog σ ν ℓ ε α} {s : σ}
    (hp : p.Achieves G Q s) : (p.tryCatch h).Achieves G Q s := by
  induction p generalizing s with
  | done a => exact hp
  | fail e => exact hp.elim
  | act l en u n ih => exact ⟨hp.1, fun v hg hen => ih s v (hp.2 v hg hen)⟩

theorem achieves_andThen {M : α → σ → Prop} {p : Prog σ ν ℓ ε α} {after : Prog σ ν ℓ ε Unit}
    {s : σ} (hp : p.Achieves G M s)
    (ha : ∀ a s', M a s' → after.Achieves G (fun _ => Q a) s') :
    (p.andThen after).Achieves G Q s :=
  achieves_bind (achieves_tryCatch hp) (fun a s' hm => achieves_bind (ha a s' hm)
    (fun _ _ h => h))

theorem achieves_await {l : ℓ} {en : σ → ν → Bool} {f : σ → ν → σ × Except ε α} {s : σ}
    (hen : ∃ v, G v ∧ en s v = true)
    (hf : ∀ v, G v → en s v = true → ∃ a, (f s v).2 = .ok a ∧ Q a (f s v).1) :
    (await l en f).Achieves G Q s := by
  refine ⟨hen, fun v hg hv => ?_⟩
  obtain ⟨a, ha, hq⟩ := hf v hg hv
  change Achieves G Q (ofExcept (f s v).2) (f s v).1
  rw [ha]
  exact hq

theorem achieves_atomic {l : ℓ} {f : σ → ν → σ × Except ε α} {s : σ} (hG : ∃ v, G v)
    (hf : ∀ v, G v → ∃ a, (f s v).2 = .ok a ∧ Q a (f s v).1) : (atomic l f).Achieves G Q s := by
  obtain ⟨v, hv⟩ := hG
  exact achieves_await ⟨v, hv, rfl⟩ (fun v hg _ => hf v hg)

theorem ends_andThen {F : ε → σ → Prop} {M : α → σ → Prop} {p : Prog σ ν ℓ ε α}
    {after : Prog σ ν ℓ ε Unit} {s : σ} (hp : p.Ends M F s)
    (ha : ∀ a s', M a s' → after.Ends (fun _ => Q a) E s')
    (hf : ∀ e s', F e s' → after.Ends (fun _ => E e) E s') : (p.andThen after).Ends Q E s :=
  ends_bind (M := M) (ends_tryCatch hp (fun e s' h => ends_bind (hf e s' h) (fun _ _ he => he)))
    (fun a s' hm => ends_bind (ha a s' hm) (fun _ _ h => h))

end Resumption.Prog

namespace Resumption.Spec

open Resumption.Prog

variable {ι σ ν ℓ ε α : Type} {P : Spec ι σ ℓ} {i : ι}

/-- A safe program keeps the invariant also when it runs alone. -/
theorem Safe.ends {Q : α → σ → Prop} {p : Prog σ ν ℓ ε α} {s : σ}
    (hc : ∀ s l, P.cond s l) (hs : P.inv s) (hp : P.Safe i Q p s) :
    p.Ends (fun a s' => P.inv s' ∧ Q a s') (fun _ s' => P.inv s') s := by
  induction p generalizing s with
  | done a => exact ⟨hs, hp s Relation.ReflTransGen.refl⟩
  | fail e => exact hs
  | act l en u n ih =>
    intro v hen
    obtain ⟨h1, -, h3⟩ := hp s v Relation.ReflTransGen.refl hs (hc s l) hen
    exact ih s v h1 h3

end Resumption.Spec
