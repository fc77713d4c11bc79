import ProjectControl.ResumptionAlone
import ProjectControl.CompactIntent

/-! The steps of a phase when no other call runs: what the journal holds after
each of them and with which errors it can end. -/

set_option autoImplicit false

namespace ProjectControl.Compact

open Resumption Resumption.Prog

section Alone

variable {A α : Type} {N : NativeHost A} {c : Codec} {t : Target} {s : World A} {d : Record}
variable {name : PhaseName} {payload : Payload} {E : Err → World A → Prop}

/-- The intent of a phase, if the journal has one, is for this request. -/
def Agrees (d : Record) (name : PhaseName) (payload : Payload) : Prop :=
  ∀ i, d.intent name = some i → i.payload = payload

/-- The journal holds the intent of a phase, and it is for this request. -/
def Entered (t : Target) (name : PhaseName) (payload : Payload) (s : World A) : Prop :=
  ∃ d i, s.Holds t d ∧ d.intent name = some i ∧ i.payload = payload

/-- No reply of the native host names this reason. -/
def NativeHost.Silent (N : NativeHost A) (reason : String) : Prop :=
  ∀ a call v d, (N.serve a call v).2.result = .ok d → reasonOf d ≠ some reason

theorem holds_unique {d d' : Record} (h : s.Holds t d) (h' : s.Holds t d') : d = d' := by
  have hrow := Option.some.inj (h.symm.trans h')
  cases hrow
  rfl

theorem ends_storeGet (hd : s.Holds t d)
    (hE : ∀ e, Store.get c s.journal t.handle t.project t.repository = .error e → E e s) :
    (storeGet c t).Ends (fun r s' => r = d ∧ s' = s) E s := by
  apply ends_atomic
  · intro v r hr
    exact ⟨holds_unique (Store.get_ok hr) hd, rfl⟩
  · intro v e he
    exact hE e he

theorem ends_serveRead {project repository : String} {tool : Tool} {arguments : Dict}
    (hd : s.Holds t d) (hE : ∀ e s', s'.Holds t d → e = .other → E e s') :
    (serveRead N project repository tool arguments).Ends
      (fun out s' => s'.Holds t d ∧ ∃ a call v, (N.serve a call v).2.result = .ok out) E s := by
  apply ends_atomic
  · intro v out hout
    exact ⟨hd, _, _, v, hout⟩
  · intro v e he
    refine hE e _ hd ?_
    cases hr : (N.serve s.native ⟨tool, project, repository, arguments, none, none⟩ v).2 <;>
      simp_all [Reply.result]

theorem ends_serveMutation {project repository : String} {key : Key} {revision : ℕ}
    (hd : s.Holds t d) (hE : ∀ e s', s'.Holds t d → e = .other → E e s') :
    (serveMutation N project repository payload key revision).Ends
      (fun _ s' => s'.Holds t d) E s := by
  apply ends_atomic
  · intro v out hout
    exact hd
  · intro v e he
    refine hE e _ hd ?_
    cases hr : (N.serve s.native
      ⟨payload.tool, project, repository, payload.arguments, some key, some revision⟩ v).2 <;>
      simp_all [Reply.result]

theorem ends_observeRevision (hd : s.Holds t d)
    (hE : ∀ e s', s'.Holds t d → e = .other ∨ e = .workflow "authority_revision_unavailable" ∨
      (∃ a call v out reason, (N.serve a call v).2.result = .ok out ∧
        reasonOf out = some reason ∧ e = .workflow reason) → E e s') :
    (observeRevision N t).Ends (fun _ s' => s'.Holds t d) E s := by
  unfold observeRevision
  apply ends_bind (ends_serveRead hd (fun e s' h he => hE e s' h (Or.inl he)))
  rintro out s' ⟨h, a, call, v, hout⟩
  split
  · -- the authority's own reason is raised under its name
    cases hr : reasonOf out with
    | none => exact hE _ s' h (Or.inr (Or.inl rfl))
    | some reason => exact hE _ s' h (Or.inr (Or.inr ⟨a, call, v, out, reason, hout, hr, rfl⟩))
  · split
    · exact h
    · exact hE _ s' h (Or.inr (Or.inl rfl))

theorem ends_storeUpdate {entered : Option Phase} {changes : Record} (hd : s.Holds t d)
    (hE : ∀ e, Store.update c s.journal t.handle t.project t.repository changes = .error e →
      E e s) :
    (storeUpdate c t entered changes).Ends
      (fun r s' => r = d.merge changes ∧ s' = s.put t.handle (d.merge changes)) E s := by
  apply ends_atomic
  · intro v r hr
    unfold onJournal at hr ⊢
    split at hr <;> cases hr
    rename_i j hj
    obtain ⟨old, ho, rfl, rfl⟩ := Store.update_ok hj
    cases holds_unique ho hd
    exact ⟨rfl, rfl⟩
  · intro v e he
    unfold onJournal at he ⊢
    split at he <;> cases he
    rename_i hj
    exact hE e hj

/-- One intent of the record is stored anew or left as it is. -/
theorem ends_storeIntent {label : Label} {fn : Record → Except Err (Option Record)}
    {Q : Record → World A → Prop} (hd : s.Holds t d) (hkeep : fn d = .ok none → Q d s)
    (hnew : ∀ data issued, fn d = .ok (some data) →
      Q data { s.put t.handle data with issued := issued })
    (hE : ∀ e, Store.atomicUpdate c s.journal t.handle t.project t.repository fn = .error e →
      E e s) :
    (storeIntent c label t name fn).Ends Q E s := by
  apply ends_atomic
  · intro v r hr
    cases hu : Store.atomicUpdate c s.journal t.handle t.project t.repository fn with
    | error e => simp [hu] at hr
    | ok out =>
      obtain ⟨data, j⟩ := out
      simp only [hu] at hr ⊢
      cases hr
      obtain ⟨old, ho, hout⟩ := Store.atomicUpdate_ok hu
      cases holds_unique ho hd
      rcases hout with ⟨hf, rfl, rfl⟩ | ⟨hf, rfl⟩
      · rw [World.noted_of_record hd name]
        exact hkeep hf
      · exact hnew _ _ hf
  · intro v e he
    cases hu : Store.atomicUpdate c s.journal t.handle t.project t.repository fn with
    | ok out => simp [hu] at he
    | error e' =>
      simp only [hu] at he ⊢
      cases he
      exact hE e hu

/-- The code with which a stored intent refuses another request of its phase. -/
def conflict : Err := .workflow "workflow_phase_intent_conflict"

def NotConflict (e : Err) (_ : World A) : Prop := e ≠ conflict

theorem notConflict_code {code : String} (h : code ≠ "workflow_phase_intent_conflict") :
    NotConflict (.workflow code) s := by
  intro he
  exact h (Err.workflow.inj he)

theorem notConflict_refuses {e : Err} (h : Store.Refuses e) : NotConflict e s := by
  obtain ⟨code, hc, rfl⟩ := h
  apply notConflict_code
  rintro rfl
  revert hc
  decide

theorem notConflict_other {e : Err} (h : e = .other) : NotConflict e s := by
  rw [h]
  intro he
  cases he

theorem ends_invokeMutation {record : Record} {key : Key} {revision : ℕ} (hd : s.Holds t d) :
    (invokeMutation N record payload key revision).Ends (fun _ s' => s'.Holds t d)
      NotConflict s := by
  unfold invokeMutation withScope
  split
  · exact ends_serveMutation hd (fun e s' _ he => notConflict_other he)
  · exact notConflict_code (by decide)

section NoConflict

variable (hN : N.Silent "workflow_phase_intent_conflict")

include hN

theorem ends_observeRevision_local (hd : s.Holds t d) :
    (observeRevision N t).Ends (fun _ s' => s'.Holds t d) NotConflict s := by
  apply ends_observeRevision hd
  rintro e s' - (he | rfl | ⟨a, call, v, out, reason, hout, hr, rfl⟩)
  · exact notConflict_other he
  · exact notConflict_code (by decide)
  · apply notConflict_code
    rintro rfl
    exact hN a call v out hout hr

/-- An intent that agrees with the request is found, or persisted and found. -/
theorem ends_phaseIntent {record : Record} {expectedRevision : Option ℕ}
    {idempotencyKey : Option Key} (hd : s.Holds t d) (ha : Agrees d name payload) :
    (phaseIntent N c t record name payload expectedRevision idempotencyKey).Ends
      (fun _ s' => Entered t name payload s') NotConflict s := by
  have hstored : ∀ (latest : Record) (i : Intent) (s' : World A), s'.Holds t latest →
      latest.intent name = some i → i.payload = payload →
      (storedRequest record latest payload i : Host A _).Ends
        (fun _ s' => Entered t name payload s') NotConflict s' := by
    intro latest i s' hl hi hp
    unfold storedRequest
    rw [if_neg (not_not.mpr hp)]
    exact ⟨latest, i, hl, hi, hp⟩
  unfold phaseIntent
  split
  · exact notConflict_code (by decide)
  · refine ends_bind (ends_storeGet hd (fun e he => notConflict_refuses (Store.get_error he))) ?_
    rintro latest s' ⟨rfl, rfl⟩
    split
    · rename_i prior hprior
      exact hstored latest prior s' hd hprior (ha prior hprior)
    · rename_i hnone
      have hrev : (expectedOrObserved N t expectedRevision).Ends
          (fun _ s'' => s''.Holds t latest) NotConflict s' := by
        cases expectedRevision with
        | some revision => exact hd
        | none => exact ends_observeRevision_local hN hd
      refine ends_bind hrev (fun revision s'' hd'' => ?_)
      refine ends_bind (M := fun r s₁ => s₁.Holds t r ∧ ∃ i, r.intent name = some i ∧
        i.payload = payload) (ends_storeIntent hd'' ?_ ?_ ?_) ?_
      · intro hf
        rcases persistIntent_ok hf with ⟨i, hi, hp, -⟩ | ⟨-, he⟩
        · exact ⟨hd'', i, hi, hp⟩
        · cases he
      · intro data issued hf
        rcases persistIntent_ok hf with ⟨i, -, -, he⟩ | ⟨-, he⟩
        · cases he
        · cases he
          exact ⟨World.record_put hd'' _, _, Record.setIntent_intent_self _ _ _, rfl⟩
      · intro e he
        rcases Store.atomicUpdate_error he with he | ⟨old, ho, he⟩
        · exact notConflict_refuses he
        · cases holds_unique ho hd''
          simp [persistIntent, hnone] at he
      · rintro current s₁ ⟨h₁, i, hi, hp⟩
        rw [hi]
        exact hstored current i s₁ h₁ hi hp

theorem ends_refreshPhaseIntent {record : Record} {rejected : Key × ℕ} (hd : s.Holds t d)
    (ha : Agrees d name payload) :
    (refreshPhaseIntent N c t record name payload rejected).Ends
      (fun _ s' => ∃ d', s'.Holds t d' ∧ Agrees d' name payload) NotConflict s := by
  unfold refreshPhaseIntent
  refine ends_bind (ends_observeRevision_local hN hd) (fun revision s' hd' => ?_)
  refine ends_bind (M := fun _ (s₁ : World A) => ∃ d', s₁.Holds t d' ∧ Agrees d' name payload)
    (ends_storeIntent hd' ?_ ?_ ?_) (fun _ _ h => h)
  · intro _
    exact ⟨d, hd', ha⟩
  · intro data issued hf
    obtain ⟨i, hi, hp, ⟨-, he⟩ | ⟨-, he⟩⟩ := refreshIntent_ok hf
    · cases he
    · cases he
      refine ⟨_, World.record_put hd' _, fun i' hi' => ?_⟩
      rw [Record.setIntent_intent_self] at hi'
      cases hi'
      exact hp
  · intro e he
    rcases Store.atomicUpdate_error he with he | ⟨old, ho, he⟩
    · exact notConflict_refuses he
    · cases holds_unique ho hd'
      unfold refreshIntent at he
      split at he
      · cases he
        exact notConflict_code (by decide)
      · rename_i i hi
        rw [if_neg (not_not.mpr (ha i hi))] at he
        split at he <;> cases he

/-- A request that agrees with the stored intent of its phase meets no conflict. -/
theorem ends_invokePhase {record : Record} (hd : s.Holds t d) (ha : Agrees d name payload) :
    (invokePhase N c t record name payload).Ends (fun _ s' => ∃ d', s'.Holds t d')
      NotConflict s := by
  unfold invokePhase
  refine ends_bind (ends_phaseIntent hN hd ha) ?_
  rintro ⟨request, record⟩ s₁ ⟨d₁, i, h₁, hi, hp⟩
  refine ends_bind (ends_invokeMutation h₁) (fun result s₂ h₂ => ?_)
  split
  · -- a stale revision: the same intent is refreshed and asked for again
    have ha₁ : Agrees d₁ name payload := by
      intro i' hi'
      cases hi.symm.trans hi'
      exact hp
    refine ends_bind (ends_refreshPhaseIntent hN h₂ ha₁) ?_
    rintro record' s₃ ⟨d₃, h₃, ha₃⟩
    refine ends_bind (ends_phaseIntent hN h₃ ha₃) ?_
    rintro ⟨request', record''⟩ s₄ ⟨d₄, -, h₄, -⟩
    refine ends_bind (ends_invokeMutation h₄) (fun result' s₅ h₅ => ?_)
    exact ⟨d₄, h₅⟩
  · exact ⟨d₁, h₂⟩

end NoConflict

end Alone

end ProjectControl.Compact
