import Mathlib.Data.Fintype.EquivFin
import ProjectControl.CompactAlone
import ProjectControl.CompactHost

/-! Every call of `next_task` can run to its end, and the steps of the journal
succeed as long as no size limit is reached. -/

set_option autoImplicit false

namespace ProjectControl.Compact

open Resumption Resumption.Prog

/-- No encoding is longer than the limit it is compared with. -/
structure Codec.Roomy (c : Codec) : Prop where
  record : ∀ r, c.recordBytes r ≤ maxPreviewBytes
  request : ∀ r, c.requestBytes r ≤ 4096
  payload : ∀ p, c.payloadBytes p ≤ 32 * 1024
  dict : ∀ d, c.dictBytes d ≤ maxContextCapsuleBytes
  response : ∀ r, c.responseBytes r ≤ maxResponseBytes
  store : ∀ j, c.storeBytes j ≤ maxStoreBytes
  safe : ∀ text n, c.safeComponent text n = true

theorem Codec.small_roomy : Codec.small.Roomy := by
  constructor <;> intros <;> simp [small, maxPreviewBytes, maxContextCapsuleBytes,
    maxResponseBytes, maxStoreBytes]

section Store

variable {c : Codec} {j : Journal} {h : Handle} {p r : String} {d : Record}

theorem Store.findOrRaise_of_record (hd : j.record h = some (p, r, d)) :
    findOrRaise j h p r = .ok d := by
  rw [Journal.record_eq_some] at hd
  simp [findOrRaise, find, hd, Bind.bind, Except.bind]

theorem Store.read_of_length (hl : j.length ≤ maxRecords) : read j = .ok j :=
  if_neg (Nat.not_lt.mpr hl)

theorem Store.write_of_roomy (hc : c.Roomy) : write c j = .ok j :=
  if_neg (Nat.not_lt.mpr (hc.store j))

theorem Store.get_of_roomy (hc : c.Roomy) (hl : j.length ≤ maxRecords)
    (hd : j.record h = some (p, r, d)) : get c j h p r = .ok d := by
  rw [get, checkHandle, if_pos (hc.safe h 256), read_of_length hl]
  exact findOrRaise_of_record hd

theorem Store.update_of_roomy {changes : Record} (hc : c.Roomy) (hl : j.length ≤ maxRecords)
    (hd : j.record h = some (p, r, d)) :
    update c j h p r changes = .ok (d.merge changes, j.setData h (d.merge changes)) := by
  have hb : checkBytes (c.recordBytes changes) maxPreviewBytes "workflow_record_too_large" =
      .ok () := if_neg (Nat.not_lt.mpr (hc.record changes))
  simp only [update, hb, read_of_length hl, findOrRaise_of_record hd, write_of_roomy hc,
    Bind.bind, Except.bind]

theorem Store.atomicUpdate_of_roomy {fn : Record → Except Err (Option Record)}
    (hc : c.Roomy) (hl : j.length ≤ maxRecords) (hd : j.record h = some (p, r, d)) {new : Record}
    (hf : fn d = .ok (some new)) :
    atomicUpdate c j h p r fn = .ok (new, j.setData h new) := by
  simp only [atomicUpdate, read_of_length hl, findOrRaise_of_record hd, hf, write_of_roomy hc,
    Bind.bind, Except.bind]

end Store

/-- Some handle has no entry in the journal. -/
theorem exists_fresh (j : Journal) : ∃ h, j.fresh h = true := by
  obtain ⟨h, hh⟩ := Infinite.exists_notMem_finset j.handles.toFinset
  refine ⟨h, ?_⟩
  have hrows : j.rows h = [] := by
    rw [Journal.rows, List.filterMap_eq_nil_iff]
    intro e he
    cases e with
    | workflow h' p r d =>
      refine if_neg (fun heq => hh ?_)
      rw [List.mem_toFinset]
      exact List.mem_filterMap.mpr ⟨_, he, congrArg some heq⟩
    | current | adminPreview => rfl
  simp [Journal.fresh, hrows]

section Ready

variable {A α : Type} {N : NativeHost A} {c : Codec} {t : Target} {r : Record}

instance : Nonempty Input := ⟨{ reply := .raised, token := "" }⟩

theorem ready_respond {response : Response} : (respond c response : Host A _).Ready := by
  unfold respond
  split <;> trivial

theorem ready_need {x : Option α} : (need x : Host A α).Ready := by
  cases x <;> trivial

theorem ready_withScope {k : String → String → Host A α}
    (hk : ∀ project repository, (k project repository).Ready) : (withScope r k).Ready := by
  unfold withScope
  split
  · exact hk _ _
  · trivial

theorem ready_observeRevision : (observeRevision N t).Ready := by
  refine ready_bind ready_atomic (fun observed => ?_)
  split
  · trivial
  · split <;> trivial

theorem ready_phaseIntent {name : PhaseName} {payload : Payload} {revision : Option ℕ}
    {key : Option Key} : (phaseIntent N c t r name payload revision key).Ready := by
  have hstored : ∀ latest i,
      (storedRequest r latest payload i : Host A ((Key × ℕ) × Record)).Ready := by
    intro latest i
    unfold storedRequest
    split <;> trivial
  unfold phaseIntent
  split
  · trivial
  · refine ready_bind ready_atomic (fun latest => ?_)
    split
    · exact hstored _ _
    · refine ready_bind ?_ (fun revision => ready_bind ready_atomic (fun current => ?_))
      · cases revision with
        | some revision => trivial
        | none => exact ready_observeRevision
      · split
        · exact hstored _ _
        · trivial

theorem ready_invokePhase {name : PhaseName} {payload : Payload} {revision : Option ℕ}
    {key : Option Key} : (invokePhase N c t r name payload revision key).Ready := by
  have hsend : ∀ (r : Record) (key : Key) (revision : ℕ),
      (invokeMutation N r payload key revision).Ready :=
    fun r key revision => ready_withScope (fun _ _ => ready_atomic)
  unfold invokePhase
  refine ready_bind ready_phaseIntent ?_
  rintro ⟨request, record⟩
  refine ready_bind (hsend _ _ _) (fun result => ?_)
  split
  · refine ready_bind (ready_bind ready_observeRevision
      (fun revision => ready_bind ready_atomic (fun _ => trivial))) (fun record => ?_)
    refine ready_bind ready_phaseIntent ?_
    rintro ⟨request, record⟩
    exact ready_bind (hsend _ _ _) (fun _ => trivial)
  · trivial

theorem ready_resumeActive : (resumeActive N c t r).Ready := by
  unfold resumeActive
  split
  · split
    · trivial
    · refine ready_bind ready_atomic (fun inspected => ?_)
      split
      · trivial
      · refine ready_bind ready_invokePhase ?_
        rintro ⟨resumed, record⟩
        dsimp only
        split
        · trivial
        · split
          · trivial
          · exact ready_bind ready_atomic (fun _ => trivial)
  · trivial

theorem ready_resumeTask : (resumeTask N c t r).Ready := by
  refine ready_bind ready_resumeActive (fun out => ?_)
  split
  · trivial
  · exact ready_bind ready_atomic (fun _ => ready_respond)

theorem ready_selectWork {requested : Request} : (selectWork N c t requested r).Ready := by
  refine ready_bind (ready_withScope (fun _ _ => ready_atomic)) (fun choice => ?_)
  split
  · trivial
  · split
    · refine ready_bind ready_atomic (fun record => ?_)
      split
      · exact ready_bind ready_respond (fun _ => trivial)
      · trivial
    · split
      · trivial
      · refine ready_bind ready_ofExcept (fun sel => ready_bind ready_atomic (fun record => ?_))
        split <;> trivial
    · trivial

theorem ready_createWorkspace : (createWorkspace N c t r).Ready := by
  refine ready_bind ready_need (fun _ => ready_bind ready_need (fun _ => ready_bind ready_need
    (fun _ => ready_bind ready_invokePhase ?_)))
  rintro ⟨workspace, record⟩
  dsimp only
  split
  · trivial
  · exact ready_bind ready_atomic (fun _ => trivial)

theorem ready_dispatchAttempt : (dispatchAttempt N c t r).Ready := by
  refine ready_bind ready_need (fun _ => ready_bind ready_need (fun _ => ready_bind ready_need
    (fun _ => ready_bind ready_invokePhase ?_)))
  rintro ⟨dispatched, record⟩
  dsimp only
  split
  · trivial
  · refine ready_bind ready_ofExcept (fun attemptId => ready_bind ready_ofExcept
      (fun leaseId => ?_))
    split
    · exact ready_bind ready_atomic (fun _ => trivial)
    · trivial

theorem ready_buildContext : (buildContext N c t r).Ready := by
  refine ready_bind ready_need (fun _ => ready_bind ready_need (fun _ => ready_bind
    (ready_withScope (fun _ _ => ready_atomic)) (fun context => ?_)))
  split
  · trivial
  · split
    · trivial
    · refine ready_bind ready_atomic ?_
      rintro ⟨capsule, requirementIds⟩
      exact ready_bind ready_atomic (fun _ => trivial)

theorem ready_stage {phase : Phase} {stage : Record → Host A (Response ⊕ Record)}
    {rest : Record → Host A Response} (hs : (stage r).Ready) (hr : ∀ r, (rest r).Ready) :
    (andStage (whenPhase phase stage r) rest).Ready := by
  refine ready_bind ?_ (fun out => ?_)
  · unfold whenPhase
    split
    · exact hs
    · trivial
  · split
    · trivial
    · exact hr _

theorem ready_answerTask {isNew : Bool} : (answerTask N c t isNew r).Ready := by
  unfold answerTask
  split
  · exact ready_respond
  · split
    · trivial
    · split
      · exact ready_respond
      · exact ready_resumeTask

theorem ready_advanceTask {requested : Request} {isNew : Bool} :
    (advanceTask N c t requested isNew r).Ready := by
  unfold advanceTask
  split
  · exact ready_resumeTask
  · split
    · exact ready_respond
    · exact ready_stage ready_selectWork (fun _ => ready_stage ready_createWorkspace
        (fun _ => ready_stage ready_dispatchAttempt (fun _ => ready_stage ready_buildContext
          (fun _ => ready_answerTask))))

/-- The only step that waits is a reservation, for a handle that is not in use. -/
theorem ready_reserve {f : World A → Input → World A × Except Err α} :
    (Prog.await .reserve (fun s v => s.journal.fresh v.token) f : Host A α).Ready := by
  refine ready_await (fun s => ?_)
  obtain ⟨h, hh⟩ := exists_fresh s.journal
  exact ⟨{ reply := .raised, token := h }, hh⟩

theorem ready_nextTask {mutator : Bool} {project repository : String} {requested : Request} :
    (nextTask N c mutator project repository requested).Ready := by
  refine ready_tryCatch (ready_bind ?_ (fun candidate => ?_)) (fun e => ?_)
  · unfold pendingReview
    split
    · refine ready_bind ready_atomic (fun current => ?_)
      split
      · exact ready_atomic
      · trivial
    · trivial
  · split
    · refine ready_bind ready_reserve ?_
      rintro ⟨handle, record, _⟩
      exact ready_respond
    · refine ready_bind ready_reserve ?_
      rintro ⟨handle, record, isNew⟩
      exact ready_advanceTask
  · cases e <;> trivial

end Ready

end ProjectControl.Compact
