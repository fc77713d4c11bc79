import ProjectControl.CompactTools

/-! Concurrent `finish_task` calls on one active handle: what is sent to conclude
its attempt, and the hand-back before it. -/

set_option autoImplicit false

namespace ProjectControl.Compact

open Resumption Resumption.Spec

/-- The requests that conclude an attempt. -/
def Sent.concludes (m : Sent) : Bool :=
  m.payload.tool = .reportOutcome || m.payload.tool = .releaseAttempt

/-- The hand-back of an attempt was answered with a proof that names it and passes
the checks of `_validate_handoff_proof`. -/
def HandedBack (c : Codec) (attempt : String) (sent : List Sent) : Prop :=
  ∃ m ∈ sent, m.payload.tool = .handbackAttempt ∧ ∃ proof, m.reply = .ok proof ∧
    validateHandoffProof c proof { attemptId := some attempt } = .ok proof

/-- Every concluding request names an attempt that was handed back before it. -/
def Fenced (c : Codec) : List Sent → Prop
  | [] => True
  | m :: rest => (m.concludes = true → ∃ attempt,
      Dict.get m.payload.arguments "attempt_id" = some (.str attempt) ∧
        HandedBack c attempt rest) ∧ Fenced c rest

/-- The finish request is recorded on a record that is still active. -/
def FindsActive {A : Type} (s : World A) : Label → Prop
  | .update h _ changes => changes.phase = some .handbackPending →
    ∀ row ∈ s.journal.record h, row.2.2.phase = some .active
  | _ => True

instance {A : Type} (s : World A) : (l : Label) → Decidable (FindsActive s l)
  | .update h _ changes => inferInstanceAs (Decidable (changes.phase = some .handbackPending →
      ∀ row ∈ s.journal.record h, row.2.2.phase = some .active))
  | .read | .native _ | .persist .. | .refresh .. | .select _ | .reserve => isTrue trivial

section Finish

variable {A : Type} (c : Codec) (h : Handle) (a : String)

/-- The record's finish request is recorded, with this disposition. -/
def Decided (o : Option Disposition) (s : World A) : Prop :=
  ∃ p q d, s.journal.record h = some (p, q, d) ∧ d.phase ≠ some .active ∧
    d.outcomeDisposition = some o

/-- A record of the attempt is active, or has its finish request and, once it is
to be reported or released, the hand-back of its attempt. -/
structure Finishing (r : Record) (sent : List Sent) : Prop where
  attempt : r.attemptId = some a
  mode : r.mode ≠ some .review
  decided : r.phase ≠ some .active → r.phase ≠ none ∧ ∃ o, r.outcomeDisposition = some o ∧
    (r.phase = some .reportPending → o.isSome = true ∧ HandedBack c a sent) ∧
    (r.phase = some .releasePending → o = none ∧ HandedBack c a sent)

structure FinishInv (s : World A) : Prop where
  stored : ∃ p q d, s.journal.record h = some (p, q, d) ∧ Finishing c a d s.sent
  reported : ∀ m ∈ s.sent, m.payload.tool = .reportOutcome → ∃ o, Decided h (some o) s
  released : ∀ m ∈ s.sent, m.payload.tool = .releaseAttempt → Decided h none s
  fenced : Fenced c s.sent

/-- Requests are only added, and a recorded finish request stays. -/
structure FinishStep (s s' : World A) : Prop where
  sent : ∀ m ∈ s.sent, m ∈ s'.sent
  decided : ∀ o, Decided h o s → Decided h o s'

def finishSpec : Spec ℕ (World A) Label where
  inv := FinishInv c h a
  cond := FindsActive
  guar := fun _ => FinishStep h
  env := fun s s' => s'.journal = s.journal ∧ s'.sent = s.sent

structure FinishCopy (t : Target) (r : Record) (s : World A) : Prop where
  handle : t.handle = h
  finishing : Finishing c a r s.sent
  decided : ∀ o, r.phase ≠ some .active → r.outcomeDisposition = some o → Decided h o s

def finishKnowledge : Knowledge A where
  copy := FinishCopy c h a
  merged := fun t r₀ r s => FinishCopy c h a t r s ∧
    (r₀.phase ≠ some .active → r.phase ≠ some .active)
  request := fun _ _ _ _ _ => True
  answer := fun payload d s => ∃ m ∈ s.sent, m.payload = payload ∧ m.reply.result = .ok d

variable {c h a} {s s' : World A} {t : Target} {r r₀ old changes : Record}

theorem HandedBack.mono {sent sent' : List Sent} (hm : ∀ m ∈ sent, m ∈ sent')
    (hb : HandedBack c a sent) : HandedBack c a sent' := by
  obtain ⟨m, hs, hrest⟩ := hb
  exact ⟨m, hm m hs, hrest⟩

theorem Finishing.mono {sent sent' : List Sent} (hm : ∀ m ∈ sent, m ∈ sent')
    (hf : Finishing c a r sent) : Finishing c a r sent' := by
  refine ⟨hf.attempt, hf.mode, fun hp => ?_⟩
  obtain ⟨hn, o, ho, h1, h2⟩ := hf.decided hp
  exact ⟨hn, o, ho, fun hr => ⟨(h1 hr).1, (h1 hr).2.mono hm⟩,
    fun hr => ⟨(h2 hr).1, (h2 hr).2.mono hm⟩⟩

theorem Decided.unique {o o' : Option Disposition} (ho : Decided h o s) (ho' : Decided h o' s) :
    o = o' := by
  obtain ⟨p, q, d, hd, -, hdo⟩ := ho
  obtain ⟨p', q', d', hd', -, hdo'⟩ := ho'
  cases Option.some.inj (hd.symm.trans hd')
  exact Option.some.inj (hdo.symm.trans hdo')

theorem FinishStep.refl (s : World A) : FinishStep h s s := ⟨fun _ hm => hm, fun _ ho => ho⟩

theorem decided_of_journal {o : Option Disposition} (hj : s'.journal = s.journal)
    (ho : Decided h o s) : Decided h o s' := by
  obtain ⟨p, q, d, hd, hrest⟩ := ho
  exact ⟨p, q, d, hj ▸ hd, hrest⟩

theorem FinishCopy.step (hk : FinishCopy c h a t r s) (hs : FinishStep h s s') :
    FinishCopy c h a t r s' :=
  ⟨hk.handle, hk.finishing.mono hs.sent, fun o hp ho => hs.decided o (hk.decided o hp ho)⟩

theorem finishStep_of_rely {i : ℕ} (hr : (finishSpec (A := A) c h a).Rely i s s') :
    FinishStep h s s' := by
  obtain ⟨-, -, ⟨j, -, hg⟩ | ⟨hj, hm⟩⟩ := hr
  · exact hg
  · exact ⟨fun m hs => hm ▸ hs, fun o ho => decided_of_journal hj ho⟩

/-- What the stored record of the handle is. -/
theorem FinishInv.record {p q : String} {d : Record} (hs : FinishInv c h a s)
    (hd : s.journal.record h = some (p, q, d)) : Finishing c a d s.sent := by
  obtain ⟨p', q', d', hd', hf⟩ := hs.stored
  cases Option.some.inj (hd.symm.trans hd')
  exact hf

theorem finishCopy_of_record {data : Record} (hs : FinishInv c h a s) (ht : t.handle = h)
    (ho : s.Holds t data) : FinishCopy c h a t data s := by
  subst ht
  exact ⟨rfl, hs.record ho, fun o hp hdo => ⟨_, _, data, ho, hp, hdo⟩⟩

/-- A copy that has left `active` shows that its record has. -/
theorem FinishCopy.left {data : Record} (hk : FinishCopy c h a t r s) (hp : r.phase ≠ some .active)
    (ho : s.Holds t data) :
    ∃ o, r.outcomeDisposition = some o ∧ data.phase ≠ some .active ∧
      data.outcomeDisposition = some o := by
  obtain ⟨-, o, hro, -⟩ := hk.finishing.decided hp
  obtain ⟨p, q, d, hd, hdp, hdo⟩ := hk.decided o hp hro
  obtain rfl := hk.handle
  cases Option.some.inj (ho.symm.trans hd)
  exact ⟨o, hro, hdp, hdo⟩

theorem FinishCopy.merge {data : Record} (hs : FinishInv c h a s) (hk : FinishCopy c h a t r s)
    (ho : s.Holds t data) : FinishCopy c h a t (r.merge data) s := by
  obtain rfl := hk.handle
  have hf := hs.record ho
  have hmode : (r.merge data).mode ≠ some .review := by
    cases hm : data.mode with
    | none => simpa [Record.merge, hm] using hk.finishing.mode
    | some m => simpa [Record.merge, hm] using hf.mode
  have hatt : (r.merge data).attemptId = some a := by simp [Record.merge, hf.attempt]
  by_cases hp : data.phase = some .active
  · -- the stored record is still active, so the copy is
    have hact : (r.merge data).phase = some .active := by simp [hp]
    exact ⟨rfl, ⟨hatt, hmode, fun h => absurd hact h⟩, fun o h => absurd hact h⟩
  · obtain ⟨hn, o, hdo, hrest⟩ := hf.decided hp
    have hphase : (r.merge data).phase = data.phase := by
      cases hd : data.phase with
      | none => exact absurd hd hn
      | some p => simp [hd]
    have hout : (r.merge data).outcomeDisposition = some o := by simp [Record.merge, hdo]
    refine ⟨rfl, ⟨hatt, hmode, fun _ => ⟨hphase ▸ hn, o, hout, by rwa [hphase]⟩⟩, ?_⟩
    intro o' _ ho'
    obtain rfl : o = o' := Option.some.inj (hout.symm.trans ho')
    exact ⟨_, _, data, ho, hp, hdo⟩

/-- A step that keeps the journal and the requests. -/
theorem finishInv_of_eq (hs : FinishInv c h a s) (hj : s'.journal = s.journal)
    (hm : s'.sent = s.sent) : FinishInv c h a s' := by
  refine ⟨?_, fun m hmem ht => ?_, fun m hmem ht => ?_, ?_⟩
  · rw [hj, hm]
    exact hs.stored
  · obtain ⟨o, ho⟩ := hs.reported m (hm ▸ hmem) ht
    exact ⟨o, decided_of_journal hj ho⟩
  · exact decided_of_journal hj (hs.released m (hm ▸ hmem) ht)
  · rw [hm]
    exact hs.fenced

theorem decided_put {o : Option Disposition} {new : Record} (ht : t.handle = h)
    (ho : s.Holds t old) (hd : Decided h o s) (hp : new.phase ≠ some .active)
    (hn : new.outcomeDisposition = old.outcomeDisposition) : Decided h o (s.put t.handle new) := by
  subst ht
  obtain ⟨p, q, d, hd, -, hdo⟩ := hd
  cases Option.some.inj (ho.symm.trans hd)
  exact ⟨_, _, new, World.record_put ho new, hp, hn.trans hdo⟩

/-- A change of the record after its finish request was recorded. -/
theorem finish_put {o : Option Disposition} (new : Record) (hs : FinishInv c h a s)
    (ht : t.handle = h) (ho : s.Holds t old) (hd : Decided h o s)
    (hn : new.outcomeDisposition = old.outcomeDisposition) (hp : new.phase ≠ some .active)
    (hf : Finishing c a new s.sent) :
    FinishInv c h a (s.put t.handle new) ∧ FinishStep h s (s.put t.handle new) := by
  have hstep : FinishStep h s (s.put t.handle new) :=
    ⟨fun _ hm => hm, fun _ hd' => decided_put ht ho hd' hp hn⟩
  subst ht
  refine ⟨⟨⟨_, _, new, World.record_put ho new, hf⟩, fun m hm htool => ?_, fun m hm htool => ?_,
    hs.fenced⟩, hstep⟩
  · obtain ⟨o, ho⟩ := hs.reported m hm htool
    exact ⟨o, hstep.decided _ ho⟩
  · exact hstep.decided _ (hs.released m hm htool)

/-- A change that leaves the phase and the finish request of the record alone. -/
theorem finish_keep (new : Record) (hs : FinishInv c h a s) (ht : t.handle = h)
    (ho : s.Holds t old) (hp : new.phase = old.phase) (ha : new.attemptId = old.attemptId)
    (hm : new.mode = old.mode) (hn : new.outcomeDisposition = old.outcomeDisposition) :
    FinishInv c h a (s.put t.handle new) ∧ FinishStep h s (s.put t.handle new) := by
  subst ht
  have hstep : FinishStep t.handle s (s.put t.handle new) := by
    refine ⟨fun _ hm => hm, fun o hd => ?_⟩
    obtain ⟨p, q, d, hd', hdp, hdo⟩ := hd
    cases Option.some.inj (ho.symm.trans hd')
    exact ⟨_, _, new, World.record_put ho new, hp ▸ hdp, hn.trans hdo⟩
  have hold := hs.record ho
  have hnew : Finishing c a new s.sent :=
    ⟨ha.trans hold.attempt, hm ▸ hold.mode, by rw [hp, hn]; exact hold.decided⟩
  refine ⟨⟨⟨_, _, new, World.record_put ho new, hnew⟩, fun m hm htool => ?_,
    fun m hm htool => ?_, hs.fenced⟩, hstep⟩
  · obtain ⟨o, ho⟩ := hs.reported m hm htool
    exact ⟨o, hstep.decided _ ho⟩
  · exact hstep.decided _ (hs.released m hm htool)

/-- The recording of the finish request on an active record. -/
theorem finish_record {action : FinishAction} {note reason : Option String} {token : Handle}
    (hs : FinishInv c h a s) (hr : FinishCopy c h a t r s) (ho : s.Holds t old)
    (hp : old.phase = some .active) :
    let changes := finishRecord t.handle action note reason token
    let s' := s.put t.handle (old.merge changes)
    FinishInv c h a s' ∧ FinishStep h s s' ∧ FinishCopy c h a t (r.merge changes) s' := by
  obtain rfl := hr.handle
  -- nothing was concluded yet, since the record is active
  have hnone : ∀ o, ¬ Decided t.handle o s := by
    rintro o ⟨p, q, d, hd, hdp, -⟩
    cases Option.some.inj (ho.symm.trans hd)
    exact hdp hp
  have hold := hs.record ho
  have hdec : Decided t.handle action.disposition
      (s.put t.handle (old.merge (finishRecord t.handle action note reason token))) :=
    ⟨_, _, _, World.record_put ho _, by simp [finishRecord], by simp [Record.merge, finishRecord]⟩
  have hfin : ∀ d : Record, d.attemptId = some a → d.mode ≠ some .review →
      Finishing c a (d.merge (finishRecord t.handle action note reason token)) s.sent := by
    intro d hd hm
    refine ⟨hd, hm, fun _ => ⟨by simp [finishRecord], action.disposition,
      by simp [Record.merge, finishRecord], fun h => ?_, fun h => ?_⟩⟩
    · simp [finishRecord] at h
    · simp [finishRecord] at h
  refine ⟨⟨⟨_, _, _, World.record_put ho _, hfin old hold.attempt hold.mode⟩, fun m hm ht => ?_,
    fun m hm ht => ?_, hs.fenced⟩, ⟨fun _ hm => hm, fun o hd => absurd hd (hnone o)⟩,
    rfl, hfin r hr.finishing.attempt hr.finishing.mode, fun o _ hro => ?_⟩
  · obtain ⟨o, hd⟩ := hs.reported m hm ht
    exact absurd hd (hnone _)
  · exact absurd (hs.released m hm ht) (hnone _)
  · obtain rfl : action.disposition = o := by
      simpa [Record.merge, finishRecord] using hro
    exact hdec

theorem validate_ok {proof proof' : Dict} (hr : r.attemptId = some a)
    (hv : validateHandoffProof c proof r = .ok proof') :
    proof' = proof ∧ validateHandoffProof c proof { attemptId := some a } = .ok proof := by
  have hsame : validateHandoffProof c proof { attemptId := some a } =
      validateHandoffProof c proof r := by
    simp only [validateHandoffProof, hr]
  rw [hsame]
  unfold validateHandoffProof at hv ⊢
  split at hv
  · split at hv
    · cases hv
    · split at hv
      · cases hv
      · split at hv
        · cases hv
        · cases hv
          simp_all
  · cases hv

theorem reply_of_result {reply : Reply} {d : Dict} (hr : reply.result = .ok d)
    (ha : isAttention d = false) : reply = .ok d := by
  cases reply with
  | raised => cases hr
  | attention reason =>
    cases hr
    rw [isAttention, Dict.get_cons_of_ne _ _ (by decide), Dict.get_cons_self] at ha
    simp at ha
  | ok data =>
    cases hr
    rfl

/-- A merged change that keeps the attempt and the finish request of its record. -/
theorem finish_merge {o : Option Disposition} (hs : FinishInv c h a s)
    (hr : FinishCopy c h a t r s) (ho : s.Holds t old) (hd : Decided h o s)
    (hro : r.outcomeDisposition = some o) (ha : changes.attemptId = none)
    (hm : changes.mode = none) (hn : changes.outcomeDisposition = none) {phase : Phase}
    (hp : changes.phase = some phase) (hact : phase ≠ .active)
    (hrep : phase = .reportPending → o.isSome = true ∧ HandedBack c a s.sent)
    (hrel : phase = .releasePending → o = none ∧ HandedBack c a s.sent) :
    let s' := s.put t.handle (old.merge changes)
    FinishInv c h a s' ∧ FinishStep h s s' ∧ FinishCopy c h a t (r.merge changes) s' := by
  obtain rfl := hr.handle
  obtain ⟨p, q, d, hd', hdp, hdo⟩ := id hd
  cases Option.some.inj (ho.symm.trans hd')
  have hfin : ∀ d : Record, d.attemptId = some a → d.mode ≠ some .review →
      d.outcomeDisposition = some o → Finishing c a (d.merge changes) s.sent := by
    intro d h1 h2 h3
    refine ⟨by simp [Record.merge, ha, h1], by simpa [Record.merge, hm] using h2,
      fun _ => ⟨by simp [hp], o, by simp [Record.merge, hn, h3], fun h => hrep ?_,
        fun h => hrel ?_⟩⟩
    · simpa [hp] using h
    · simpa [hp] using h
  have hold := hs.record ho
  obtain ⟨h1, h2⟩ := finish_put (old.merge changes) hs rfl ho hd
    (by simp [Record.merge, hn]) (by simp [hp, hact]) (hfin old hold.attempt hold.mode hdo)
  refine ⟨h1, h2, rfl, hfin r hr.finishing.attempt hr.finishing.mode hro, fun o' _ ho' => ?_⟩
  obtain rfl : o = o' := by simpa [Record.merge, hn, hro] using ho'
  exact h2.decided o hd

theorem finish_update {part : Part} {entered : Option Phase}
    (hpart : part = .verify ∨ part = .finish)
    (hw : Writes c t r₀ r
      (fun payload d => ∃ m ∈ s.sent, m.payload = payload ∧ m.reply.result = .ok d)
      (FinishCopy c h a t r s ∧ (r₀.phase ≠ some .active → r.phase ≠ some .active))
      part entered changes)
    (hs : FinishInv c h a s) (h₀ : FinishCopy c h a t r₀ s) (hr : FinishCopy c h a t r s)
    (hc : FindsActive s (.update t.handle entered changes)) (ho : s.Holds t old) :
    let s' := s.put t.handle (old.merge changes)
    FinishInv c h a s' ∧ FinishStep h s s' ∧ FinishCopy c h a t (r.merge changes) s' := by
  cases hw with
  | finish action note reason token hp hm => exact finish_record hs hr ho (hc rfl _ ho)
  | handedBack handback proof hp hh hatt hm hv =>
    -- the copy was merged after the request was recorded, so it has its disposition
    have hleft : r.phase ≠ some .active := hm.2 (by simp [hp])
    obtain ⟨o, hro, -, -⟩ := hr.left hleft ho
    obtain ⟨rfl, hval⟩ := validate_ok hr.finishing.attempt hv
    have hback : HandedBack c a s.sent := by
      obtain ⟨m, hmem, hpay, hres⟩ := hh
      exact ⟨m, hmem, by rw [hpay]; rfl, _, reply_of_result hres hatt, hval⟩
    refine finish_merge hs hr ho (hr.decided o hleft hro) hro rfl rfl rfl rfl ?_ ?_ ?_
    · split <;> simp
    · intro hphase
      rw [hro] at hphase
      split at hphase
      · rename_i hsome
        exact ⟨by simpa using hsome, hback⟩
      · cases hphase
    · intro hphase
      rw [hro] at hphase
      split at hphase
      · cases hphase
      · rename_i hnone
        exact ⟨by simpa using hnone, hback⟩
  | reported report candidateId hp he =>
    subst he
    obtain ⟨o, hro, -, -⟩ := h₀.left (by simp [hp]) ho
    exact finish_merge hs hr ho (h₀.decided o (by simp [hp]) hro) hro rfl rfl rfl rfl (by simp)
      (by simp) (by simp)
  | released receipt hp he =>
    subst he
    obtain ⟨o, hro, -, -⟩ := h₀.left (by simp [hp]) ho
    exact finish_merge hs hr ho (h₀.decided o (by simp [hp]) hro) hro rfl rfl rfl rfl (by simp)
      (by simp) (by simp)
  | resumed | renewed | context | recovered | integrated | pending | coordinated =>
    rcases hpart with h | h <;> cases h

/-- What a request must satisfy to be sent: a report or a release comes after the
hand-back, for a record whose finish request asks for it. -/
theorem finish_send {part : Part} {name : PhaseName} {payload : Payload} {key : Option Key}
    {m : Sent} {n : A} (hpart : part = .verify ∨ part = .finish)
    (ha : Asks t r part name payload key) (hs : FinishInv c h a s)
    (hr : FinishCopy c h a t r s) (hm : m.payload = payload) :
    FinishInv c h a { s with native := n, sent := m :: s.sent } := by
  have hkeep : ∀ m' ∈ s.sent, m' ∈ m :: s.sent := fun m' hm' => List.mem_cons_of_mem _ hm'
  obtain ⟨p, q, d, hd, hf⟩ := hs.stored
  -- what has to be shown of the new request alone
  have hnew : (payload.tool = .reportOutcome → ∃ o, Decided h (some o) s) →
      (payload.tool = .releaseAttempt → Decided h none s) →
      (m.concludes = true → ∃ attempt, Dict.get payload.arguments "attempt_id" =
        some (.str attempt) ∧ HandedBack c attempt s.sent) →
      FinishInv c h a { s with native := n, sent := m :: s.sent } := by
    intro h1 h2 h3
    refine ⟨⟨p, q, d, hd, hf.mono hkeep⟩, fun m' hm' ht => ?_, fun m' hm' ht => ?_,
      ⟨fun hcon => hm ▸ h3 hcon, hs.fenced⟩⟩
    · rcases List.mem_cons.mp hm' with rfl | hm'
      · obtain ⟨o, ho⟩ := h1 (hm ▸ ht)
        exact ⟨o, decided_of_journal rfl ho⟩
      · obtain ⟨o, ho⟩ := hs.reported m' hm' ht
        exact ⟨o, decided_of_journal rfl ho⟩
    · rcases List.mem_cons.mp hm' with rfl | hm'
      · exact decided_of_journal rfl (h2 (hm ▸ ht))
      · exact decided_of_journal rfl (hs.released m' hm' ht)
  cases ha with
  | verify requirementId =>
    refine hnew (fun ht => by cases ht) (fun ht => by cases ht) (fun hcon => ?_)
    simp [Sent.concludes, hm, verifyPayload] at hcon
  | handback hp =>
    refine hnew (fun ht => by cases ht) (fun ht => by cases ht) (fun hcon => ?_)
    simp [Sent.concludes, hm, handbackPayload] at hcon
  | report hp note =>
    have hact : r.phase ≠ some .active := by simp [hp]
    obtain ⟨-, o, hro, hrep, -⟩ := hr.finishing.decided hact
    obtain ⟨hsome, hback⟩ := hrep hp
    obtain ⟨x, rfl⟩ := Option.isSome_iff_exists.mp hsome
    refine hnew (fun _ => ⟨x, hr.decided _ hact hro⟩) (fun ht => by cases ht) (fun _ => ⟨a, ?_, hback⟩)
    simp [reportPayload, Dict.get, hr.finishing.attempt, Json.ofText?]
  | release hp =>
    have hact : r.phase ≠ some .active := by simp [hp]
    obtain ⟨-, o, hro, -, hrel⟩ := hr.finishing.decided hact
    obtain ⟨rfl, hback⟩ := hrel hp
    refine hnew (fun ht => by cases ht) (fun _ => hr.decided _ hact hro) (fun _ => ⟨a, ?_, hback⟩)
    simp [releasePayload, Dict.get, hr.finishing.attempt, Json.ofText?]
  | createWorkspace | dispatchAttempt | heartbeat | resume | coordinate =>
    rcases hpart with h | h <;> cases h

theorem finish_issue {name : PhaseName} {intent : Intent} (hs : FinishInv c h a s)
    (ht : t.handle = h) (ho : s.Holds t old) :
    FinishInv c h a (s.issue t.handle name old intent) ∧
      FinishStep h s (s.issue t.handle name old intent) := by
  obtain ⟨h1, h2⟩ := finish_keep (old.setIntent name intent) hs ht ho rfl rfl rfl rfl
  exact ⟨finishInv_of_eq h1 rfl rfl, h2.sent, fun o hd => decided_of_journal rfl (h2.decided o hd)⟩

def finishParts (part : Part) : Prop := part = .verify ∨ part = .finish

theorem finishRules (i : ℕ) (N : NativeHost A) :
    HostRules (finishSpec (A := A) c h a) i N c (finishKnowledge c h a) finishParts
      (fun t => t.handle = h) where
  refl := FinishStep.refl
  copy_stable := fun _ _ _ _ hr hk => hk.step (finishStep_of_rely hr)
  merged_stable := fun _ _ _ _ _ hr hk => ⟨hk.1.step (finishStep_of_rely hr), hk.2⟩
  request_stable := fun _ _ _ _ => stable_true
  answer_stable := by
    rintro payload d s s' hr ⟨m, hm, hrest⟩
    exact ⟨m, (finishStep_of_rely hr).sent m hm, hrest⟩
  learn := fun ht hs ho => finishCopy_of_record hs ht ho
  relearn := fun hs hk ho => finishCopy_of_record hs hk.handle ho
  scope := fun hk => ⟨hk.handle, ⟨hk.finishing.attempt, hk.finishing.mode, hk.finishing.decided⟩,
    hk.decided⟩
  merge := fun hs hk ho => hk.merge hs ho
  fresh := by
    intro t r₀ r data s name intent hs h₀ hk ho _
    refine ⟨hk.merge hs ho, fun hp => ?_⟩
    obtain ⟨o, -, hdp, -⟩ := h₀.left hp ho
    have hn := ((finishCopy_of_record hs h₀.handle ho).finishing.decided hdp).1
    cases hd : data.phase with
    | none => exact absurd hd hn
    | some phase =>
      have hne : phase ≠ .active := fun e => hdp (e ▸ hd)
      simpa [hd] using hne
  known := fun _ _ _ _ => trivial
  merged_copy := fun hk => hk.1
  read := fun _ _ hs _ => ⟨finishInv_of_eq hs rfl rfl,
    ⟨fun _ hm => hm, fun _ hd => decided_of_journal rfl hd⟩,
    fun _ _ hk => hk.step ⟨fun _ hm => hm, fun _ hd => decided_of_journal rfl hd⟩⟩
  persist := fun _ _ hs hk _ _ ho _ =>
    have hi := finish_issue hs hk.handle ho
    ⟨hi.1, hi.2, fun _ hk' => hk'.step hi.2⟩
  refresh := fun _ _ hs hk _ ho _ _ _ =>
    have hi := finish_issue hs hk.handle ho
    ⟨hi.1, hi.2, fun _ hk' => hk'.step hi.2⟩
  send := by
    intro s part t r name payload key request project repository v hp ha hs hk _ _
    have hstep : FinishStep h s { s with
        native := (N.serve s.native ⟨payload.tool, project, repository, payload.arguments,
          some request.1, some request.2⟩ v).1
        sent := ⟨payload, request.1, request.2, (N.serve s.native ⟨payload.tool, project,
          repository, payload.arguments, some request.1, some request.2⟩ v).2⟩ :: s.sent } :=
      ⟨fun _ hm => List.mem_cons_of_mem _ hm, fun _ hd => decided_of_journal rfl hd⟩
    exact ⟨finish_send hp ha hs hk rfl, hstep, fun _ hk' => hk'.step hstep,
      fun _ _ hk' => ⟨hk'.1.step hstep, hk'.2⟩, fun d hd => ⟨_, List.mem_cons_self, rfl, hd⟩⟩
  update := fun hp hw hs h₀ hr hc ho => finish_update hp hw hs h₀ hr hc ho
  overwrite := fun hp => by rcases hp with h | h <;> cases h
  note := fun hp => by rcases hp with h | h <;> cases h
  select := fun hp => by rcases hp with h | h <;> cases h
  reserve := fun hp => by rcases hp with h | h <;> cases h
  review := fun _ hp => by rcases hp with h | h <;> cases h

/-- `finish_task` on an authoring handle: a reviewer's action is refused at once. -/
theorem triple_finishHandle (i : ℕ) (N : NativeHost A) {action : FinishAction}
    {disposition note reason : Option String} :
    (finishSpec (A := A) c h a).Triple i (fun _ => True)
      (finishTask N c h action disposition note reason) (fun _ _ => True) := by
  have R := finishRules (c := c) (h := h) (a := a) i N
  unfold finishTask
  split
  · refine triple_orAttention (triple_bind triple_checkTexts (fun _ => ?_))
    refine triple_bind (triple_readScoped R (fun _ _ => rfl) stable_true) (fun out => ?_)
    intro s hs hb
    dsimp only
    rw [if_pos hb.2.finishing.mode]
    exact triple_raise (B := fun _ => True) s hs trivial
  · exact triple_finishAuthoring R (fun _ _ => rfl) (Or.inl rfl) (Or.inr rfl)

end Finish

structure FinishCall where
  action : FinishAction
  disposition : Option String := none
  note : Option String := none
  reason : Option String := none

/-- Any number of `finish_task` calls on one handle. -/
def finishSystem {A ω : Type} (N : NativeHost A) (c : Codec) (h : Handle)
    (env : A → ω → Option A) :
    System ℕ (World A) Input Label Err Response FinishCall ω where
  program := fun _ call => finishTask N c h call.action call.disposition call.note call.reason
  crash := fun _ s => s
  env := fun s e => (env s.native e).map (fun n => { s with native := n })

theorem finishSystem_sound {A ω : Type} (N : NativeHost A) (c : Codec) (h : Handle) (a : String)
    (env : A → ω → Option A) : (finishSpec (A := A) c h a).Sound (finishSystem N c h env) where
  crash := fun _ s hs => ⟨hs, FinishStep.refl s⟩
  env := by
    intro s e s' hs he
    obtain ⟨n, -, rfl⟩ := Option.map_eq_some_iff.mp he
    exact ⟨finishInv_of_eq hs rfl rfl, rfl, rfl⟩
  program := fun i call => triple_finishHandle i N

/-- As long as a finish request is only recorded on a record that is still active,
concurrent calls never send both a report and a release, and each of these follows
the hand-back of its attempt. -/
theorem finish_concludes_one_way {A ω : Type} (N : NativeHost A) (c : Codec) (h : Handle)
    (env : A → ω → Option A) {p q : Pool ℕ (World A) Input Label Err Response}
    {project repository : String} {d : Record} {a : String}
    (hidle : ∀ i, p.threads i = none)
    (hrec : p.shared.journal.record h = some (project, repository, d))
    (hactive : d.phase = some .active) (hmode : d.mode ≠ some .review)
    (hattempt : d.attemptId = some a) (hsent : p.shared.sent = [])
    (hq : (finishSystem N c h env).Reach FindsActive p q) :
    (∀ m ∈ q.shared.sent, ∀ m' ∈ q.shared.sent, m.payload.tool = .reportOutcome →
      m'.payload.tool ≠ .releaseAttempt) ∧ Fenced c q.shared.sent := by
  have hinv : FinishInv c h a p.shared := by
    refine ⟨⟨_, _, d, hrec, hattempt, hmode, fun hp => absurd hactive hp⟩, ?_, ?_, ?_⟩
    · simp [hsent]
    · simp [hsent]
    · rw [hsent]
      trivial
  have hsafe := (poolSafe_reach (finishSystem_sound N c h a env) (poolSafe_of_idle hinv hidle) hq).1
  refine ⟨fun m hm m' hm' ht ht' => ?_, hsafe.fenced⟩
  obtain ⟨o, ho⟩ := hsafe.reported m hm ht
  cases ho.unique (hsafe.released m' hm' ht')

section Runs

def activeRecord : Record where
  phase := some .active
  attemptId := some "A1"
  leaseId := some "L1"
  requirementIds := some []

def activePool : Pool ℕ (World Unit) Input Label Err Response where
  shared := { journal := [.workflow "wf" "atlas" "main" activeRecord], native := () }
  threads := fun _ => none

/-- An answer that proves the hand-back of the attempt. -/
def handedBackAnswer : Input where
  reply := .ok [("semantic_revision", .num 5), ("attempt_id", .str "A1"),
    ("source_commit", .str "c0ffee"),
    ("source_digest", .str "0123456789abcdef0123456789abcdef0123456789abcdef0123456789abcdef"),
    ("candidate_ref", .obj [("entity_id", .str "K1")])]
  token := "candidate"

/-- Both calls read the active record; the completion goes as far as its report,
and then the release records its own request over it. -/
def overwrittenFinish : List (Action ℕ Input FinishCall Empty) :=
  .start 0 { action := .complete } :: .start 1 { action := .release } ::
    List.replicate 3 (.act 1 handedBackAnswer) ++ List.replicate 13 (.act 0 handedBackAnswer) ++
    List.replicate 8 (.act 1 handedBackAnswer)

def completeAlone : List (Action ℕ Input FinishCall Empty) :=
  .start 0 { action := .complete } :: List.replicate 13 (.act 0 handedBackAnswer)

theorem report_and_release_are_sent :
    ∃ q, (finishSystem anyHost .small "wf" (fun _ (e : Empty) => nomatch e)).Reach
        System.anyStep activePool q ∧
      q.shared.sent.map (fun m => m.payload.tool) =
        [.releaseAttempt, .handbackAttempt, .reportOutcome, .handbackAttempt] :=
  System.exists_reach _ System.anyStep overwrittenFinish (by decide +kernel)

theorem complete_concludes_one_way :
    ∃ q, (finishSystem anyHost .small "wf" (fun _ (e : Empty) => nomatch e)).Reach
        FindsActive activePool q ∧
      q.shared.sent.map (fun m => m.payload.tool) = [.reportOutcome, .handbackAttempt] ∧
      Fenced .small q.shared.sent := by
  obtain ⟨q, hq, hf⟩ := System.exists_reach
    (finishSystem anyHost .small "wf" (fun _ (e : Empty) => nomatch e)) FindsActive completeAlone
    (p := activePool) (f := fun q => q.shared.sent.map (fun m => m.payload.tool))
    (b := [.reportOutcome, .handbackAttempt]) (by decide +kernel)
  exact ⟨q, hq, hf, (finish_concludes_one_way anyHost .small "wf" _ (fun _ => rfl) rfl rfl
    (by decide) rfl rfl hq).2⟩

end Runs

end ProjectControl.Compact
