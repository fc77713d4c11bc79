import ProjectControl.CommandThreads

/-! The calls of the executor, of the handoff provider, of the host administration and
of the fenced Git provider are safe together, from which follow that a command is
launched at most once and that nothing is launched or authored past the fence. -/

set_option autoImplicit false

namespace ProjectControl.Native

open Resumption Resumption.Spec Resumption.Prog

section Marker

variable {i : ℕ} {a : AttemptId} {B : Host → Prop}

/-- Only a marker that was read and found missing lets an effect go on. -/
theorem triple_hasHandoffMarker (hB : hostSpec.Stable i B) (hl : Lockable (.record a) B) :
    hostSpec.Triple i (fun s => Holds i (.attempt a) s ∧ B s) (hasHandoffMarker i a)
      (fun out s => out = false → NotHandedOff i a s ∧ B s) := by
  have hA : hostSpec.Stable i (fun s => Holds i (.attempt a) s ∧ B s) :=
    (stable_holds _).and hB
  have hQ : ∀ out : Bool,
      hostSpec.Stable i (fun s => out = false → NotHandedOff i a s ∧ B s) := by
    intro out s s' hrely h hout
    obtain ⟨hn, hb⟩ := h hout
    exact ⟨stable_notHandedOff s s' hrely hn, hB s s' hrely hb⟩
  refine triple_tryCatch (triple_bind (triple_require hA) (fun _ => ?_))
    (fun _ => triple_done (hQ true) (fun _ _ _ h => by cases h))
  refine triple_locked hA ((lockable_holds (fun h => by cases h)).and hl) hQ hQ ?_
    (fun _ _ h => h) ?_
  · intro out s l hlocks h hout
    obtain ⟨hn, hb⟩ := h hout
    exact ⟨⟨(hlocks _ (fun h => by cases h)).trans hn.1, hn.2⟩, hl s l hlocks hb⟩
  · refine triple_look ((stable_holds _).and hA) hQ ?_
    rintro s v out hs ⟨-, hh, hb⟩ hf hout
    subst hout
    split at hf
    · simp only [Except.ok.injEq, Option.isSome_eq_false_iff, Option.isNone_iff_eq_none] at hf
      exact ⟨⟨hh, hf⟩, hb⟩
    · cases hf

theorem triple_refusal {p : String} (hB : hostSpec.Stable i B) (hl : Lockable (.record a) B) :
    hostSpec.Triple i (fun s => Holds i (.attempt a) s ∧ B s) (refusal ⟨p, true, true⟩ i a)
      (fun out s => out = none → Startable i a s ∧ B s) := by
  have hQ : ∀ out : Option String,
      hostSpec.Stable i (fun s => out = none → Startable i a s ∧ B s) := by
    intro out s s' hrely h hout
    obtain ⟨hn, hb⟩ := h hout
    exact ⟨stable_startable s s' hrely hn, hB s s' hrely hb⟩
  -- what was read stays true while the lock is held
  let read (out : Option Attestation) (s : Host) : Prop :=
    Holds i (.attempt a) s ∧ s.attestations a = out ∧ B s
  have hread : ∀ out, hostSpec.Stable i (read out) := by
    rintro out s s' hrely ⟨hh, hat, hb⟩
    exact ⟨rely_locks hrely hh, (rely_closes hrely hh).2.trans hat, hB s s' hrely hb⟩
  refine triple_bind (M := read) ?_ (fun out => ?_)
  · refine triple_look ((stable_holds _).and hB) hread ?_
    rintro s v out hs ⟨hh, hb⟩ hf
    split at hf
    · simp only [Except.ok.injEq] at hf
      exact ⟨hh, hf, hb⟩
    · cases hf
  · split
    · exact triple_done (hQ _) (fun _ _ _ h => by cases h)
    · rename_i hnone
      rw [Bool.not_eq_true, Option.isSome_eq_false_iff, Option.isNone_iff_eq_none] at hnone
      subst hnone
      have hC : hostSpec.Stable i (read none) := hread none
      refine triple_bind (M := fun out s => out = false → NotHandedOff i a s ∧ read none s) ?_
        (fun out => ?_)
      · refine triple_pre (triple_hasHandoffMarker hC ?_) (fun s _ h => ⟨h.1, h⟩)
        rintro s l hlocks ⟨hh, hat, hb⟩
        exact ⟨(hlocks _ (fun h => by cases h)).trans hh, hat, hl s l hlocks hb⟩
      · refine triple_done (hQ _) (fun s _ h hout => ?_)
        cases out with
        | true => cases hout
        | false =>
          obtain ⟨⟨hh, hno⟩, -, hat, hb⟩ := h rfl
          exact ⟨⟨hh, hno, hat⟩, hb⟩

end Marker

section Execute

variable {i : ℕ} {request : ExecuteRequest} {p : String}

theorem lockable_unrecorded {n : LockName} {op : OperationId} (hn : .operation op ≠ n) :
    Lockable n (Unrecorded i op) :=
  fun _ _ hl h => ⟨(hl _ hn).trans h.1, h.2⟩

/-- The intent is written while the attempt is open and the operation unknown. -/
theorem triple_writeStarting :
    hostSpec.Triple i
      (fun s => Startable i request.attempt s ∧ Unrecorded i request.operationId s)
      (writeCommand request.operationId (startingRecord request))
      (fun _ s => Unsettled i request.operationId request.attempt s ∧
        Unspawned i request.operationId s) := by
  refine triple_writeCommand (stable_startable.and stable_unrecorded)
    (stable_unsettled.and stable_unspawned) ?_
  rintro s hs ⟨⟨hh, hno, hat⟩, hl, hrec⟩
  refine ⟨⟨fun old h => ?_, fun h => ?_, fun hc => ?_, fun h => ?_⟩, hl, fun old h => ?_,
    fun _ => hh, ⟨hl, _, Host.record_putRecord_self _ _ _, rfl, rfl⟩, hl, ?_⟩
  · exact absurd (hrec.symm.trans h) (by simp)
  · cases h
  · rcases hc with h | h
    · exact absurd hno h
    · exact absurd hat h
  · cases h
  · exact absurd (hrec.symm.trans h) (by simp)
  · intro sv hsv hop
    obtain ⟨r, hr, -⟩ := hs.process sv hsv
    rw [hop, hrec] at hr
    cases hr

theorem triple_launch :
    hostSpec.Triple i
      (fun s => Holds i (.attempt request.attempt) s ∧ Unrecorded i request.operationId s)
      (launch ⟨p, true, true⟩ i request) (LaunchedAs i request) := by
  refine triple_bind (triple_refusal stable_unrecorded
    (lockable_unrecorded (fun h => by cases h))) (fun out => ?_)
  cases out with
  | some reason => exact triple_replied
  | none =>
    have hstart : hostSpec.Stable i
        (fun s => Startable i request.attempt s ∧ Unrecorded i request.operationId s) :=
      stable_startable.and stable_unrecorded
    have hopen : hostSpec.Stable i (fun s =>
        Unsettled i request.operationId request.attempt s ∧ Unspawned i request.operationId s) :=
      stable_unsettled.and stable_unspawned
    refine triple_bind (triple_pre (triple_check hstart) (fun s _ h => h rfl)) (fun ok => ?_)
    split
    · refine triple_bind triple_writeStarting (fun _ => ?_)
      refine triple_bind (triple_require hopen) (fun _ => ?_)
      refine triple_bind (triple_now hopen) (fun startedAt => ?_)
      refine triple_bind triple_popen (fun process => ?_)
      cases process with
      | none =>
        refine triple_bind (M := fun _ _ => True) ?_ (fun _ => triple_replied)
        refine triple_pre (triple_writeCommand hopen stable_true ?_) (fun s _ h => ⟨h.1, h.2.1 rfl⟩)
        rintro s hs ⟨hu, hn⟩
        refine ⟨writable_notStarted hu rfl rfl ?_, hu.1, hu.not_settled,
          fun hno => absurd hno hu.recorded, trivial⟩
        intro sv hsv hop
        exact absurd hop (hn.2 sv hsv)
      | some process =>
        have hown : hostSpec.Stable i (fun s =>
            Unsettled i request.operationId request.attempt s ∧
              OwnsIdle i request.operationId process s) := stable_unsettled.and stable_ownsIdle
        refine triple_bind (M := fun _ s => Unsettled i request.operationId request.attempt s ∧
          OwnsIdle i request.operationId process s) ?_ ?_
        · refine triple_pre (triple_look hown (fun _ => hown) (fun _ _ _ _ h _ => h))
            (fun s _ h => ⟨h.1, h.2.2 process rfl⟩)
        · rintro ⟨start, alive⟩
          dsimp only
          split
          · exact triple_abandon rfl rfl
          · exact triple_deliver rfl rfl
    · exact triple_replied

theorem readReport_notStarted {report : Option Report} {code : ℤ} {reason : Option String}
    (h : readReport report code = .notStarted reason) :
    ∃ r, report = some r ∧ (r.state = .unavailable ∨ r.state = .notStarted) := by
  unfold readReport at h
  split at h
  · cases h
  · rename_i r
    refine ⟨r, rfl, ?_⟩
    split at h
    · assumption
    · split at h
      · cases h
      · split at h
        · split at h
          · cases h
          · split at h <;> cases h
        · cases h

theorem readReport_completed {report : Option Report} {code : ℤ} {exitCode : Option ℤ}
    {timedOut : Bool} {stdout stderr : String}
    (h : readReport report code = .completed exitCode timedOut stdout stderr) :
    ∃ r, report = some r ∧ r.state = .completed ∧ r.treeQuiescent = true ∧
      r.exitCode = exitCode ∧ r.timedOut = timedOut ∧ r.stdoutDigest = some stdout ∧
      r.stderrDigest = some stderr := by
  unfold readReport at h
  split at h
  · cases h
  · rename_i r
    refine ⟨r, rfl, ?_⟩
    split at h
    · split at h <;> cases h
    · split at h
      · cases h
      · rename_i hstate
        split at h
        · rename_i out err hout herr
          split at h
          · cases h
          · split at h
            · cases h
            · cases h
              simp only [not_or, not_not, Bool.not_eq_false] at hstate
              exact ⟨hstate.1, hstate.2.2, rfl, rfl, hout, herr⟩
        · cases h

variable {l : Launched}

/-- What was recorded is settled by what the supervisor said last. -/
theorem triple_writeSettled {r : CommandRecord} {report : Option Report} {code : ℤ}
    (hw : ∀ s, HostInv s → Running i request l s →
      Ended i request.operationId l.process report code s →
      Writable s request.operationId r) :
    hostSpec.Triple i
      (fun s => Running i request l s ∧ Ended i request.operationId l.process report code s)
      (writeCommand request.operationId r) (fun _ _ => True) := by
  refine triple_writeCommand (stable_running.and stable_ended) stable_true ?_
  rintro s hs ⟨hr, he⟩
  exact ⟨hw s hs hr he, hr.1.1.1, hr.1.1.not_settled, fun hn => absurd hn hr.1.1.recorded, trivial⟩

theorem triple_waitSupervisor :
    hostSpec.Triple i (Running i request l) (waitSupervisor l.process)
      (fun out s => Running i request l s ∧ ∀ report code, out = some (report, code) →
        Ended i request.operationId l.process report code s) := by
  refine triple_look stable_running (fun out => ?_) ?_
  · rintro s s' hrely ⟨hr, he⟩
    exact ⟨stable_running s s' hrely hr, fun report code h => stable_ended s s' hrely
      (he report code h)⟩
  · intro s v out hs hr hf
    refine ⟨hr, fun report code hout => ?_⟩
    subst hout
    obtain ⟨sv, hsv, hop, how⟩ := hr.1.2
    rw [hsv] at hf
    dsimp only at hf
    split at hf
    · rename_i report' code' hx
      split at hf
      · cases hf
        exact ⟨sv, hsv, hop, how, hx⟩
      · cases hf
    · cases hf

theorem Running.attempt {s : Host} (hr : Running i request l s) :
    l.record.attemptId = request.attempt := by
  obtain ⟨⟨⟨-, r, hrec, -, hat⟩, -⟩, hl⟩ := hr
  rw [hl] at hrec
  cases hrec
  exact hat

theorem writable_completed {s : Host} {report : Report} {code : ℤ} {observation : Observation}
    {receipt : Receipt} (hs : HostInv s) (hr : Running i request l s)
    (he : Ended i request.operationId l.process (some report) code s)
    (hc : Confirms report observation) :
    Writable s request.operationId (completedRecord l.record observation receipt) := by
  obtain ⟨hquiet, hev⟩ := completed_process hs he hc.state
  refine ⟨fun old hold => ?_, fun _ sv hsv hop => ?_, fun _ => rfl, fun _ => ⟨rfl, ?_⟩⟩
  · rw [hr.2] at hold
    cases hold
    rfl
  · obtain ⟨h1, h2⟩ := hquiet sv hsv hop
    exact ⟨h1, h2, fun h => by cases h⟩
  · exact ⟨observation, receipt, report, rfl, hev, hc⟩

theorem triple_conclude :
    hostSpec.Triple i (Running i request l) (conclude request l) (fun _ _ => True) := by
  refine triple_bind triple_waitSupervisor (fun out => ?_)
  cases out with
  | none =>
    refine triple_bind (M := fun _ s => Owns i request.operationId l.process s) ?_
      (fun _ => triple_done stable_true (fun _ _ _ => trivial))
    refine triple_pre (triple_stopSupervisor stable_owns ?_ ?_) (fun s _ h => h.1.1.2)
    · rintro s ⟨sv, hsv, -, how⟩
      exact ⟨sv, hsv, how⟩
    · intro s sv ho hsv
      exact owns_setProcess hsv rfl rfl ho
  | some result =>
    obtain ⟨report, code⟩ := result
    have hE : hostSpec.Stable i (fun s => Running i request l s ∧
        Ended i request.operationId l.process report code s) := stable_running.and stable_ended
    refine triple_bind (triple_pre (triple_check hE) (fun s _ h => ⟨h.1, h.2 report code rfl⟩))
      (fun ok => ?_)
    split
    · split
      · exact triple_done stable_true (fun _ _ _ => trivial)
      · rename_i reason hread
        obtain ⟨r, rfl, hr⟩ := readReport_notStarted hread
        refine triple_bind (triple_writeSettled (fun s hs hrun he => ?_))
          (fun _ => triple_done stable_true (fun _ _ _ => trivial))
        exact writable_notStarted hrun.1.1 rfl hrun.attempt (refused_process hs he hr)
      · rename_i exitCode timedOut stdout stderr hread
        obtain ⟨r, rfl, h1, h2, h3, h4, h5, h6⟩ := readReport_completed hread
        refine triple_bind (triple_now hE) (fun completedAt => ?_)
        have hmaybe : hostSpec.Triple i (fun s => Running i request l s ∧
            Ended i request.operationId l.process (some r) code s)
            (if timedOut then .done true else check)
            (fun _ s => Running i request l s ∧
              Ended i request.operationId l.process (some r) code s) := by
          split
          · exact triple_done hE (fun _ _ h => h)
          · exact triple_check hE
        refine triple_bind hmaybe (fun unchanged => ?_)
        split
        · refine triple_bind (triple_writeSettled (fun s hs hrun he => ?_))
            (fun _ => triple_done stable_true (fun _ _ _ => trivial))
          exact writable_completed hs hrun he ⟨h1, h2, h3, h4, h5, h6⟩
        · exact triple_done stable_true (fun _ _ _ => trivial)
    · exact triple_done stable_true (fun _ _ _ => trivial)

theorem triple_executeNew :
    hostSpec.Triple i (Unrecorded i request.operationId)
      (executeNew ⟨p, true, true⟩ i request) (fun _ _ => True) := by
  refine triple_bind (M := LaunchedAs i request) ?_ (fun out => ?_)
  · refine triple_locked stable_unrecorded (lockable_unrecorded (fun h => by cases h))
      stable_launchedAs stable_launchedAs (fun out => ?_) (fun _ _ h => h) triple_launch
    cases out with
    | inl reply => exact lockable_true
    | inr l =>
      rintro s locks hl ⟨⟨⟨hh, hrec⟩, ho⟩, hr⟩
      exact ⟨⟨⟨(hl _ (fun h => by cases h)).trans hh, hrec⟩, ho⟩, hr⟩
  · cases out with
    | inl reply => exact triple_done stable_true (fun _ _ _ => trivial)
    | inr l => exact triple_conclude

theorem triple_execute :
    hostSpec.Triple i (fun _ => True) (execute ⟨p, true, true⟩ i request) (fun _ _ => True) := by
  have hdone : ∀ reply : Reply, hostSpec.Triple i (fun _ => True)
      (.done reply : Effect Reply) (fun _ _ => True) :=
    fun _ => triple_done stable_true (fun _ _ _ => trivial)
  unfold execute
  split
  · exact hdone _
  · split
    · exact hdone _
    · refine triple_tryCatch (triple_bind (triple_require stable_true) (fun _ =>
        triple_bind (triple_check stable_true) (fun ok => ?_))) (fun _ => hdone _)
      split
      · refine triple_locked stable_true lockable_true (fun _ => stable_true)
          (fun _ => stable_true) (fun _ => lockable_true) (fun _ _ h => h) ?_
        -- what the record was found to be holds as long as the lock does
        refine triple_bind (M := fun out s => Holds i (.operation request.operationId) s ∧
          s.record request.operationId = out) ?_ (fun out => ?_)
        · refine triple_look ((stable_holds _).and stable_true) (fun out => ?_) ?_
          · rintro s s' hrely ⟨hh, hr⟩
            exact ⟨rely_locks hrely hh, (rely_record hrely hh).trans hr⟩
          · rintro s v out hs ⟨hh, -⟩ hf
            split at hf
            · cases hf
              exact ⟨hh, rfl⟩
            · cases hf
        · cases out with
          | some prior => exact triple_done stable_true (fun _ _ _ => trivial)
          | none => exact triple_executeNew
      · exact hdone _

end Execute

section Calls

variable {i : ℕ} {a : AttemptId} {p : String}

theorem triple_return {α : Type} {A : Host → Prop} {out : α} :
    hostSpec.Triple i A (.done out : Effect α) (fun _ _ => True) :=
  triple_done stable_true (fun _ _ _ => trivial)

/-- An operation without a record, or with one that says so, was never launched. -/
theorem HostInv.not_launched {s : Host} {op : OperationId} (hs : HostInv s)
    (hr : ∀ r, s.record op = some r → r.state = .notStarted) :
    ∀ a, Event.launched op a ∉ s.history := by
  intro a hl
  obtain ⟨sv, hsv, rfl, hst⟩ := hs.launched op a hl
  obtain ⟨r, hrec, -⟩ := hs.process sv hsv
  have hstate := hr r hrec
  have := (hs.settled sv hsv r hrec (by rw [hstate]; rfl)).2.2 hstate
  rw [hst] at this
  cases this

theorem inspectRecord_follows {s : Host} {request : InspectRequest} {inspection : Inspection}
    (hs : HostInv s)
    (h : inspectRecord request (s.record request.operationId) = some inspection) :
    (Event.inspected request.operationId inspection).Follows s.history := by
  cases hrec : s.record request.operationId with
  | none =>
    rw [hrec] at h
    cases h
    exact hs.not_launched (fun r hr => absurd (hrec.symm.trans hr) (by simp))
  | some r =>
    rw [hrec] at h
    dsimp only [inspectRecord] at h
    split at h
    · cases h
      trivial
    · split at h
      · rename_i hstate
        cases h
        refine hs.not_launched (fun r' hr' => ?_)
        rw [hrec] at hr'
        cases hr'
        exact hstate
      · rename_i hstate
        split at h
        · cases h
          trivial
        · split at h
          · rename_i observation receipt hobs
            cases h
            exact ⟨r, hs.recorded _ r hrec, hstate, hobs⟩
          · cases h
            trivial
      · split at h
        · cases h
        · cases h
          trivial
      · cases h
        trivial

theorem triple_readInspection {request : InspectRequest} {A : Host → Prop}
    (hA : hostSpec.Stable i A) :
    hostSpec.Triple i A (readInspection request) (fun _ _ => True) := by
  refine triple_atomic hA (fun _ => stable_true) (fun s v hs _ _ => ?_)
  split
  · cases hout : inspectRecord request (s.record request.operationId) with
    | none => exact ⟨hs, HostStep.refl i s, fun _ _ => trivial⟩
    | some inspection =>
      refine ⟨?_, ?_, fun _ _ => trivial⟩
      · obtain ⟨h1, h2, h3, h4, h5, h6, h7, h8, h9⟩ := hs
        refine ⟨h1, h2, h3, fun op a hl => ?_, h5, fun sv hsv report code hx hst => ?_, h7,
          fun op r hr => ?_, inspectRecord_follows ⟨h1, h2, h3, h4, h5, h6, h7, h8, h9⟩ hout, h9⟩
        · rcases List.mem_cons.mp hl with h | h
          · cases h
          · exact h4 op a h
        · exact List.mem_cons_of_mem _ (h6 sv hsv report code hx hst)
        · exact List.mem_cons_of_mem _ (h8 op r hr)
      · exact hostStep_of_eq (fun _ _ _ => Iff.rfl) rfl rfl rfl rfl (fun _ _ h => h) (fun _ => rfl)
          (fun _ _ => rfl)
  · exact ⟨hs, HostStep.refl i s, fun _ _ => trivial⟩

theorem triple_inspect {X : Executor} {request : InspectRequest} :
    hostSpec.Triple i (fun _ => True) (inspect X i request) (fun _ _ => True) := by
  unfold inspect
  split
  · exact triple_return
  · refine triple_tryCatch (triple_bind (M := fun _ _ => True) ?_ (fun out => ?_))
      (fun _ => triple_return)
    · exact triple_locked stable_true lockable_true (fun _ => stable_true) (fun _ => stable_true)
        (fun _ => lockable_true) (fun _ _ h => h)
        (triple_readInspection ((stable_holds _).and stable_true))
    · cases out with
      | some inspection => exact triple_return
      | none =>
        refine triple_bind (triple_check stable_true) (fun ok => ?_)
        split <;> exact triple_return

/-- The entries are read one by one, but a settled record stays settled and no other
record of the attempt appears while its lock is held. -/
theorem triple_clearEntries (rest : List OperationId) :
    hostSpec.Triple i (ClearBut i a rest) (clearEntries a rest)
      (fun out s => out = true → ClearBut i a [] s) := by
  have hQ : ∀ out : Bool, hostSpec.Stable i (fun s => out = true → ClearBut i a [] s) :=
    fun out s s' hrely h hout => stable_clearBut s s' hrely (h hout)
  induction rest with
  | nil => exact triple_done (hQ true) (fun _ _ h _ => h)
  | cons op rest ih =>
    -- either the entry may be dropped from the list or it stops the check
    refine triple_bind (M := fun out s => ClearBut i a (op :: rest) s ∧
      ∀ value, out = some value → (∀ r, value = some r → r.attemptId = a →
        r.state.settled = true) → ClearBut i a rest s) ?_ (fun out => ?_)
    · refine triple_look stable_clearBut (fun out => ?_) ?_
      · rintro s s' hrely ⟨h1, h2⟩
        exact ⟨stable_clearBut s s' hrely h1,
          fun value hv hr => stable_clearBut s s' hrely (h2 value hv hr)⟩
      · intro s v out hs hc hf
        refine ⟨hc, fun value hv hr => ⟨hc.1, fun op' r hrec hat => ?_⟩⟩
        subst hv
        split at hf
        · simp only [Except.ok.injEq, Option.some.injEq] at hf
          rcases hc.2 op' r hrec hat with hset | hmem
          · exact Or.inl hset
          · rcases List.mem_cons.mp hmem with rfl | hmem
            · exact Or.inl (hr r (hf.symm.trans hrec) hat)
            · exact Or.inr hmem
        · cases hf
    · cases out with
      | none => exact triple_done (hQ false) (fun _ _ _ h => by cases h)
      | some value =>
        cases value with
        | none =>
          exact triple_pre ih (fun s _ h => h.2 none rfl (fun r hr => by cases hr))
        | some r =>
          dsimp only
          split
          · exact triple_done (hQ false) (fun _ _ _ h => by cases h)
          · rename_i hr
            refine triple_pre ih (fun s _ h => h.2 (some r) rfl (fun r' hr' hat => ?_))
            cases hr'
            by_contra hset
            exact hr ⟨hat, Bool.not_eq_true _ ▸ hset⟩

theorem triple_commandJournalClear :
    hostSpec.Triple i (Holds i (.attempt a)) (commandJournalClear a)
      (fun out s => out = true → ClearBut i a [] s) := by
  have hQ : ∀ out : Bool, hostSpec.Stable i (fun s => out = true → ClearBut i a [] s) :=
    fun out s s' hrely h hout => stable_clearBut s s' hrely (h hout)
  refine triple_bind (M := fun out s => ∀ entries, out = some entries → ClearBut i a entries s)
    ?_ (fun out => ?_)
  · refine triple_look (stable_holds _) (fun out => ?_) ?_
    · intro s s' hrely h entries hout
      exact stable_clearBut s s' hrely (h entries hout)
    · intro s v out hs hh hf entries hout
      subst hout
      refine ⟨hh, fun op r hrec _ => Or.inr ?_⟩
      split at hf
      · cases hf
        exact AList.lookup_isSome.mp (by rw [← Host.record, hrec]; rfl)
      · cases hf
  · cases out with
    | none => exact triple_done (hQ false) (fun _ _ _ h => by cases h)
    | some entries => exact triple_pre (triple_clearEntries entries) (fun s _ h => h entries rfl)

/-- A fence may be raised by the holder of the lock once the journal is clear. -/
theorem inv_close {s s' : Host} (hs : HostInv s) (hc : ClearBut i a [] s)
    (hcmd : s'.commands = s.commands) (hp : s'.processes = s.processes)
    (hh : ∀ b, b ≠ a → s'.handoffs b = s.handoffs b)
    (hat : ∀ b, b ≠ a → s'.attestations b = s.attestations b)
    (hhist : s'.history = s.history) : HostInv s' := by
  have hr : ∀ op, s'.record op = s.record op := fun op => by rw [Host.record, hcmd, Host.record]
  obtain ⟨h1, h2, h3, h4, h5, h6, h7, h8, h9⟩ := hs
  refine ⟨?_, ?_, ?_, ?_, ?_, ?_, ?_, ?_, ?_⟩
  · simpa only [hp, hr] using h1
  · simpa only [hp] using h2
  · simpa only [hp] using h3
  · simpa only [hp, hhist] using h4
  · simpa only [hp, hr] using h5
  · simpa only [hp, hhist] using h6
  · intro op r hrec hclosed
    rw [hr] at hrec
    by_cases ha : r.attemptId = a
    · rcases hc.2 op r hrec ha with h | h
      · exact h
      · cases h
    · refine h7 op r hrec ?_
      rwa [Host.Closed, hh _ ha, hat _ ha] at hclosed
  · simpa only [hr, hhist] using h8
  · simpa only [hhist] using h9

theorem triple_writeHandoff {request : HandoffRequest} {source : Snapshot} :
    hostSpec.Triple i (ClearBut i request.attempt []) (writeHandoff ⟨request, source⟩)
      (fun _ _ => True) := by
  refine triple_durably stable_clearBut stable_true (fun s hs hc => ⟨?_, ?_, trivial⟩)
  · exact inv_close hs hc rfl rfl (fun b hb => Function.update_of_ne hb _ _) (fun _ _ => rfl) rfl
  · refine ⟨fun _ _ _ => Iff.rfl, fun _ _ => rfl,
      fun op r hn hr => absurd (hn.symm.trans hr) (by simp), fun b hb => ⟨?_, rfl⟩,
      fun _ _ h _ => h, fun _ _ h => h, Advances.of_commands rfl (fun _ _ h => h) (fun b => ?_)⟩
    · have hne : b ≠ request.attempt := by
        rintro rfl
        exact hb hc.1
      exact Function.update_of_ne hne _ _
    · refine ⟨fun hb => ?_, fun h => h, fun _ => rfl, fun _ => rfl⟩
      by_cases h : b = request.attempt
      · subst h
        simp
      · simpa [Function.update_of_ne h] using hb

theorem triple_writeAttestation {attestation : Attestation} :
    hostSpec.Triple i (ClearBut i a []) (writeAttestation a attestation) (fun _ _ => True) := by
  refine triple_durably stable_clearBut stable_true (fun s hs hc => ⟨?_, ?_, trivial⟩)
  · exact inv_close hs hc rfl rfl (fun _ _ => rfl) (fun b hb => Function.update_of_ne hb _ _) rfl
  · refine ⟨fun _ _ _ => Iff.rfl, fun _ _ => rfl,
      fun op r hn hr => absurd (hn.symm.trans hr) (by simp), fun b hb => ⟨rfl, ?_⟩,
      fun _ _ h _ => h, fun _ _ h => h, Advances.of_commands rfl (fun _ _ h => h) (fun b => ?_)⟩
    · have hne : b ≠ a := by
        rintro rfl
        exact hb hc.1
      exact Function.update_of_ne hne _ _
    · refine ⟨fun h => h, fun hb => ?_, fun _ => rfl, fun _ => rfl⟩
      by_cases h : b = a
      · subst h
        simp
      · simpa [Function.update_of_ne h] using hb

theorem triple_pin {commit : String} {A : Host → Prop} (hA : hostSpec.Stable i A)
    (hrefs : ∀ s refs, A s → A { s with refs := refs }) :
    hostSpec.Triple i A (pin a commit) (fun _ => A) := by
  refine triple_bind (M := fun _ => A) ?_ (fun _ => ?_)
  · refine triple_durably hA hA (fun s hs ha => ?_)
    split
    · rename_i hnone
      refine ⟨hs.of_eq rfl rfl rfl rfl rfl, hostStep_of_eq (fun _ _ _ => Iff.rfl) rfl rfl rfl rfl
        (fun b c hb => ?_) (fun _ => rfl) (fun _ _ => rfl), hrefs s _ ha⟩
      have hne : b ≠ a := by
        rintro rfl
        exact absurd (hnone.symm.trans hb) (by simp)
      exact (Function.update_of_ne hne _ _).trans hb
    · exact ⟨hs, HostStep.refl i s, ha⟩
  · refine triple_bind (triple_look hA (fun _ => hA) (fun _ _ _ _ h _ => h)) (fun observed => ?_)
    split
    · exact triple_done hA (fun _ _ h => h)
    · exact triple_fail

theorem triple_snapshot {w : WorkspaceId} {A : Host → Prop} (hA : hostSpec.Stable i A) :
    hostSpec.Triple i A (workspaceSnapshot w) (fun _ => A) :=
  triple_look hA (fun _ => hA) (fun _ _ _ _ h _ => h)

theorem triple_validateRecord {record : HandoffRecord} :
    hostSpec.Triple i (fun _ => True) (validateRecord record) (fun _ _ => True) := by
  refine triple_tryCatch (triple_bind (triple_look stable_true (fun _ => stable_true)
    (fun _ _ _ _ h _ => h)) (fun _ => triple_bind (triple_snapshot stable_true)
    (fun _ => triple_return))) (fun _ => triple_return)

theorem triple_handoffLocked {request : HandoffRequest} :
    hostSpec.Triple i (Holds i (.attempt request.attempt)) (handoffLocked request)
      (fun _ _ => True) := by
  have hH := stable_holds (i := i) (.attempt request.attempt)
  have hC : hostSpec.Stable i (ClearBut i request.attempt []) := stable_clearBut
  refine triple_bind (triple_look hH (fun _ => hH) (fun _ _ _ _ h _ => h)) (fun prior => ?_)
  cases prior with
  | some prior =>
    dsimp only
    split
    · exact triple_fail
    · refine triple_bind (triple_pre triple_validateRecord (fun _ _ _ => trivial)) (fun ok => ?_)
      split
      · exact triple_return
      · exact triple_fail
  | none =>
    refine triple_bind (M := fun _ => ClearBut i request.attempt []) ?_ (fun _ => ?_)
    · refine triple_bind triple_commandJournalClear (fun clear => ?_)
      cases clear with
      | true => exact triple_pre (triple_require hC) (fun _ _ h => h rfl)
      | false => exact triple_fail
    · refine triple_bind (triple_snapshot hC) (fun source => ?_)
      refine triple_bind (triple_pin hC (fun _ _ h => h)) (fun _ => ?_)
      refine triple_bind (triple_snapshot hC) (fun current => ?_)
      split
      · exact triple_fail
      · exact triple_bind triple_writeHandoff (fun _ => triple_return)

theorem triple_handoffAuthoring {request : HandoffRequest} :
    hostSpec.Triple i (fun _ => True) (handoffAuthoring i request) (fun _ _ => True) := by
  refine triple_bind (triple_require stable_true) (fun _ => ?_)
  refine triple_locked stable_true lockable_true (fun _ => stable_true) (fun _ => stable_true)
    (fun _ => lockable_true) (fun _ _ h => h) ?_
  refine triple_pre (triple_locked (stable_holds (.attempt request.attempt))
    (lockable_holds (fun h => by cases h)) (fun _ => stable_true) (fun _ => stable_true)
    (fun _ => lockable_true) (fun _ _ h => h) ?_) (fun _ _ h => h.1)
  exact triple_pre triple_handoffLocked (fun _ _ h => h.2)

theorem triple_recordExternal {subject : List (String × String)} :
    hostSpec.Triple i (fun _ => True) (recordExternalProducerCompletion i a subject)
      (fun _ _ => True) := by
  have hH := stable_holds (i := i) (.attempt a)
  have hC : hostSpec.Stable i (ClearBut i a []) := stable_clearBut
  refine triple_bind (triple_require stable_true) (fun _ => ?_)
  refine triple_locked stable_true lockable_true (fun _ => stable_true) (fun _ => stable_true)
    (fun _ => lockable_true) (fun _ _ h => h) ?_
  refine triple_bind (triple_pre (triple_require hH) (fun _ _ h => h.1)) (fun _ => ?_)
  refine triple_bind triple_commandJournalClear (fun clear => ?_)
  cases clear with
  | false => exact triple_fail
  | true =>
    refine triple_bind (triple_pre (triple_now hC) (fun _ _ h => h rfl)) (fun observedAt => ?_)
    refine triple_bind (triple_look hC (fun _ => hC) (fun _ _ _ _ h _ => h)) (fun prior => ?_)
    cases prior with
    | none => exact triple_bind triple_writeAttestation (fun _ => triple_return)
    | some prior =>
      dsimp only
      split
      · exact triple_fail
      · split
        · refine triple_bind (triple_check hC) (fun ok => ?_)
          split
          · exact triple_return
          · exact triple_fail
        · exact triple_bind triple_writeAttestation (fun _ => triple_return)

/-- Every write of the operation finds the attempt not handed off. -/
theorem triple_gitWrites {kind : GitOperationKind} (n : ℕ) :
    hostSpec.Triple i (NotHandedOff i a) (gitWrites a kind n) (fun _ _ => True) := by
  induction n with
  | zero => exact triple_return
  | succ n ih =>
    refine triple_bind (M := fun _ => NotHandedOff i a) ?_ (fun _ => ih)
    refine triple_atomic stable_notHandedOff (fun _ => stable_notHandedOff) ?_
    intro s v hs hno _
    refine ⟨?_, ?_, fun _ _ => hno⟩
    · obtain ⟨h1, h2, h3, h4, h5, h6, h7, h8, h9⟩ := hs
      refine ⟨h1, h2, h3, fun op b hl => ?_, h5, fun sv hsv report code hx hst => ?_, h7,
        fun op r hr => ?_, trivial, h9⟩
      · rcases List.mem_cons.mp hl with h | h
        · cases h
        · exact h4 op b h
      · exact List.mem_cons_of_mem _ (h6 sv hsv report code hx hst)
      · exact List.mem_cons_of_mem _ (h8 op r hr)
    · refine hostStep_of_eq (fun _ _ _ => Iff.rfl) rfl rfl rfl rfl (fun _ _ h => h) (fun _ => rfl)
        (fun b hb => ?_)
      refine authoredFor_append s [.authored a kind] b (fun kind' hmem => ?_)
      rw [List.mem_singleton] at hmem
      cases hmem
      exact hb hno.2

theorem triple_fenceAuthoringEffect {request : GitRequest} :
    hostSpec.Triple i (fun _ => True) (fenceAuthoringEffect i request) (fun _ _ => True) := by
  unfold fenceAuthoringEffect
  split
  · split
    · exact triple_return
    · refine triple_locked stable_true lockable_true (fun _ => stable_true)
        (fun _ => stable_true) (fun _ => lockable_true) (fun _ _ h => h) ?_
      refine triple_bind (triple_hasHandoffMarker stable_true lockable_true) (fun marker => ?_)
      cases marker with
      | true => exact triple_return
      | false => exact triple_pre (triple_gitWrites _) (fun _ _ h => (h rfl).1)
  · exact triple_return

theorem nativeSystem_sound (projectId : String) : hostSpec.Sound (nativeSystem projectId) where
  crash := fun i s hs => crash_sound i hs
  env := by
    intro s e s' hs he
    cases e with
    | supervisor h step => exact supervise_sound hs he
    | workspace w snapshot =>
      cases he
      exact ⟨hs.of_eq rfl rfl rfl rfl rfl, rfl, rfl, rfl, rfl,
        fun h sv hsv => ⟨sv, hsv, rfl, rfl, rfl, rfl, fun _ _ h => h⟩,
        fun sv hsv => ⟨sv, hsv, rfl⟩,
        Advances.of_commands rfl (fun _ _ h => h)
        (fun _ => Fence.of_eq rfl rfl rfl rfl)⟩
  program := by
    intro i call
    cases call with
    | execute request => exact triple_execute
    | inspect request => exact triple_inspect
    | handoff request => exact triple_handoffAuthoring
    | attest a subject => exact triple_recordExternal
    | git request => exact triple_fenceAuthoringEffect

end Calls

section Ordered

variable {op : OperationId} {l later earlier : List Event} {e : Event}

theorem Ordered.suffix (h : Ordered (later ++ earlier)) : Ordered earlier := by
  induction later with
  | nil => exact h
  | cons e later ih => exact ih h.2

theorem Ordered.follows (h : Ordered l) (hl : l = later ++ e :: earlier) : e.Follows earlier := by
  subst hl
  exact (Ordered.suffix h).1

theorem Ordered.launches_length {s : Host} (h : Ordered s.history) :
    (s.launches op).length ≤ 1 := by
  unfold Host.launches
  generalize s.history = l at h
  induction l with
  | nil => exact Nat.zero_le 1
  | cons e rest ih =>
    obtain ⟨hfollows, hrest⟩ := h
    cases e with
    | launched op' a =>
      by_cases hop : op' = op
      · subst hop
        rw [List.filter_cons_of_pos (by simp), List.filter_eq_nil_iff.mpr]
        · exact le_refl 1
        · intro x hx
          cases x with
          | launched op'' b =>
            simp only [decide_eq_true_eq]
            rintro rfl
            exact hfollows b hx
          | quiescent | recorded | inspected | authored => simp
      · rw [List.filter_cons_of_neg (by simpa using hop)]
        exact ih hrest
    | quiescent | recorded | inspected | authored => exact ih hrest

end Ordered

theorem hostInv_of_new {s : Host} (hc : s.commands = ∅) (hp : s.processes = [])
    (hh : s.history = []) : HostInv s := by
  have hr : ∀ op, s.record op = none := by
    intro op
    rw [Host.record, hc]
    exact AList.lookup_empty op
  constructor <;> simp [hp, hh, hr, Ordered]

/-- An operation's command is launched at most once. An inspection that finds it not
started comes before any launch, one that finds it completed comes after an execution
recorded the observation, which came after the supervisor found the tree quiescent.
A settled record is final, and the command of one that was not started never runs. -/
theorem command_launched_at_most_once (projectId : String)
    {p q q' : Pool ℕ Host Choice Unit Fault Reply} (op : OperationId)
    (hidle : ∀ i, p.threads i = none) (hcommands : p.shared.commands = ∅)
    (hprocesses : p.shared.processes = []) (hhistory : p.shared.history = [])
    (hq : (nativeSystem projectId).Reach System.anyStep p q)
    (hq' : (nativeSystem projectId).Reach System.anyStep q q') :
    (q.shared.launches op).length ≤ 1 ∧
    (∀ later earlier, q.shared.history = later ++ .inspected op .notStarted :: earlier →
      ∀ a, Event.launched op a ∉ earlier) ∧
    (∀ later earlier observation receipt,
      q.shared.history = later ++ .inspected op (.completed observation receipt) :: earlier →
      ∃ between before r report, earlier = between ++ .recorded op r :: before ∧
        r.state = .completed ∧ r.observation = some (observation, receipt) ∧
        Event.quiescent op report ∈ before ∧ Confirms report observation) ∧
    (∀ r, q.shared.record op = some r → r.state = .completed → q'.shared.record op = some r) ∧
    (∀ r, q.shared.record op = some r → r.state = .notStarted →
      ∀ a, Event.launched op a ∉ q'.shared.history) := by
  have hsound := nativeSystem_sound projectId
  have hsafe := poolSafe_reach hsound
    (poolSafe_of_idle (hostInv_of_new hcommands hprocesses hhistory) hidle) hq
  have hadv : Advances q.shared q'.shared := reach_related hsound Advances.refl
    (fun _ _ _ => Advances.trans) (fun _ _ _ h => h.advances) (fun _ _ h => h.advances) hsafe hq'
  have hord := hsafe.1.ordered
  refine ⟨hord.launches_length, fun later earlier hl => hord.follows hl, ?_, ?_, ?_⟩
  · intro later earlier observation receipt hl
    obtain ⟨r, hmem, hstate, hobs⟩ := hord.follows hl
    obtain ⟨between, before, hsplit⟩ := List.append_of_mem hmem
    -- the record was itself written after the report
    have hearlier : Ordered earlier := by
      rw [hl] at hord
      exact (Ordered.suffix hord).2
    obtain ⟨-, observation', receipt', report, hobs', hev, hconf⟩ :=
      hearlier.follows hsplit hstate
    rw [hobs] at hobs'
    cases hobs'
    exact ⟨between, before, r, report, hsplit, hstate, hobs, hev, hconf⟩
  · intro r hr hstate
    exact hadv.settled op r hr (by rw [hstate]; rfl)
  · intro r hr hstate
    have hinv := (poolSafe_reach hsound hsafe hq').1
    refine hinv.not_launched (fun r' hr' => ?_)
    rw [hadv.settled op r hr (by rw [hstate]; rfl)] at hr'
    cases hr'
    exact hstate

/-- Once an attempt is handed off or attested none of its commands is launched. When it
is handed off all its records are completed or not started, and nothing is authored for
it afterwards. -/
theorem nothing_passes_the_fence (projectId : String)
    {p q q' : Pool ℕ Host Choice Unit Fault Reply} (a : AttemptId)
    (hidle : ∀ i, p.threads i = none) (hcommands : p.shared.commands = ∅)
    (hprocesses : p.shared.processes = []) (hhistory : p.shared.history = [])
    (hq : (nativeSystem projectId).Reach System.anyStep p q)
    (hq' : (nativeSystem projectId).Reach System.anyStep q q') :
    (q.shared.handoffs a ≠ none ∨ q.shared.attestations a ≠ none →
      q'.shared.launchesOf a = q.shared.launchesOf a) ∧
    (q.shared.handoffs a ≠ none → ∀ op r, q.shared.record op = some r → r.attemptId = a →
      r.state = .completed ∨ r.state = .notStarted) ∧
    (q.shared.handoffs a ≠ none → q'.shared.authoredFor a = q.shared.authoredFor a) := by
  have hsound := nativeSystem_sound projectId
  have hsafe := poolSafe_reach hsound
    (poolSafe_of_idle (hostInv_of_new hcommands hprocesses hhistory) hidle) hq
  have hadv : Advances q.shared q'.shared := reach_related hsound Advances.refl
    (fun _ _ _ => Advances.trans) (fun _ _ _ h => h.advances) (fun _ _ h => h.advances) hsafe hq'
  refine ⟨(hadv.fence a).launches, ?_, (hadv.fence a).authored⟩
  intro hh op r hr hat
  have hset := hsafe.1.closed op r hr (Or.inl (hat ▸ hh))
  cases hstate : r.state with
  | completed => exact Or.inl rfl
  | notStarted => exact Or.inr rfl
  | starting | running => simp [hstate, CommandState.settled] at hset

section Runs

def verifyRequest : ExecuteRequest :=
  { projectId := "atlas", operationId := "op", attempt := "A1", argv := ["pytest"], digest := "d" }

def zeroDigest : String := "0000000000000000000000000000000000000000000000000000000000000000"

def cleanPool : Pool ℕ Host Choice Unit Fault Reply where
  shared := { workspaces := fun _ => some ⟨"c1", "t1", "s1"⟩ }
  threads := fun _ => none

/-- One command from its request to its completed record. -/
def verified : List (Action ℕ Choice NativeCall Surroundings) :=
  .start 0 (.execute verifyRequest) :: List.replicate 19 (.act 0 {}) ++
    [.env (.supervisor 0 .readRequest), .env (.supervisor 0 .enterSandbox),
      .env (.supervisor 0 .launch), .env (.supervisor 0 .exit),
      .env (.supervisor 0 (.helperReports (some 0) false true (some zeroDigest)
        (some zeroDigest))), .env (.supervisor 0 (.relay true))] ++
    List.replicate 6 (.act 0 {})

def inspected : List (Action ℕ Choice NativeCall Surroundings) :=
  .start 1 (.inspect ⟨"atlas", "op", "d"⟩) :: List.replicate 3 (.act 1 {})

def handedOff : List (Action ℕ Choice NativeCall Surroundings) :=
  .start 1 (.handoff ⟨"A1", "L1", "ws", "k1", "h1"⟩) :: List.replicate 14 (.act 1 {})

/-- A second command of the attempt, which is refused. -/
def verifiedAgain : List (Action ℕ Choice NativeCall Surroundings) :=
  .start 2 (.execute { verifyRequest with operationId := "op2" }) ::
    List.replicate 12 (.act 2 {})

theorem completed_command_launched_once :
    ∃ q q', (nativeSystem "atlas").Reach System.anyStep cleanPool q ∧
      (nativeSystem "atlas").Reach System.anyStep q q' ∧
      q.shared.history.length = 6 ∧ (q.shared.launches "op").length ≤ 1 := by
  obtain ⟨q, q', hq, hq', hf⟩ := System.exists_reach_pair (nativeSystem "atlas") System.anyStep
    (p := cleanPool) (verified ++ inspected) [.start 2 (.execute verifyRequest)]
    (f := fun q _ => q.shared.history.length) (b := 6) (by decide +kernel)
  exact ⟨q, q', hq, hq', hf, (command_launched_at_most_once "atlas" "op" (fun _ => rfl) rfl rfl rfl
    hq hq').1⟩

theorem handed_off_attempt_is_fenced :
    ∃ q q', (nativeSystem "atlas").Reach System.anyStep cleanPool q ∧
      (nativeSystem "atlas").Reach System.anyStep q q' ∧
      (q.shared.handoffs "A1").isSome = true ∧
      q'.shared.launchesOf "A1" = q.shared.launchesOf "A1" := by
  obtain ⟨q, q', hq, hq', hf⟩ := System.exists_reach_pair (nativeSystem "atlas") System.anyStep
    (p := cleanPool) (verified ++ handedOff) verifiedAgain
    (f := fun q q' => ((q.shared.handoffs "A1").isSome, (q'.threads 2).map Prog.finished))
    (b := (true, some true)) (by decide +kernel)
  have hsome := congrArg Prod.fst hf
  refine ⟨q, q', hq, hq', hsome, (nothing_passes_the_fence "atlas" "A1" (fun _ => rfl) rfl rfl rfl
    hq hq').1 (Or.inl ?_)⟩
  intro hn
  simp [hn] at hsome

end Runs

end ProjectControl.Native
