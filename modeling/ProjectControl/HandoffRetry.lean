import ProjectControl.ResumptionAlone
import ProjectControl.HandoffFence

/-! A handoff that is asked for again after an earlier one failed: the ref that the
earlier one created decides. -/

set_option autoImplicit false

namespace ProjectControl.Native

open Resumption Resumption.Spec Resumption.Prog

/-- The system calls of the call succeed. -/
abbrev AllOk (v : Choice) : Prop := v.ok = true

/-- The state after thread `i` gave up a lock that it may hold. -/
def Host.unlock (s : Host) (i : ℕ) (n : LockName) : Host :=
  { s with locks := fun m => if m = n ∧ s.locks n = some i then none else s.locks m }

/-- What a handoff finds when no record of the attempt is durable, the host is quiescent
and the workspace is clean at `source`. -/
structure Quiescent (request : HandoffRequest) (source : Snapshot) (s : Host) : Prop where
  attemptLock : s.locks (.attempt request.attempt) = none
  recordLock : s.locks (.record request.attempt) = none
  unrecorded : s.handoffs request.attempt = none
  settled : ∀ op r, s.record op = some r → r.attemptId = request.attempt →
    r.state.settled = true
  workspace : s.workspaces request.workspaceId = some source

/-- The ref of the attempt is free or already at the commit. -/
def Pinnable (a : AttemptId) (commit : String) (s : Host) : Prop :=
  s.refs a = none ∨ s.refs a = some commit

section Succeeds

variable {α : Type} {i : ℕ} {request : HandoffRequest} {source : Snapshot} {s : Host}
variable {Q : α → Host → Prop}

theorem achieves_look {f : Host → Choice → Except Fault α}
    (h : ∀ v, AllOk v → ∃ a, f s v = .ok a ∧ Q a s) : (look f).Achieves AllOk Q s :=
  achieves_atomic ⟨{}, rfl⟩ h

theorem achieves_require {Q : Unit → Host → Prop} (h : Q () s) :
    require.Achieves AllOk Q s := by
  refine achieves_look (fun v hv => ⟨(), ?_, h⟩)
  rw [if_pos hv]

theorem achieves_locked {n : LockName} {body : Effect α} (hn : s.locks n = none)
    (hbody : body.Achieves AllOk
      (fun a s' => Q a (s'.unlock i n))
      { s with locks := Function.update s.locks n (some i) }) :
    (locked i n body).Achieves AllOk Q s := by
  refine achieves_bind (M := fun _ s' => s' = { s with
    locks := Function.update s.locks n (some i) }) ?_ ?_
  · refine achieves_await ⟨{}, rfl, by simp [hn]⟩ (fun v hv _ => ⟨(), ?_, ?_⟩)
    · rw [if_pos hv]
    · rw [if_pos hv]
  · rintro _ s' rfl
    exact achieves_andThen hbody (fun a s' h => achieves_atomic ⟨{}, rfl⟩ (fun v _ => ⟨(), rfl, h⟩))

/-- Nothing stops the check of a journal whose records are settled. -/
theorem achieves_clearEntries {a : AttemptId}
    (hs : ∀ op r, s.record op = some r → r.attemptId = a → r.state.settled = true)
    (entries : List OperationId) :
    (clearEntries a entries).Achieves AllOk (fun out s' => out = true ∧ s' = s) s := by
  induction entries with
  | nil => exact ⟨rfl, rfl⟩
  | cons op rest ih =>
    refine achieves_bind (M := fun out s' => out = some (s.record op) ∧ s' = s) ?_ ?_
    · refine achieves_look (fun v hv => ⟨_, ?_, rfl, rfl⟩)
      rw [if_pos hv]
    · rintro out s' ⟨rfl, rfl⟩
      cases hr : s'.record op with
      | none => exact ih
      | some r =>
        have hfine : ¬ (r.attemptId = a ∧ r.state.settled = false) := by
          rintro ⟨hat, hset⟩
          rw [hs op r hr hat] at hset
          cases hset
        dsimp only
        rw [if_neg hfine]
        exact ih

theorem achieves_quiescentHost {a : AttemptId}
    (hs : ∀ op r, s.record op = some r → r.attemptId = a → r.state.settled = true) :
    (requireQuiescentHost a).Achieves AllOk (fun _ s' => s' = s) s := by
  refine achieves_bind (M := fun out s' => out = true ∧ s' = s) ?_ ?_
  · refine achieves_bind (M := fun out s' => out = some s.commands.keys ∧ s' = s) ?_ ?_
    · refine achieves_look (fun v hv => ⟨_, ?_, rfl, rfl⟩)
      rw [if_pos hv]
    · rintro out s' ⟨rfl, rfl⟩
      exact achieves_clearEntries hs _
  · rintro out s' ⟨rfl, rfl⟩
    exact achieves_require rfl

theorem achieves_snapshot {w : WorkspaceId} (hw : s.workspaces w = some source) :
    (workspaceSnapshot w).Achieves AllOk (fun out s' => out = source ∧ s' = s) s := by
  refine achieves_look (fun v hv => ⟨source, ?_, rfl, rfl⟩)
  rw [hw]
  exact if_pos hv

theorem achieves_pin {a : AttemptId} {commit : String} (hp : Pinnable a commit s) :
    (pin a commit).Achieves AllOk (fun _ s' => s'.refs a = some commit ∧
      s'.handoffs = s.handoffs ∧ s'.workspaces = s.workspaces ∧ s'.locks = s.locks) s := by
  refine achieves_bind (M := fun _ s' => s'.refs a = some commit ∧ s'.handoffs = s.handoffs ∧
    s'.workspaces = s.workspaces ∧ s'.locks = s.locks) ?_ ?_
  · refine achieves_atomic ⟨{}, rfl⟩ (fun v hv => ⟨(), if_pos hv, ?_⟩)
    dsimp only
    rw [if_pos (Or.inl hv)]
    split
    · exact ⟨Function.update_self _ _ _, rfl, rfl, rfl⟩
    · rename_i hne
      rcases hp with h | h
      · exact absurd h hne
      · exact ⟨h, rfl, rfl, rfl⟩
  · rintro _ s' ⟨hr, hrest⟩
    refine achieves_bind (M := fun out s'' => out = some commit ∧ s'' = s') ?_ ?_
    · refine achieves_look (fun v hv => ⟨_, ?_, hr, rfl⟩)
      rw [if_pos hv]
    · rintro out s'' ⟨rfl, rfl⟩
      rw [if_pos rfl]
      exact ⟨hr, hrest⟩

/-- While both locks are held, a pinnable source is handed off. -/
theorem achieves_handoffLocked (hu : s.handoffs request.attempt = none)
    (hs : ∀ op r, s.record op = some r → r.attemptId = request.attempt → r.state.settled = true)
    (hw : s.workspaces request.workspaceId = some source)
    (hp : Pinnable request.attempt source.commit s) :
    (handoffLocked request).Achieves AllOk (fun out s' => out = .handedOff source ∧
      s'.refs request.attempt = some source.commit ∧
      s'.handoffs request.attempt = some ⟨request, source⟩) s := by
  refine achieves_bind (M := fun out s' => out = none ∧ s' = s) ?_ ?_
  · refine achieves_look (fun v hv => ⟨_, ?_, hu, rfl⟩)
    rw [if_pos hv]
  · rintro out s' ⟨rfl, rfl⟩
    refine achieves_bind (achieves_quiescentHost hs) ?_
    rintro _ s₁ rfl
    refine achieves_bind (achieves_snapshot hw) ?_
    rintro out s₂ ⟨rfl, rfl⟩
    refine achieves_bind (achieves_pin hp) ?_
    rintro _ s₃ ⟨hr, hh, hw', -⟩
    refine achieves_bind (achieves_snapshot (hw' ▸ hw)) ?_
    rintro current s₄ ⟨rfl, rfl⟩
    rw [if_neg (not_not.mpr rfl)]
    refine achieves_bind (M := fun _ s' => s'.refs request.attempt = some current.commit ∧
      s'.handoffs request.attempt = some ⟨request, current⟩) ?_ ?_
    · refine achieves_atomic ⟨{}, rfl⟩ (fun v hv => ⟨(), if_pos hv, ?_⟩)
      dsimp only
      rw [if_pos (Or.inl hv)]
      exact ⟨hr, Function.update_self _ _ _⟩
    · rintro _ s' h
      exact ⟨rfl, h⟩

theorem achieves_handoff (hq : Quiescent request source s)
    (hp : Pinnable request.attempt source.commit s) :
    (handoffAuthoring i request).Achieves AllOk (fun out s' => out = .handedOff source ∧
      s'.refs request.attempt = some source.commit ∧
      s'.handoffs request.attempt = some ⟨request, source⟩) s := by
  refine achieves_bind (M := fun _ s' => s' = s) (achieves_require rfl) ?_
  rintro _ s' rfl
  have hne : LockName.record request.attempt ≠ .attempt request.attempt := by simp
  refine achieves_locked hq.attemptLock (achieves_locked ?_ ?_)
  · calc Function.update s'.locks (.attempt request.attempt) (some i) (.record request.attempt)
        = s'.locks (.record request.attempt) := Function.update_of_ne hne _ _
      _ = none := hq.recordLock
  · exact achieves_handoffLocked hq.unrecorded hq.settled hq.workspace hp

end Succeeds

section Fails

variable {i : ℕ} {request : HandoffRequest} {source : Snapshot} {s : Host}

/-- The ref is at another commit, and nothing is recorded. -/
def Conflicts (request : HandoffRequest) (source : Snapshot) (s : Host) : Prop :=
  s.handoffs request.attempt = none ∧ s.workspaces request.workspaceId = some source ∧
    ∃ other, s.refs request.attempt = some other ∧ other ≠ source.commit

/-- A program that leaves a conflict as it is. -/
theorem ends_look {α : Type} {f : Host → Choice → Except Fault α} {Q : α → Prop}
    (hc : Conflicts request source s) (h : ∀ v a, f s v = .ok a → Q a) :
    (look f).Ends (fun a s' => Q a ∧ Conflicts request source s')
      (fun _ => Conflicts request source) s :=
  ends_atomic (fun v a hf => ⟨h v a hf, hc⟩) (fun _ _ _ => hc)

theorem ends_clearEntries (hc : Conflicts request source s) (entries : List OperationId) :
    (clearEntries request.attempt entries).Ends (fun _ => Conflicts request source)
      (fun _ => Conflicts request source) s := by
  induction entries generalizing s with
  | nil => exact hc
  | cons op rest ih =>
    refine ends_bind (ends_look (Q := fun _ => True) hc (fun _ _ _ => trivial)) ?_
    rintro out s' ⟨-, hc'⟩
    cases out with
    | none => exact hc'
    | some value =>
      cases value with
      | none => exact ih hc'
      | some r =>
        dsimp only
        split
        · exact hc'
        · exact ih hc'

theorem ends_quiescentHost (hc : Conflicts request source s) :
    (requireQuiescentHost request.attempt).Ends (fun _ => Conflicts request source)
      (fun _ => Conflicts request source) s := by
  refine ends_bind (M := fun _ => Conflicts request source) ?_ ?_
  · refine ends_bind (ends_look (Q := fun _ => True) hc (fun _ _ _ => trivial)) ?_
    rintro out s' ⟨-, hc'⟩
    cases out with
    | none => exact hc'
    | some entries => exact ends_clearEntries hc' entries
  · intro out s' hc'
    split
    · exact (ends_look (Q := fun _ => True) hc' (fun _ _ _ => trivial)).mono
        (fun _ _ h => h.2) (fun _ _ h => h)
    · exact hc'

/-- The ref is not moved, and the comparison after it fails. -/
theorem ends_pin (hc : Conflicts request source s) :
    (pin request.attempt source.commit).Ends (fun _ _ => False)
      (fun _ => Conflicts request source) s := by
  refine ends_bind (M := fun _ => Conflicts request source) ?_ ?_
  · have hsame : (if s.refs request.attempt = none then
        { s with refs := Function.update s.refs request.attempt (some source.commit) }
        else s) = s := by
      obtain ⟨-, -, other, ho, -⟩ := hc
      rw [if_neg (by rw [ho]; simp)]
    refine ends_atomic (fun v _ _ => ?_) (fun v _ _ => ?_) <;> dsimp only <;>
      rw [hsame, ite_self] <;> exact hc
  · intro _ s' hc'
    obtain ⟨-, -, other, ho, hne⟩ := id hc'
    refine ends_bind (ends_look (Q := fun out => out = some other) hc' ?_) ?_
    · intro v out hf
      split at hf
      · cases hf
        exact ho
      · cases hf
    · rintro out s'' ⟨rfl, hc''⟩
      rw [if_neg (fun h => hne (Option.some.inj h))]
      exact hc''

theorem ends_handoffLocked (hc : Conflicts request source s) :
    (handoffLocked request).Ends (fun _ _ => False) (fun _ => Conflicts request source) s := by
  obtain ⟨hu, -, -⟩ := id hc
  refine ends_bind (ends_look (Q := fun out => out = none) hc ?_) ?_
  · intro v out hf
    split at hf
    · cases hf
      exact hu
    · cases hf
  · rintro out s₁ ⟨rfl, hc₁⟩
    refine ends_bind (ends_quiescentHost hc₁) (fun _ s₂ hc₂ => ?_)
    refine ends_bind (ends_look (Q := fun out => out = source) hc₂ ?_) ?_
    · intro v out hf
      rw [hc₂.2.1] at hf
      dsimp only at hf
      split at hf
      · exact (Except.ok.inj hf).symm
      · cases hf
    · rintro out s₃ ⟨rfl, hc₃⟩
      exact ends_bind (ends_pin hc₃) (fun _ _ h => h.elim)

theorem ends_lockedConflict {n : LockName} {body : Effect Reply}
    (hc : Conflicts request source s)
    (hbody : ∀ s, Conflicts request source s →
      body.Ends (fun _ _ => False) (fun _ => Conflicts request source) s) :
    (locked i n body).Ends (fun _ _ => False) (fun _ => Conflicts request source) s := by
  refine ends_bind (M := fun _ => Conflicts request source) ?_ (fun _ s' hc' => ?_)
  · refine ends_await (fun v _ _ _ => ?_) (fun v _ _ _ => ?_)
    · split <;> exact hc
    · split <;> exact hc
  · refine ends_andThen (hbody s' hc') (fun _ _ h => h.elim) (fun _ s'' hc'' => ?_)
    exact ends_atomic (fun _ _ _ => hc'') (fun _ _ _ => hc'')

theorem ends_handoff (hc : Conflicts request source s) :
    (handoffAuthoring i request).Ends (fun _ _ => False)
      (fun _ => Conflicts request source) s := by
  refine ends_bind (ends_look (Q := fun _ => True) hc (fun _ _ _ => trivial)) ?_
  rintro _ s₁ ⟨-, hc₁⟩
  exact ends_lockedConflict hc₁ (fun s₂ hc₂ => ends_lockedConflict hc₂
    (fun s₃ hc₃ => ends_handoffLocked hc₃))

end Fails

/-- A handoff of an attempt without a durable record, on a quiescent host and with a
clean workspace that stays as it is, succeeds and pins the current commit exactly if the
attempt's ref is free or at that commit. No other handoff ever moves the ref. -/
theorem handoff_succeeds_iff_pinnable (projectId : String)
    {p q q' : Pool ℕ Host Choice Unit Fault Reply} (hidle : ∀ i, p.threads i = none)
    (hcommands : p.shared.commands = ∅) (hprocesses : p.shared.processes = [])
    (hhistory : p.shared.history = [])
    (hq : (nativeSystem projectId).Reach System.anyStep p q)
    (hq' : (nativeSystem projectId).Reach System.anyStep q q') (i : ℕ)
    (request : HandoffRequest) (source : Snapshot) (hs : Quiescent request source q.shared) :
    (Pinnable request.attempt source.commit q.shared →
      (∃ vs out s', (∀ v ∈ vs, AllOk v) ∧
        (handoffAuthoring i request).eval q.shared vs = some (out, s')) ∧
      ∀ vs out s', (∀ v ∈ vs, AllOk v) →
        (handoffAuthoring i request).eval q.shared vs = some (out, s') →
        out = .ok (.handedOff source) ∧ s'.refs request.attempt = some source.commit ∧
          s'.handoffs request.attempt = some ⟨request, source⟩) ∧
    (¬ Pinnable request.attempt source.commit q.shared → ∀ vs out s',
      (handoffAuthoring i request).eval q.shared vs = some (out, s') →
      out = .error .unavailable ∧ s'.handoffs request.attempt = none ∧
        ¬ Pinnable request.attempt source.commit s') ∧
    (∀ a commit, q.shared.refs a = some commit → q'.shared.refs a = some commit) := by
  have hsound := nativeSystem_sound projectId
  have hsafe := poolSafe_reach hsound
    (poolSafe_of_idle (hostInv_of_new hcommands hprocesses hhistory) hidle) hq
  have hadv : Advances q.shared q'.shared := reach_related hsound Advances.refl
    (fun _ _ _ => Advances.trans) (fun _ _ _ h => h.advances) (fun _ _ h => h.advances) hsafe hq'
  refine ⟨fun hp => ?_, fun hp => ?_, hadv.refs⟩
  · have hach := achieves_handoff (i := i) hs hp
    refine ⟨hach.exists_eval, fun vs out s' hvs heval => ?_⟩
    obtain ⟨reply, rfl, rfl, hrest⟩ := hach.eval hvs heval
    exact ⟨rfl, hrest⟩
  · intro vs out s' heval
    have hc : Conflicts request source q.shared := by
      cases hr : q.shared.refs request.attempt with
      | none => exact absurd (Or.inl hr) hp
      | some other =>
        refine ⟨hs.unrecorded, hs.workspace, other, hr, fun h => hp (Or.inr ?_)⟩
        rw [hr, h]
    obtain ⟨hok, herr⟩ := (ends_handoff (i := i) hc).eval heval
    cases out with
    | ok reply => exact (hok reply rfl).elim
    | error e =>
      obtain ⟨hu, -, other, ho, hne⟩ := herr e rfl
      refine ⟨by cases e; rfl, hu, ?_⟩
      rintro (h | h)
      · exact absurd (ho.symm.trans h) (by simp)
      · exact hne (Option.some.inj (ho.symm.trans h))

section Runs

def handoffRequest : HandoffRequest := ⟨"A1", "L1", "ws", "k1", "h1"⟩

/-- What the later handoffs of the attempt read. -/
def attemptView (s : Host) :=
  ((s.locks (.attempt "A1"), s.locks (.record "A1"), s.commands.keys.length), s.handoffs "A1",
    s.workspaces "ws", s.refs "A1")

theorem quiescent_of_view {s : Host} {source : Snapshot} {ref : Option String}
    (h : attemptView s = ((none, none, 0), none, some source, ref)) :
    Quiescent handoffRequest source s ∧ s.refs "A1" = ref := by
  simp only [attemptView, Prod.mk.injEq] at h
  obtain ⟨⟨hattempt, hrecord, hkeys⟩, hh, hw, hr⟩ := h
  have hempty : ∀ op, s.record op = none := by
    intro op
    apply AList.lookup_eq_none.mpr
    show op ∉ s.commands.keys
    rw [List.length_eq_zero_iff.mp hkeys]
    exact List.not_mem_nil
  refine ⟨⟨hattempt, hrecord, hh, fun op r h => ?_, hw⟩, hr⟩
  rw [hempty op] at h
  cases h

/-- A handoff that crashes after it pinned `c1`. -/
def pinnedThenCrashed : List (Action ℕ Choice NativeCall Surroundings) :=
  .start 0 (.handoff handoffRequest) :: List.replicate 8 (.act 0 {}) ++ [.crash 0]

/-- The next handoff, at the same commit, finds the ref that the crashed one left. -/
theorem retried_handoff_succeeds :
    ∃ q, (nativeSystem "atlas").Reach System.anyStep cleanPool q ∧
      q.shared.refs "A1" = some "c1" ∧ q.shared.handoffs "A1" = none ∧
      ∃ vs out s', (handoffAuthoring 1 handoffRequest).eval q.shared vs = some (out, s') ∧
        out = .ok (.handedOff ⟨"c1", "t1", "s1"⟩) ∧ s'.refs "A1" = some "c1" ∧
        s'.handoffs "A1" = some ⟨handoffRequest, ⟨"c1", "t1", "s1"⟩⟩ := by
  obtain ⟨q, hq, hview⟩ := System.exists_reach (nativeSystem "atlas") System.anyStep
    (p := cleanPool) pinnedThenCrashed (f := fun q => attemptView q.shared)
    (b := ((none, none, 0), none, some ⟨"c1", "t1", "s1"⟩, some "c1")) (by decide +kernel)
  obtain ⟨hs, hr⟩ := quiescent_of_view hview
  obtain ⟨hp, -, -⟩ := handoff_succeeds_iff_pinnable "atlas" (p := cleanPool) (fun _ => rfl) rfl
    rfl rfl hq Relation.ReflTransGen.refl 1 handoffRequest ⟨"c1", "t1", "s1"⟩ hs
  obtain ⟨⟨vs, out, s', hvs, heval⟩, hall⟩ := hp (Or.inr hr)
  exact ⟨q, hq, hr, hs.unrecorded, vs, out, s', heval, hall vs out s' hvs heval⟩

/-- A handoff that crashes after it pinned `c1`, and then a commit. -/
def pinnedThenCommitted : List (Action ℕ Choice NativeCall Surroundings) :=
  pinnedThenCrashed ++ [.env (.workspace "ws" (some ⟨"c2", "t2", "s2"⟩))]

/-- No later handoff of the attempt at its new commit succeeds, though nothing is running
and the workspace is clean. -/
theorem crashed_handoff_blocks_later_ones :
    ∃ q, (nativeSystem "atlas").Reach System.anyStep cleanPool q ∧
      Quiescent handoffRequest ⟨"c2", "t2", "s2"⟩ q.shared ∧
      ∀ vs out s', (handoffAuthoring 1 handoffRequest).eval q.shared vs = some (out, s') →
        out = .error .unavailable := by
  obtain ⟨q, hq, hview⟩ := System.exists_reach (nativeSystem "atlas") System.anyStep
    (p := cleanPool) pinnedThenCommitted (f := fun q => attemptView q.shared)
    (b := ((none, none, 0), none, some ⟨"c2", "t2", "s2"⟩, some "c1")) (by decide +kernel)
  obtain ⟨hs, hr⟩ := quiescent_of_view hview
  refine ⟨q, hq, hs, fun vs out s' heval => ?_⟩
  have hc : Conflicts handoffRequest ⟨"c2", "t2", "s2"⟩ q.shared :=
    ⟨hs.unrecorded, hs.workspace, "c1", hr, by decide⟩
  obtain ⟨hok, -⟩ := (ends_handoff (i := 1) hc).eval heval
  cases out with
  | ok reply => exact (hok reply rfl).elim
  | error e =>
    cases e
    rfl

end Runs

end ProjectControl.Native
