import ProjectControl.CommandJournal

/-! The supervisor of one authored command: a process that waits for its request,
runs a helper in a sandbox which executes the command, and reports. -/

set_option autoImplicit false

namespace ProjectControl.Native

/-- What a supervisor, its helper or the command's processes do next. -/
inductive SupervisorStep where
  | readRequest
  | rejectRequest
  | refuse (reason : String)
  | enterSandbox
  | sandboxFailed
  | helperRefuses (state : ReportState) (reason : String)
  | launch
  | fork
  | exit
  | helperReports (exitCode : Option ℤ) (timedOut streamsClosed : Bool)
      (stdoutDigest stderrDigest : Option String)
  | helperDies
  | relay (quiet : Bool)
  | giveUp (reason : String)
  | killed

/-- The report of `_run_command_tree` on a command that was executed. -/
def treeReport (tree : ℕ) (exitCode : Option ℤ) (timedOut streamsClosed : Bool)
    (stdoutDigest stderrDigest : Option String) : Report × ℤ :=
  let quiescent := tree = 0 && streamsClosed
  let completed := quiescent && exitCode.isSome
  ({ state := if completed then .completed else .unresolved
     exitCode := if timedOut then none else exitCode
     timedOut := timedOut
     treeQuiescent := quiescent
     reason := if completed then none else some "descendant_quiescence_unconfirmed"
     stdoutDigest := stdoutDigest
     stderrDigest := stderrDigest }, if completed then 0 else 1)

/-- The end of `_run_request`: what it makes of the helper's report and return code.
`quiet` says that no process of the sandbox was left. -/
def relayReport (quiet : Bool) (report : Option Report) (code : ℤ) : Report × ℤ :=
  if quiet = false then
    ({ state := .unresolved, reason := some "sandbox_descendant_quiescence_unconfirmed" }, 1)
  else
    match report with
    | none => ({ state := .unresolved, reason := some "sandbox_supervisor_report_unconfirmed" }, 1)
    | some inner =>
      if inner.stdoutDigest.any (·.length ≠ 64) ∨ inner.stderrDigest.any (·.length ≠ 64) then
        ({ state := .unresolved, reason := some "sandbox_supervisor_report_invalid" }, 1)
      else if (inner.state = .notStarted ∨ inner.state = .unavailable) ∧ code ≠ 0 then
        ({ state := inner.state, reason := inner.reason }, 1)
      else if inner.state ≠ .completed ∨ code ≠ 0 ∨ inner.treeQuiescent = false then
        ({ state := .unresolved, timedOut := inner.timedOut,
           treeQuiescent := inner.treeQuiescent, reason := inner.reason }, 1)
      else
        ({ state := .completed, exitCode := inner.exitCode, timedOut := inner.timedOut,
           treeQuiescent := true, stdoutDigest := inner.stdoutDigest,
           stderrDigest := inner.stderrDigest }, 0)

/-- One step of a supervisor, with the event that it leaves behind. A supervisor that
is gone may leave its helper running. -/
def Supervisor.step (sv : Supervisor) : SupervisorStep → Option (Supervisor × Option Event)
  | .readRequest =>
    if sv.outer = .waiting ∧ sv.stdin = .delivered then
      some ({ sv with outer := .accepted }, none)
    else none
  | .rejectRequest =>
    if sv.outer = .waiting ∧ sv.stdin ≠ .pending then
      some ({ sv with outer := .exited (some
        { state := .notStarted, reason := some "supervisor_request_invalid" }) 2 }, none)
    else none
  | .refuse reason =>
    if sv.outer = .accepted then
      some ({ sv with outer := .exited (some
        { state := .unavailable, reason := some reason }) 1 }, none)
    else none
  | .enterSandbox =>
    if sv.outer = .accepted then
      some ({ sv with outer := .sandboxed, inner := .reading }, none)
    else none
  | .sandboxFailed =>
    if sv.outer = .accepted then
      some ({ sv with outer := .exited (some
        { state := .unresolved, reason := some "sandbox_supervisor_protocol_failed" }) 1 }, none)
    else none
  | .helperRefuses state reason =>
    if sv.inner = .reading ∧ (state = .unavailable ∨ state = .notStarted) then
      some ({ sv with inner := .ended (some { state := state, reason := some reason }) 1 }, none)
    else none
  | .launch =>
    if sv.inner = .reading then
      some ({ sv with inner := .launched, started := true, tree := 1 },
        some (.launched sv.operation sv.attempt))
    else none
  | .fork => if 0 < sv.tree then some ({ sv with tree := sv.tree + 1 }, none) else none
  | .exit => if 0 < sv.tree then some ({ sv with tree := sv.tree - 1 }, none) else none
  | .helperReports exitCode timedOut streamsClosed stdoutDigest stderrDigest =>
    if sv.inner = .launched then
      let out := treeReport sv.tree exitCode timedOut streamsClosed stdoutDigest stderrDigest
      some ({ sv with inner := .ended (some out.1) out.2 }, none)
    else none
  | .helperDies =>
    if sv.inner = .reading ∨ sv.inner = .launched then
      some ({ sv with inner := .ended none (-9) }, none)
    else none
  | .relay quiet =>
    match sv.outer, sv.inner with
    | .sandboxed, .ended report code =>
      let out := relayReport quiet report code
      some ({ sv with outer := .exited (some out.1) out.2 },
        if out.1.state = .completed then some (.quiescent sv.operation out.1) else none)
    | _, _ => none
  | .giveUp reason =>
    if sv.outer = .sandboxed then
      some ({ sv with outer := .exited (some
        { state := .unresolved, reason := some reason }) 1 }, none)
    else none
  | .killed =>
    match sv.outer with
    | .exited .. => none
    | _ => some ({ sv with outer := .exited none (-9) }, none)

/-- A supervisor's step on the host. -/
def Host.supervise (s : Host) (h : ℕ) (e : SupervisorStep) : Option Host := do
  let sv ← s.processes[h]?
  let (sv', event) ← sv.step e
  some { s.setProcess h sv' with history := event.toList ++ s.history }

namespace Supervisor

/-- The command can still be executed. -/
def CanLaunch (sv : Supervisor) : Prop :=
  sv.stdin = .delivered ∧ (sv.outer = .waiting ∨ sv.outer = .accepted ∨ sv.inner = .reading)

/-- Which places of the two processes go together, and what their reports say. -/
structure Coherent (sv : Supervisor) : Prop where
  requested : sv.outer = .accepted ∨ sv.outer = .sandboxed ∨ sv.inner ≠ .absent →
    sv.stdin = .delivered
  absent : sv.inner = .absent ∨ sv.inner = .reading → sv.started = false
  alone : sv.outer = .waiting ∨ sv.outer = .accepted → sv.inner = .absent
  unstarted : sv.started = false → sv.tree = 0
  helper : ∀ report code, sv.inner = .ended (some report) code →
    ((report.state = .notStarted ∨ report.state = .unavailable) → sv.started = false) ∧
    (report.treeQuiescent = true → sv.tree = 0)
  refused : ∀ report code, sv.outer = .exited (some report) code →
    (report.state = .notStarted ∨ report.state = .unavailable) →
      sv.started = false ∧ sv.inner ≠ .reading
  completed : ∀ report code, sv.outer = .exited (some report) code →
    report.state = .completed → sv.tree = 0 ∧ sv.inner ≠ .reading

variable {sv sv' : Supervisor} {e : SupervisorStep} {event : Option Event}

/-- What a step leaves as it is. -/
theorem step_same (h : sv.step e = some (sv', event)) :
    sv'.operation = sv.operation ∧ sv'.attempt = sv.attempt ∧ sv'.owner = sv.owner ∧
      sv'.stdin = sv.stdin := by
  cases e <;> simp only [step] at h <;> split at h <;> cases h <;> exact ⟨rfl, rfl, rfl, rfl⟩

/-- A report is final. -/
theorem step_exited (h : sv.step e = some (sv', event)) {report : Option Report} {code : ℤ}
    (hx : sv.outer = .exited report code) : sv'.outer = .exited report code := by
  cases e <;> simp only [step] at h <;> split at h <;> cases h <;> simp_all

theorem treeReport_state (tree : ℕ) (exitCode : Option ℤ) (timedOut streamsClosed : Bool)
    (out err : Option String) :
    (treeReport tree exitCode timedOut streamsClosed out err).1.state = .completed ∨
      (treeReport tree exitCode timedOut streamsClosed out err).1.state = .unresolved := by
  unfold treeReport
  dsimp only
  split
  · exact Or.inl rfl
  · exact Or.inr rfl

theorem treeReport_quiescent {tree : ℕ} {exitCode : Option ℤ} {timedOut streamsClosed : Bool}
    {out err : Option String}
    (h : (treeReport tree exitCode timedOut streamsClosed out err).1.treeQuiescent = true) :
    tree = 0 := by
  simp only [treeReport, Bool.and_eq_true, decide_eq_true_eq] at h
  exact h.1

/-- A supervisor says that nothing was started only if its helper does. -/
theorem relayReport_refused {quiet : Bool} {report : Option Report} {code : ℤ}
    (h : (relayReport quiet report code).1.state = .notStarted ∨
      (relayReport quiet report code).1.state = .unavailable) :
    ∃ inner, report = some inner ∧ (inner.state = .notStarted ∨ inner.state = .unavailable) := by
  unfold relayReport at h
  split at h
  · simp at h
  · split at h
    · simp at h
    · rename_i inner
      refine ⟨inner, rfl, ?_⟩
      split at h
      · simp at h
      · split at h
        · rename_i hstate
          exact hstate.1
        · split at h <;> simp at h

/-- It reports completion only after the helper found the tree quiescent. -/
theorem relayReport_completed {quiet : Bool} {report : Option Report} {code : ℤ}
    (h : (relayReport quiet report code).1.state = .completed) :
    ∃ inner, report = some inner ∧ inner.treeQuiescent = true := by
  unfold relayReport at h
  split at h
  · simp at h
  · split at h
    · simp at h
    · rename_i inner
      refine ⟨inner, rfl, ?_⟩
      split at h
      · simp at h
      · split at h
        · rename_i hstate
          rcases hstate.1 with hs | hs <;> simp [hs] at h
        · split at h
          · simp at h
          · rename_i hfine
            simp only [not_or, Bool.not_eq_false] at hfine
            exact hfine.2.2

theorem relay_coherent {quiet : Bool} (h : sv.step (.relay quiet) = some (sv', event))
    (hc : sv.Coherent) : sv'.Coherent := by
  obtain ⟨hreq, habs, halone, hun, hhelp, href, hcomp⟩ := hc
  simp only [step] at h
  split at h
  · rename_i report code ho hi
    cases h
    refine ⟨by simp_all, by simp_all, by simp, hun, hhelp, ?_, ?_⟩
    · intro out exit hout hstate
      simp only [Outer.exited.injEq, Option.some.injEq] at hout
      obtain ⟨inner, rfl, hinner⟩ := relayReport_refused (hout.1 ▸ hstate)
      exact ⟨(hhelp inner code hi).1 hinner, by simp [hi]⟩
    · intro out exit hout hstate
      simp only [Outer.exited.injEq, Option.some.injEq] at hout
      obtain ⟨inner, rfl, hinner⟩ := relayReport_completed (hout.1 ▸ hstate)
      exact ⟨(hhelp inner code hi).2 hinner, by simp [hi]⟩
  · cases h

theorem helperReports_coherent {exitCode : Option ℤ} {timedOut streamsClosed : Bool}
    {out err : Option String}
    (h : sv.step (.helperReports exitCode timedOut streamsClosed out err) = some (sv', event))
    (hc : sv.Coherent) : sv'.Coherent := by
  obtain ⟨hreq, habs, halone, hun, hhelp, href, hcomp⟩ := hc
  simp only [step] at h
  split at h
  · rename_i hi
    cases h
    refine ⟨by simp_all, by simp, by simp_all, hun, ?_,
      fun r c ho hs => ⟨(href r c ho hs).1, by simp⟩,
      fun r c ho hs => ⟨(hcomp r c ho hs).1, by simp⟩⟩
    intro report code hended
    simp only [Inner.ended.injEq, Option.some.injEq] at hended
    obtain ⟨rfl, -⟩ := hended
    refine ⟨fun hstate => ?_, treeReport_quiescent⟩
    rcases treeReport_state sv.tree exitCode timedOut streamsClosed out err with hs | hs <;>
      simp [hs] at hstate
  · cases h

/-- A supervisor that answers without its helper's report has not completed anything. -/
theorem answered_coherent {report : Report} {code : ℤ} (hc : sv.Coherent)
    (hrefused : (report.state = .notStarted ∨ report.state = .unavailable) →
      sv.started = false ∧ sv.inner ≠ .reading)
    (hstate : report.state ≠ .completed) :
    Supervisor.Coherent { sv with outer := .exited (some report) code } := by
  obtain ⟨hreq, habs, halone, hun, hhelp, href, hcomp⟩ := hc
  have hrequested (h : sv.inner ≠ .absent) : sv.stdin = .delivered := hreq (.inr (.inr h))
  refine ⟨by simpa using hrequested, habs, by simp, hun, hhelp, fun r c hout hr => ?_,
    fun r c hout hr => ?_⟩
  · cases hout
    exact hrefused hr
  · cases hout
    exact absurd hr hstate

/-- The helper moves on. -/
theorem helper_coherent (h : sv.step e = some (sv', event)) (hc : sv.Coherent)
    (he : e = .launch ∨ e = .fork ∨ e = .exit ∨ e = .helperDies ∨
      ∃ state reason, e = .helperRefuses state reason) : sv'.Coherent := by
  obtain ⟨hreq, habs, halone, hun, hhelp, href, hcomp⟩ := hc
  rcases he with rfl | rfl | rfl | rfl | ⟨state, reason, rfl⟩
  all_goals simp only [step] at h
  all_goals split at h
  all_goals cases h
  all_goals constructor
  all_goals grind

theorem step_coherent (h : sv.step e = some (sv', event)) (hc : sv.Coherent) : sv'.Coherent := by
  cases e
  case relay quiet => exact relay_coherent h hc
  case helperReports exitCode timedOut streamsClosed out err => exact helperReports_coherent h hc
  case launch | fork | exit | helperDies | helperRefuses => exact helper_coherent h hc (by simp)
  all_goals simp only [step] at h
  all_goals split at h
  all_goals cases h
  case rejectRequest.isTrue hw =>
    exact answered_coherent hc (fun _ => ⟨hc.absent (.inl (hc.alone (.inl hw.1))),
      by simp [hc.alone (.inl hw.1)]⟩) (by simp)
  case refuse.isTrue reason hw =>
    exact answered_coherent hc (fun _ => ⟨hc.absent (.inl (hc.alone (.inr hw))),
      by simp [hc.alone (.inr hw)]⟩) (by simp)
  case sandboxFailed.isTrue hw => exact answered_coherent hc (by simp) (by simp)
  case giveUp.isTrue reason hw => exact answered_coherent hc (by simp) (by simp)
  all_goals obtain ⟨hreq, habs, halone, hun, hhelp, href, hcomp⟩ := hc
  all_goals constructor
  all_goals grind

/-- Once the command cannot be executed any more, nothing about it changes. -/
theorem step_idle (h : sv.step e = some (sv', event)) (hc : sv.Coherent) (hn : ¬ sv.CanLaunch) :
    ¬ sv'.CanLaunch ∧ sv'.started = sv.started ∧ (sv.tree = 0 → sv'.tree = 0) := by
  have hreq := hc.requested
  unfold CanLaunch at *
  cases e
  all_goals simp only [step] at h
  all_goals split at h
  all_goals cases h
  all_goals grind

theorem step_started (h : sv.step e = some (sv', event)) (hs : sv.started = true) :
    sv'.started = true := by
  cases e <;> simp only [step] at h <;> split at h <;> cases h <;> first | exact hs | rfl

/-- A step reports an event of its own command. -/
theorem step_event (h : sv.step e = some (sv', event)) {ev : Event} (hev : event = some ev) :
    (ev = .launched sv.operation sv.attempt ∧ sv.inner = .reading ∧ sv'.started = true) ∨
      ∃ report, ev = .quiescent sv.operation report := by
  subst hev
  cases e
  case launch =>
    simp only [step] at h
    split at h
    · rename_i hi
      cases h
      exact Or.inl ⟨rfl, hi, rfl⟩
    · cases h
  case relay quiet =>
    simp only [step] at h
    split at h
    · rename_i report code ho hi
      simp only [Option.some.injEq, Prod.mk.injEq, Option.ite_none_right_eq_some] at h
      obtain ⟨-, -, rfl⟩ := h
      exact Or.inr ⟨_, rfl⟩
    · cases h
  all_goals simp only [step] at h
  all_goals split at h
  all_goals cases h

/-- A completion report is an event. -/
theorem step_reported (h : sv.step e = some (sv', event)) {report : Report} {code : ℤ}
    (hx : sv'.outer = .exited (some report) code) (hs : report.state = .completed) :
    sv.outer = .exited (some report) code ∨ event = some (.quiescent sv.operation report) := by
  cases e
  case relay quiet =>
    simp only [step] at h
    split at h
    · cases h
      simp only [Outer.exited.injEq, Option.some.injEq] at hx
      obtain ⟨rfl, -⟩ := hx
      exact Or.inr (if_pos hs)
    · cases h
  all_goals simp only [step] at h
  all_goals split at h
  all_goals cases h
  all_goals first
    | exact Or.inl hx
    | (cases hx; cases hs)
    | cases hx

end Supervisor

end ProjectControl.Native
