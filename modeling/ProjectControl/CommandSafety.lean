import ProjectControl.CommandExecutor

/-! What holds of the host in every state, and what each thread may rely on while it
holds a lock. -/

set_option autoImplicit false

namespace ProjectControl.Native

open Resumption Resumption.Spec

/-- No command of the attempt may be started any more. -/
def Host.Closed (s : Host) (a : AttemptId) : Prop :=
  s.handoffs a ≠ none ∨ s.attestations a ≠ none

/-- The supervisor's report is the one that the observation was made from. -/
structure Confirms (report : Report) (observation : Observation) : Prop where
  state : report.state = .completed
  quiescent : report.treeQuiescent = true
  exitCode : report.exitCode = observation.exitCode
  timedOut : report.timedOut = observation.timedOut
  stdout : report.stdoutDigest = some observation.stdoutDigest
  stderr : report.stderrDigest = some observation.stderrDigest

/-- What must have happened, or must not have, before an event. -/
def Event.Follows (rest : List Event) : Event → Prop
  | .launched op _ => ∀ a, Event.launched op a ∉ rest
  | .inspected op .notStarted => ∀ a, Event.launched op a ∉ rest
  | .inspected op (.completed observation receipt) =>
    ∃ r, Event.recorded op r ∈ rest ∧ r.state = .completed ∧
      r.observation = some (observation, receipt)
  | .recorded op r => r.state = .completed → r.treeQuiescent = true ∧
    ∃ observation receipt report, r.observation = some (observation, receipt) ∧
      Event.quiescent op report ∈ rest ∧ Confirms report observation
  | _ => True

def Ordered : List Event → Prop
  | [] => True
  | e :: rest => e.Follows rest ∧ Ordered rest

structure HostInv (s : Host) : Prop where
  process : ∀ sv ∈ s.processes, ∃ r, s.record sv.operation = some r ∧ r.attemptId = sv.attempt
  unique : ∀ (h h' : ℕ) (sv sv' : Supervisor), s.processes[h]? = some sv → s.processes[h']? = some sv' →
    sv.operation = sv'.operation → h = h'
  coherent : ∀ sv ∈ s.processes, sv.Coherent
  launched : ∀ op a, Event.launched op a ∈ s.history →
    ∃ sv ∈ s.processes, sv.operation = op ∧ sv.started = true
  settled : ∀ sv ∈ s.processes, ∀ r, s.record sv.operation = some r → r.state.settled = true →
    ¬ sv.CanLaunch ∧ sv.tree = 0 ∧ (r.state = .notStarted → sv.started = false)
  reported : ∀ sv ∈ s.processes, ∀ report code, sv.outer = .exited (some report) code →
    report.state = .completed → Event.quiescent sv.operation report ∈ s.history
  closed : ∀ op r, s.record op = some r → s.Closed r.attemptId → r.state.settled = true
  recorded : ∀ op r, s.record op = some r → Event.recorded op r ∈ s.history
  ordered : Ordered s.history

/-- Closing an attempt is final, and then neither its commands are launched nor, after
a handoff, its workspace authored. -/
structure Fence (a : AttemptId) (s s' : Host) : Prop where
  handoff : s.handoffs a ≠ none → s'.handoffs a ≠ none
  attestation : s.attestations a ≠ none → s'.attestations a ≠ none
  launches : s.Closed a → s'.launchesOf a = s.launchesOf a
  authored : s.handoffs a ≠ none → s'.authoredFor a = s.authoredFor a

/-- A settled record stays as it is, a record keeps its attempt, and a source that was
pinned is never moved. -/
structure Advances (s s' : Host) : Prop where
  settled : ∀ op r, s.record op = some r → r.state.settled = true → s'.record op = some r
  attempt : ∀ op r, s.record op = some r →
    ∃ r', s'.record op = some r' ∧ r'.attemptId = r.attemptId
  refs : ∀ a commit, s.refs a = some commit → s'.refs a = some commit
  fence : ∀ a, Fence a s s'

/-- What the thread `i` guarantees of its steps. -/
structure HostStep (i : ℕ) (s s' : Host) : Prop where
  locks : ∀ n j, j ≠ i → (s'.locks n = some j ↔ s.locks n = some j)
  kept : ∀ op, s.locks (.operation op) ≠ some i → s'.record op = s.record op
  fresh : ∀ op r, s.record op = none → s'.record op = some r →
    s.locks (.attempt r.attemptId) = some i
  closes : ∀ a, s.locks (.attempt a) ≠ some i →
    s'.handoffs a = s.handoffs a ∧ s'.attestations a = s.attestations a
  processes : ∀ (h : ℕ) (sv : Supervisor), s.processes[h]? = some sv → sv.owner ≠ i →
    s'.processes[h]? = some sv
  spawns : ∀ op, s.locks (.operation op) ≠ some i → (∀ sv ∈ s.processes, sv.operation ≠ op) →
    ∀ sv ∈ s'.processes, sv.operation ≠ op
  advances : Advances s s'

/-- What the supervisors and the writers of workspaces do. -/
structure SurroundingsStep (s s' : Host) : Prop where
  locks : s'.locks = s.locks
  commands : s'.commands = s.commands
  handoffs : s'.handoffs = s.handoffs
  attestations : s'.attestations = s.attestations
  processes : ∀ (h : ℕ) (sv : Supervisor), s.processes[h]? = some sv → ∃ sv', s'.processes[h]? = some sv' ∧
    sv'.operation = sv.operation ∧ sv'.attempt = sv.attempt ∧ sv'.owner = sv.owner ∧
    sv'.stdin = sv.stdin ∧
    ∀ report code, sv.outer = .exited report code → sv'.outer = .exited report code
  operations : ∀ sv' ∈ s'.processes, ∃ sv ∈ s.processes, sv.operation = sv'.operation
  advances : Advances s s'

def hostSpec : Spec ℕ Host Unit where
  inv := HostInv
  cond := System.anyStep
  guar := HostStep
  env := SurroundingsStep

section History

variable {s s' : Host} {a : AttemptId}

theorem Fence.of_eq (hh : s'.handoffs = s.handoffs) (ha : s'.attestations = s.attestations)
    (hl : s'.launchesOf a = s.launchesOf a) (hw : s'.authoredFor a = s.authoredFor a) :
    Fence a s s' :=
  ⟨fun h => by rwa [hh], fun h => by rwa [ha], fun _ => hl, fun _ => hw⟩

theorem Fence.refl (s : Host) (a : AttemptId) : Fence a s s := Fence.of_eq rfl rfl rfl rfl

theorem Fence.closed (h : Fence a s s') (hc : s.Closed a) : s'.Closed a :=
  hc.imp h.handoff h.attestation

theorem Fence.trans {s'' : Host} (h : Fence a s s') (h' : Fence a s' s'') : Fence a s s'' :=
  ⟨fun hh => h'.handoff (h.handoff hh), fun ha => h'.attestation (h.attestation ha),
    fun hc => (h'.launches (h.closed hc)).trans (h.launches hc),
    fun hh => (h'.authored (h.handoff hh)).trans (h.authored hh)⟩

theorem Advances.of_commands (hc : s'.commands = s.commands)
    (hrefs : ∀ a commit, s.refs a = some commit → s'.refs a = some commit)
    (hf : ∀ a, Fence a s s') : Advances s s' := by
  have hr : ∀ op, s'.record op = s.record op := fun op => by rw [Host.record, hc, Host.record]
  exact ⟨fun op r h _ => (hr op).trans h, fun op r h => ⟨r, (hr op).trans h, rfl⟩, hrefs, hf⟩

theorem Advances.refl (s : Host) : Advances s s :=
  Advances.of_commands rfl (fun _ _ h => h) (fun a => Fence.refl s a)

theorem Advances.trans {s'' : Host} (h : Advances s s') (h' : Advances s' s'') :
    Advances s s'' := by
  refine ⟨fun op r hr hs => h'.settled op r (h.settled op r hr hs) hs, fun op r hr => ?_,
    fun a commit hc => h'.refs a commit (h.refs a commit hc),
    fun a => (h.fence a).trans (h'.fence a)⟩
  obtain ⟨r', hr', ha'⟩ := h.attempt op r hr
  obtain ⟨r'', hr'', ha''⟩ := h'.attempt op r' hr'
  exact ⟨r'', hr'', ha''.trans ha'⟩

/-- A step that leaves the files, the processes and the history of launches and of
authored effects alone, apart from locks that are free or its own. -/
theorem hostStep_of_eq {i : ℕ}
    (hl : ∀ n j, j ≠ i → (s'.locks n = some j ↔ s.locks n = some j))
    (hc : s'.commands = s.commands) (hp : s'.processes = s.processes)
    (hh : s'.handoffs = s.handoffs) (ha : s'.attestations = s.attestations)
    (hrefs : ∀ a commit, s.refs a = some commit → s'.refs a = some commit)
    (hlaunch : ∀ a, s'.launchesOf a = s.launchesOf a)
    (hauth : ∀ a, s.handoffs a ≠ none → s'.authoredFor a = s.authoredFor a) :
    HostStep i s s' where
  locks := hl
  kept := fun op _ => by rw [Host.record, hc, Host.record]
  fresh := fun op r hn hr => by
    rw [Host.record, hc] at hr
    exact absurd (hn.symm.trans hr) (by simp)
  closes := fun a _ => by rw [hh, ha]; exact ⟨rfl, rfl⟩
  processes := fun h sv hsv _ => by rwa [hp]
  spawns := fun op _ hn => by rwa [hp]
  advances := Advances.of_commands hc hrefs (fun a =>
    ⟨fun h => by rwa [hh], fun h => by rwa [ha], fun _ => hlaunch a, hauth a⟩)

theorem HostStep.refl (i : ℕ) (s : Host) : HostStep i s s :=
  hostStep_of_eq (fun _ _ _ => Iff.rfl) rfl rfl rfl rfl (fun _ _ h => h) (fun _ => rfl)
    (fun _ _ => rfl)

/-- The invariant does not speak of locks, refs and workspaces. -/
theorem HostInv.of_eq (hs : HostInv s) (hc : s'.commands = s.commands)
    (hp : s'.processes = s.processes) (hh : s'.handoffs = s.handoffs)
    (ha : s'.attestations = s.attestations) (hhist : s'.history = s.history) : HostInv s' := by
  have hr : ∀ op, s'.record op = s.record op := fun op => by rw [Host.record, hc, Host.record]
  obtain ⟨h1, h2, h3, h4, h5, h6, h7, h8, h9⟩ := hs
  refine ⟨?_, ?_, ?_, ?_, ?_, ?_, ?_, ?_, ?_⟩
  · simpa only [hp, hr] using h1
  · simpa only [hp] using h2
  · simpa only [hp] using h3
  · simpa only [hp, hhist] using h4
  · simpa only [hp, hr] using h5
  · simpa only [hp, hhist] using h6
  · simpa only [hr, Host.Closed, hh, ha] using h7
  · simpa only [hr, hhist] using h8
  · simpa only [hhist] using h9

end History

section Writes

variable {i : ℕ} {s : Host} {op : OperationId} {r : CommandRecord}

/-- What must be known before a record is written. -/
structure Writable (s : Host) (op : OperationId) (r : CommandRecord) : Prop where
  same : ∀ old, s.record op = some old → old.attemptId = r.attemptId
  settled : r.state.settled = true → ∀ sv ∈ s.processes, sv.operation = op →
    ¬ sv.CanLaunch ∧ sv.tree = 0 ∧ (r.state = .notStarted → sv.started = false)
  closed : s.Closed r.attemptId → r.state.settled = true
  completed : r.state = .completed → r.treeQuiescent = true ∧
    ∃ observation receipt report, r.observation = some (observation, receipt) ∧
      Event.quiescent op report ∈ s.history ∧ Confirms report observation

theorem inv_putRecord (hs : HostInv s) (hw : Writable s op r) : HostInv (s.putRecord op r) where
  process := by
    intro sv hsv
    obtain ⟨old, hold, hat⟩ := hs.process sv hsv
    by_cases hop : sv.operation = op
    · rw [hop] at hold
      exact ⟨r, by rw [hop, Host.record_putRecord_self], (hw.same old hold).symm.trans hat⟩
    · exact ⟨old, by rwa [Host.record_putRecord_of_ne hop], hat⟩
  unique := hs.unique
  coherent := hs.coherent
  launched := by
    intro op' a hl
    rcases List.mem_cons.mp hl with h | h
    · cases h
    · exact hs.launched op' a h
  settled := by
    intro sv hsv r' hr' hset
    by_cases hop : sv.operation = op
    · rw [hop, Host.record_putRecord_self] at hr'
      cases hr'
      exact hw.settled hset sv hsv hop
    · rw [Host.record_putRecord_of_ne hop] at hr'
      exact hs.settled sv hsv r' hr' hset
  reported := by
    intro sv hsv report code hx hst
    exact List.mem_cons_of_mem _ (hs.reported sv hsv report code hx hst)
  closed := by
    intro op' r' hr' hc
    by_cases hop : op' = op
    · subst hop
      rw [Host.record_putRecord_self] at hr'
      cases hr'
      exact hw.closed hc
    · rw [Host.record_putRecord_of_ne hop] at hr'
      exact hs.closed op' r' hr' hc
  recorded := by
    intro op' r' hr'
    by_cases hop : op' = op
    · subst hop
      rw [Host.record_putRecord_self] at hr'
      cases hr'
      exact List.mem_cons_self
    · rw [Host.record_putRecord_of_ne hop] at hr'
      exact List.mem_cons_of_mem _ (hs.recorded op' r' hr')
  ordered := ⟨hw.completed, hs.ordered⟩

/-- A record is written by the thread that holds the operation's lock, never over a
settled one, and for the first time under the lock of the attempt. -/
theorem hostStep_putRecord (hlock : s.locks (.operation op) = some i)
    (hsame : ∀ old, s.record op = some old → old.attemptId = r.attemptId)
    (hopen : ∀ old, s.record op = some old → old.state.settled = false)
    (hfresh : s.record op = none → s.locks (.attempt r.attemptId) = some i) :
    HostStep i s (s.putRecord op r) where
  locks := fun _ _ _ => Iff.rfl
  kept := by
    intro op' hn
    refine Host.record_putRecord_of_ne (fun h => hn ?_)
    rw [h, hlock]
  fresh := by
    intro op' r' hn hr'
    by_cases hop : op' = op
    · subst hop
      rw [Host.record_putRecord_self] at hr'
      cases hr'
      exact hfresh hn
    · rw [Host.record_putRecord_of_ne hop] at hr'
      exact absurd (hn.symm.trans hr') (by simp)
  closes := fun _ _ => ⟨rfl, rfl⟩
  processes := fun _ _ h _ => h
  spawns := fun _ _ h => h
  advances := by
    refine ⟨fun op' r' hr' hset => ?_, fun op' r' hr' => ?_, fun _ _ h => h,
      fun a => Fence.of_eq rfl rfl rfl rfl⟩
    · by_cases hop : op' = op
      · subst hop
        exact absurd hset (by simp [hopen r' hr'])
      · rwa [Host.record_putRecord_of_ne hop]
    · by_cases hop : op' = op
      · subst hop
        exact ⟨r, Host.record_putRecord_self _ _ _, (hsame r' hr').symm⟩
      · exact ⟨r', by rwa [Host.record_putRecord_of_ne hop], rfl⟩

/-- What must be known before a process changes, with the events that this leaves. -/
structure Changeable (s : Host) (sv sv' : Supervisor) (events : List Event) : Prop where
  operation : sv'.operation = sv.operation
  attempt : sv'.attempt = sv.attempt
  coherent : sv'.Coherent
  started : sv.started = true → sv'.started = true
  settled : ∀ r, s.record sv.operation = some r → r.state.settled = true →
    ¬ sv'.CanLaunch ∧ sv'.tree = 0 ∧ (r.state = .notStarted → sv'.started = false)
  reported : ∀ report code, sv'.outer = .exited (some report) code →
    report.state = .completed → Event.quiescent sv.operation report ∈ events ++ s.history
  launched : ∀ op a, Event.launched op a ∈ events → op = sv.operation ∧ sv'.started = true
  ordered : Ordered (events ++ s.history)

theorem inv_setProcess (hs : HostInv s) {h : ℕ} {sv sv' : Supervisor} {events : List Event}
    (hh : s.processes[h]? = some sv) (hc : Changeable s sv sv' events) :
    HostInv { s.setProcess h sv' with history := events ++ s.history } := by
  have hmem : sv ∈ s.processes := List.mem_of_getElem? hh
  have hlt : h < s.processes.length := (List.getElem?_eq_some_iff.mp hh).1
  have hnew : (s.processes.set h sv')[h]? = some sv' := by
    rw [List.getElem?_set_self hlt]
  have hcases : ∀ x ∈ s.processes.set h sv', x = sv' ∨ x ∈ s.processes := by
    intro x hx
    exact (List.mem_or_eq_of_mem_set hx).symm
  refine ⟨?_, ?_, ?_, ?_, ?_, ?_, hs.closed, ?_, hc.ordered⟩
  · intro x hx
    rcases hcases x hx with rfl | hx
    · obtain ⟨r, hr, hat⟩ := hs.process sv hmem
      exact ⟨r, by rwa [hc.operation], hat.trans hc.attempt.symm⟩
    · exact hs.process x hx
  · intro k k' x x' hk hk' hop
    -- the new process has the operation of the one it replaces
    have hold : ∀ (k : ℕ) (x : Supervisor), (s.processes.set h sv')[k]? = some x →
        ∃ y, s.processes[k]? = some y ∧ y.operation = x.operation := by
      intro k x hk
      by_cases hkh : k = h
      · subst hkh
        rw [hnew] at hk
        cases hk
        exact ⟨sv, hh, hc.operation.symm⟩
      · rw [List.getElem?_set_ne (fun e => hkh e.symm)] at hk
        exact ⟨x, hk, rfl⟩
    obtain ⟨y, hy, hyop⟩ := hold k x hk
    obtain ⟨y', hy', hyop'⟩ := hold k' x' hk'
    exact hs.unique k k' y y' hy hy' (by rw [hyop, hyop', hop])
  · intro x hx
    rcases hcases x hx with rfl | hx
    · exact hc.coherent
    · exact hs.coherent x hx
  · intro op a hl
    rcases List.mem_append.mp hl with hl | hl
    · obtain ⟨rfl, hst⟩ := hc.launched op a hl
      exact ⟨sv', List.mem_of_getElem? hnew, hc.operation, hst⟩
    · obtain ⟨x, hx, hop, hst⟩ := hs.launched op a hl
      obtain ⟨k, hk⟩ := List.mem_iff_getElem?.mp hx
      by_cases hkh : k = h
      · subst hkh
        rw [hh] at hk
        cases hk
        exact ⟨sv', List.mem_of_getElem? hnew, hc.operation.trans hop, hc.started hst⟩
      · refine ⟨x, List.mem_of_getElem? (i := k) ?_, hop, hst⟩
        change (s.processes.set h sv')[k]? = some x
        rwa [List.getElem?_set_ne (fun e => hkh e.symm)]
  · intro x hx r hr hset
    rcases hcases x hx with rfl | hx
    · refine hc.settled r ?_ hset
      rwa [← hc.operation]
    · exact hs.settled x hx r hr hset
  · intro x hx report code hout hst
    rcases hcases x hx with rfl | hx
    · rw [hc.operation]
      exact hc.reported report code hout hst
    · exact List.mem_append_right _ (hs.reported x hx report code hout hst)
  · intro op r hr
    exact List.mem_append_right _ (hs.recorded op r hr)

end Writes

section Surroundings

variable {s s' : Host} {h : ℕ} {e : SupervisorStep}

theorem launchesOf_append (s : Host) (events : List Event) (a : AttemptId)
    (hn : ∀ op, Event.launched op a ∉ events) :
    ({ s with history := events ++ s.history } : Host).launchesOf a = s.launchesOf a := by
  unfold Host.launchesOf
  rw [List.filter_append, List.filter_eq_nil_iff.mpr, List.nil_append]
  intro ev hev
  cases ev with
  | launched op a' =>
    intro heq
    simp only [decide_eq_true_eq] at heq
    exact hn op (heq ▸ hev)
  | quiescent | recorded | inspected | authored => simp

theorem authoredFor_append (s : Host) (events : List Event) (a : AttemptId)
    (hn : ∀ kind, Event.authored a kind ∉ events) :
    ({ s with history := events ++ s.history } : Host).authoredFor a = s.authoredFor a := by
  unfold Host.authoredFor
  rw [List.filter_append, List.filter_eq_nil_iff.mpr, List.nil_append]
  intro ev hev
  cases ev with
  | authored a' kind =>
    intro heq
    simp only [decide_eq_true_eq] at heq
    exact hn kind (heq ▸ hev)
  | quiescent | recorded | inspected | launched => simp

/-- No command of a closed attempt can still be executed. -/
theorem HostInv.not_canLaunch (hs : HostInv s) {sv : Supervisor} (hsv : sv ∈ s.processes)
    (hc : s.Closed sv.attempt) : ¬ sv.CanLaunch := by
  obtain ⟨r, hr, hat⟩ := hs.process sv hsv
  have hset := hs.closed sv.operation r hr (by rwa [hat])
  exact (hs.settled sv hsv r hr hset).1

theorem Supervisor.canLaunch_of_reading {sv : Supervisor} (hc : sv.Coherent)
    (hi : sv.inner = .reading) : sv.CanLaunch := by
  refine ⟨hc.requested (Or.inr (Or.inr ?_)), Or.inr (Or.inr hi)⟩
  rw [hi]
  exact fun h => by cases h

theorem changeable_step (hs : HostInv s) {sv sv' : Supervisor} {event : Option Event}
    (hh : s.processes[h]? = some sv) (hstep : sv.step e = some (sv', event)) :
    Changeable s sv sv' event.toList := by
  have hmem : sv ∈ s.processes := List.mem_of_getElem? hh
  have hco := hs.coherent sv hmem
  obtain ⟨hop, hat, -, -⟩ := Supervisor.step_same hstep
  refine ⟨hop, hat, Supervisor.step_coherent hstep hco, Supervisor.step_started hstep, ?_, ?_, ?_,
    ?_⟩
  · intro r hr hset
    obtain ⟨hn, ht, hst⟩ := hs.settled sv hmem r hr hset
    obtain ⟨hn', hst', ht'⟩ := Supervisor.step_idle hstep hco hn
    exact ⟨hn', ht' ht, fun h => hst'.trans (hst h)⟩
  · intro report code hx hst
    rcases Supervisor.step_reported hstep hx hst with h | h
    · exact List.mem_append_right _ (hs.reported sv hmem report code h hst)
    · rw [h]
      exact List.mem_cons_self
  · intro op a hev
    rcases Supervisor.step_event hstep (Option.mem_toList.mp hev) with ⟨h, -, hst⟩ | ⟨report, h⟩
    · cases h
      exact ⟨rfl, hst⟩
    · cases h
  · cases event with
    | none => exact hs.ordered
    | some ev =>
      refine ⟨?_, hs.ordered⟩
      rcases Supervisor.step_event hstep rfl with ⟨rfl, hi, -⟩ | ⟨report, rfl⟩
      · intro a hl
        -- an earlier launch was one of the same process
        obtain ⟨x, hx, hxop, hxst⟩ := hs.launched _ a hl
        obtain ⟨k, hk⟩ := List.mem_iff_getElem?.mp hx
        have hkh := hs.unique k h x sv hk hh hxop
        subst hkh
        rw [hh] at hk
        cases hk
        rw [hco.absent (Or.inr hi)] at hxst
        cases hxst
      · trivial

theorem supervise_sound (hs : HostInv s) (hstep : s.supervise h e = some s') :
    HostInv s' ∧ SurroundingsStep s s' := by
  obtain ⟨sv, hh, hstep⟩ := Option.bind_eq_some_iff.mp hstep
  obtain ⟨⟨sv', event⟩, hsv, hstep⟩ := Option.bind_eq_some_iff.mp hstep
  cases hstep
  have hmem : sv ∈ s.processes := List.mem_of_getElem? hh
  have hlt : h < s.processes.length := (List.getElem?_eq_some_iff.mp hh).1
  obtain ⟨hop, hat, how, hin⟩ := Supervisor.step_same hsv
  refine ⟨inv_setProcess hs hh (changeable_step hs hh hsv), rfl, rfl, rfl, rfl, ?_, ?_, ?_⟩
  · intro k x hx
    by_cases hkh : k = h
    · subst hkh
      rw [hh] at hx
      cases hx
      exact ⟨sv', List.getElem?_set_self hlt, hop, hat, how, hin,
        fun report code hx => Supervisor.step_exited hsv hx⟩
    · refine ⟨x, ?_, rfl, rfl, rfl, rfl, fun _ _ h => h⟩
      change (s.processes.set h sv')[k]? = some x
      rwa [List.getElem?_set_ne (fun e => hkh e.symm)]
  · intro x hx
    rcases List.mem_or_eq_of_mem_set hx with hx | rfl
    · exact ⟨x, hx, rfl⟩
    · exact ⟨sv, hmem, hop.symm⟩
  · refine Advances.of_commands rfl (fun _ _ h => h)
      (fun a => ⟨fun h => h, fun h => h, fun hc => ?_, fun _ => ?_⟩)
    · refine launchesOf_append s event.toList a (fun op hev => ?_)
      rcases Supervisor.step_event hsv (Option.mem_toList.mp hev) with ⟨heq, hi, -⟩ | ⟨r, heq⟩
      · cases heq
        exact hs.not_canLaunch hmem hc
          (Supervisor.canLaunch_of_reading (hs.coherent sv hmem) hi)
      · cases heq
    · refine authoredFor_append s event.toList a (fun kind hev => ?_)
      rcases Supervisor.step_event hsv (Option.mem_toList.mp hev) with ⟨heq, -, -⟩ | ⟨r, heq⟩
      · cases heq
      · cases heq

/-- The process as a crash of the thread `i` leaves it. -/
def Supervisor.orphan (i : ℕ) (sv : Supervisor) : Supervisor :=
  if sv.owner = i ∧ sv.stdin = .pending then { sv with stdin := .closed } else sv

theorem Supervisor.orphan_same (i : ℕ) (sv : Supervisor) :
    (sv.orphan i).operation = sv.operation ∧ (sv.orphan i).attempt = sv.attempt ∧
      (sv.orphan i).started = sv.started ∧ (sv.orphan i).tree = sv.tree ∧
      (sv.orphan i).outer = sv.outer := by
  unfold orphan
  split <;> exact ⟨rfl, rfl, rfl, rfl, rfl⟩

theorem Supervisor.orphan_coherent (i : ℕ) {sv : Supervisor} (hc : sv.Coherent) :
    (sv.orphan i).Coherent := by
  unfold orphan
  split
  · rename_i hp
    have hreq := hc.requested
    rw [hp.2] at hreq
    exact ⟨fun h => absurd (hreq h) (by simp), hc.absent, hc.alone, hc.unstarted, hc.helper,
      hc.refused, hc.completed⟩
  · exact hc

theorem Supervisor.orphan_canLaunch (i : ℕ) {sv : Supervisor} (h : (sv.orphan i).CanLaunch) :
    sv.CanLaunch := by
  unfold orphan at h
  split at h
  · exact absurd h.1 (by simp)
  · exact h

theorem crash_sound (i : ℕ) (hs : HostInv s) : HostInv (s.crash i) ∧ HostStep i s (s.crash i) := by
  have hmap : (s.crash i).processes = s.processes.map (Supervisor.orphan i) := rfl
  have hmem : ∀ x ∈ (s.crash i).processes, ∃ sv ∈ s.processes, sv.orphan i = x := by
    intro x hx
    rw [hmap] at hx
    exact List.mem_map.mp hx
  constructor
  · refine ⟨?_, ?_, ?_, ?_, ?_, ?_, hs.closed, hs.recorded, hs.ordered⟩
    · intro x hx
      obtain ⟨sv, hsv, rfl⟩ := hmem x hx
      obtain ⟨hop, hat, -⟩ := Supervisor.orphan_same i sv
      rw [hop, hat]
      exact hs.process sv hsv
    · intro k k' x x' hk hk' hop
      rw [hmap, List.getElem?_map, Option.map_eq_some_iff] at hk hk'
      obtain ⟨y, hy, rfl⟩ := hk
      obtain ⟨y', hy', rfl⟩ := hk'
      rw [(Supervisor.orphan_same i y).1, (Supervisor.orphan_same i y').1] at hop
      exact hs.unique k k' y y' hy hy' hop
    · intro x hx
      obtain ⟨sv, hsv, rfl⟩ := hmem x hx
      exact Supervisor.orphan_coherent i (hs.coherent sv hsv)
    · intro op a hl
      obtain ⟨sv, hsv, hop, hst⟩ := hs.launched op a hl
      obtain ⟨hop', -, hst', -⟩ := Supervisor.orphan_same i sv
      exact ⟨sv.orphan i, List.mem_map_of_mem hsv, hop'.trans hop, hst'.trans hst⟩
    · intro x hx r hr hset
      obtain ⟨sv, hsv, rfl⟩ := hmem x hx
      obtain ⟨hop, -, hst, htr, -⟩ := Supervisor.orphan_same i sv
      rw [hop] at hr
      obtain ⟨hn, ht, hns⟩ := hs.settled sv hsv r hr hset
      exact ⟨fun h => hn (Supervisor.orphan_canLaunch i h), htr.trans ht,
        fun h => hst.trans (hns h)⟩
    · intro x hx report code hout hst
      obtain ⟨sv, hsv, rfl⟩ := hmem x hx
      obtain ⟨hop, -, -, -, hou⟩ := Supervisor.orphan_same i sv
      rw [hop]
      exact hs.reported sv hsv report code (hou ▸ hout) hst
  · refine ⟨?_, fun _ _ => rfl, ?_, fun _ _ => ⟨rfl, rfl⟩, ?_, ?_, ?_⟩
    · intro n j hj
      change (if s.locks n = some i then none else s.locks n) = some j ↔ _
      split
      · rename_i hn
        rw [hn]
        simp [hj.symm]
      · exact Iff.rfl
    · intro op r hn hr
      exact absurd (hn.symm.trans hr) (by simp)
    · intro k sv hsv how
      rw [hmap, List.getElem?_map, hsv, Option.map_some, Supervisor.orphan,
        if_neg (fun h => how h.1)]
    · intro op _ hn x hx
      obtain ⟨sv, hsv, rfl⟩ := hmem x hx
      rw [(Supervisor.orphan_same i sv).1]
      exact hn sv hsv
    · exact Advances.of_commands rfl (fun _ _ h => h) (fun a => Fence.of_eq rfl rfl rfl rfl)

end Surroundings

end ProjectControl.Native
