import Mathlib

/-! The cutover of an installation: steps that are applied in order, and what is rolled back when
one of them fails. -/

set_option autoImplicit false

namespace ProjectControl.Installer

section Cutover

abbrev Command := List String

structure CutoverStep where
  apply : Command
  rollback : Command

/-- What a call of the runner comes to. -/
inductive Outcome (ε : Type*) where
  | returned (returncode : ℤ)
  | raised (error : ε)

/-- A runner may answer by all commands that it was given before. -/
abbrev Runner (ε : Type*) := List Command → Command → Outcome ε

inductive Failure (ε : Type*) where
  | unauthorized
  | step (command : Command)
  | incomplete (failures : List String)
  | raised (error : ε)

variable {ε : Type*}

def joined (command : Command) : String := String.intercalate " " command

/-- The text of an `InstallError`. -/
def Failure.message (repr : List String → String) : Failure ε → Option String
  | .unauthorized => some "live installation requires explicit authority_to_install"
  | .step command => some ("cutover step failed: " ++ joined command)
  | .incomplete failures =>
    some ("cutover failed and rollback was incomplete: " ++ repr failures)
  | .raised _ => none

/-- The commands of a run in the order of the calls, and what it ends with. -/
structure Execution (ε α : Type*) where
  calls : List Command
  result : Except (Failure ε) α

variable (runner : Runner ε)

/-- The steps up to the first that fails: what was applied, the calls, and the failure. -/
def applySteps : List CutoverStep → List CutoverStep → List Command →
    List CutoverStep × List Command × Option (Failure ε)
  | [], applied, calls => (applied, calls, none)
  | step :: rest, applied, calls =>
    match runner calls step.apply with
    | .raised error => (applied, calls ++ [step.apply], some (.raised error))
    | .returned returncode =>
      if returncode ≠ 0 then (applied, calls ++ [step.apply], some (.step step.apply))
      else applySteps rest (applied ++ [step]) (calls ++ [step.apply])

/-- The handler's loop. What the runner raises leaves it. -/
def rollbackSteps : List CutoverStep → List String → List Command → Execution ε (List String)
  | [], failures, calls => ⟨calls, .ok failures⟩
  | step :: rest, failures, calls =>
    match runner calls step.rollback with
    | .raised error => ⟨calls ++ [step.rollback], .error (.raised error)⟩
    | .returned returncode =>
      rollbackSteps rest
        (if returncode ≠ 0 then failures ++ [joined step.rollback] else failures)
        (calls ++ [step.rollback])

/-- `AtomicCutover.execute`. -/
def execute (steps : List CutoverStep) (authorityToInstall : Bool) : Execution ε Unit :=
  if !authorityToInstall then ⟨[], .error .unauthorized⟩
  else
    match applySteps runner steps [] [] with
    | (_, calls, none) => ⟨calls, .ok ()⟩
    | (applied, calls, some failure) =>
      let restored := rollbackSteps runner applied.reverse [] calls
      match restored.result with
      | .error raised => ⟨restored.calls, .error raised⟩
      | .ok [] => ⟨restored.calls, .error failure⟩
      | .ok failures => ⟨restored.calls, .error (.incomplete failures)⟩

end Cutover

section Rollback

variable {ε : Type*} (runner : Runner ε)

/-- The commands with their outcomes when all of them are run one after the other. -/
def outcomes : List Command → List Command → List (Command × Outcome ε)
  | _, [] => []
  | calls, command :: rest =>
    (command, runner calls command) :: outcomes (calls ++ [command]) rest

/-- The applied steps succeed, and the next one does not. -/
structure Fails (steps applied : List CutoverStep) (failing : CutoverStep) : Prop where
  starts : applied ++ [failing] <+: steps
  succeed : ∀ o ∈ outcomes runner [] (applied.map CutoverStep.apply), o.2 = .returned 0
  fails : runner (applied.map CutoverStep.apply) failing.apply ≠ .returned 0

def applyCalls (applied : List CutoverStep) (failing : CutoverStep) : List Command :=
  applied.map CutoverStep.apply ++ [failing.apply]

/-- The rollbacks of the applied steps in reverse order. -/
def rollbackCalls (applied : List CutoverStep) : List Command :=
  applied.reverse.map CutoverStep.rollback

def rollbackOutcomes (applied : List CutoverStep) (failing : CutoverStep) :
    List (Command × Outcome ε) :=
  outcomes runner (applyCalls applied failing) (rollbackCalls applied)

/-- An error that names the rollback. -/
def Reports (failure : Failure ε) (rollback : Command) : Prop :=
  ∃ failures, failure = .incomplete failures ∧ joined rollback ∈ failures

/-- A cutover that does not complete attempts the rollback of all that was applied, once each, in
reverse order and without any other, and reports the rollbacks that failed. -/
def RollsBack (steps : List CutoverStep) (authorityToInstall : Bool) : Prop :=
  ∀ failure, (execute runner steps authorityToInstall).result = .error failure →
    (authorityToInstall = false ∧ (execute runner steps authorityToInstall).calls = []) ∨
      ∃ applied failing, Fails runner steps applied failing ∧
        (execute runner steps authorityToInstall).calls =
          applyCalls applied failing ++ rollbackCalls applied ∧
        ∀ rollback outcome, (rollback, outcome) ∈ rollbackOutcomes runner applied failing →
          outcome ≠ .returned 0 → Reports failure rollback

/-- No rollback that is due raises. -/
def RollbacksReturn (steps : List CutoverStep) : Prop :=
  ∀ applied failing, Fails runner steps applied failing →
    ∀ command error, (command, .raised error) ∉ rollbackOutcomes runner applied failing

end Rollback

section Runs

variable {ε : Type*} {runner : Runner ε} {steps applied applied' : List CutoverStep}
  {failing failing' : CutoverStep} {calls xs ys : List Command}

theorem raised_ne_returned (error : ε) (returncode : ℤ) :
    Outcome.raised error ≠ .returned returncode := nofun

theorem outcomes_append : outcomes runner calls (xs ++ ys) =
    outcomes runner calls xs ++ outcomes runner (calls ++ xs) ys := by
  induction xs generalizing calls with
  | nil => rw [List.nil_append, List.append_nil, outcomes, List.nil_append]
  | cons command rest ih =>
    rw [List.cons_append, outcomes, outcomes, ih, List.cons_append, List.append_assoc]
    rfl

/-- One more step that succeeds. -/
theorem succeed_append (h : ∀ o ∈ outcomes runner [] (applied.map CutoverStep.apply),
      o.2 = .returned 0) {step : CutoverStep}
    (hstep : runner (applied.map CutoverStep.apply) step.apply = .returned 0) :
    ∀ o ∈ outcomes runner [] ((applied ++ [step]).map CutoverStep.apply), o.2 = .returned 0 := by
  rw [List.map_append, List.map_singleton, outcomes_append]
  intro o ho
  rcases List.mem_append.mp ho with ho | ho
  · exact h o ho
  · rw [outcomes, outcomes, List.mem_singleton] at ho
    rw [ho]
    exact hstep

/-- What the loop over the steps leaves when one of them fails. -/
theorem applySteps_failure {rest : List CutoverStep} {failure : Failure ε}
    (h : applySteps runner rest applied (applied.map CutoverStep.apply) =
      (applied', calls, some failure))
    (hsucceed : ∀ o ∈ outcomes runner [] (applied.map CutoverStep.apply), o.2 = .returned 0) :
    ∃ failing, Fails runner (applied ++ rest) applied' failing ∧
      calls = applyCalls applied' failing := by
  induction rest generalizing applied with
  | nil => cases h
  | cons step rest ih =>
    have hhere : applied ++ [step] <+: applied ++ step :: rest := ⟨rest, by
      rw [List.append_assoc, List.singleton_append]⟩
    rw [applySteps] at h
    cases houtcome : runner (applied.map CutoverStep.apply) step.apply with
    | raised error =>
      rw [houtcome] at h
      cases h
      refine ⟨step, ⟨hhere, hsucceed, ?_⟩, rfl⟩
      rw [houtcome]
      exact raised_ne_returned error 0
    | returned returncode =>
      simp only [houtcome] at h
      split_ifs at h with hcode
      · cases h
        refine ⟨step, ⟨hhere, hsucceed, ?_⟩, rfl⟩
        rw [houtcome]
        exact fun heq => hcode (Outcome.returned.inj heq)
      · -- the step is applied, and the loop goes on behind it
        have hzero : returncode = 0 := not_not.mp hcode
        have hstep : runner (applied.map CutoverStep.apply) step.apply = .returned 0 := by
          rw [houtcome, hzero]
        have hmap : applied.map CutoverStep.apply ++ [step.apply] =
            (applied ++ [step]).map CutoverStep.apply := by
          rw [List.map_append, List.map_singleton]
        rw [hmap] at h
        obtain ⟨failing, hfails, hcalls⟩ := ih h (succeed_append hsucceed hstep)
        rw [List.append_assoc, List.singleton_append] at hfails
        exact ⟨failing, hfails, hcalls⟩

/-- Steps that succeed are applied one after the other. -/
theorem applySteps_append {rest : List CutoverStep} (h : ∀ o ∈ outcomes runner calls
      (applied'.map CutoverStep.apply), o.2 = .returned 0) :
    applySteps runner (applied' ++ rest) applied calls =
      applySteps runner rest (applied ++ applied') (calls ++ applied'.map CutoverStep.apply) := by
  induction applied' generalizing applied calls with
  | nil => rw [List.nil_append, List.append_nil, List.map_nil, List.append_nil]
  | cons step applied' ih =>
    rw [List.map_cons, outcomes, List.forall_mem_cons] at h
    obtain ⟨hstep, hrest⟩ := h
    rw [List.cons_append, applySteps, show runner calls step.apply = .returned 0 from hstep]
    simp only [ne_eq, not_true_eq_false, if_false]
    rw [ih hrest, List.append_assoc, List.append_assoc, List.map_cons]
    rfl

theorem applySteps_of_fails (h : Fails runner steps applied failing) :
    ∃ failure, applySteps runner steps [] [] =
      (applied, applyCalls applied failing, some failure) := by
  obtain ⟨rest, rfl⟩ := h.starts
  rw [List.append_assoc, applySteps_append h.succeed, List.singleton_append, applySteps,
    List.nil_append, List.nil_append]
  have hfails := h.fails
  cases houtcome : runner (applied.map CutoverStep.apply) failing.apply with
  | raised error => exact ⟨_, rfl⟩
  | returned returncode =>
    have hcode : returncode ≠ 0 := by
      rintro rfl
      exact hfails houtcome
    simp only [ne_eq, hcode, not_false_eq_true, if_true]
    exact ⟨_, rfl⟩

theorem Fails.unique (h : Fails runner steps applied failing)
    (h' : Fails runner steps applied' failing') : applied' = applied ∧ failing' = failing := by
  obtain ⟨failure, hsteps⟩ := applySteps_of_fails h
  obtain ⟨failure', hsteps'⟩ := applySteps_of_fails h'
  rw [hsteps'] at hsteps
  have heq : applied' = applied := congrArg Prod.fst hsteps
  refine ⟨heq, ?_⟩
  have hfirst : applied ++ [failing] <+: steps := h.starts
  have hfirst' : applied ++ [failing'] <+: steps := heq ▸ h'.starts
  have hlength : (applied ++ [failing']).length = (applied ++ [failing]).length := by
    rw [List.length_append, List.length_append]
    rfl
  have hsame := (List.prefix_of_prefix_length_le hfirst' hfirst hlength.le).eq_of_length hlength
  exact List.singleton_inj.mp (List.append_cancel_left hsame)

/-- Rollbacks that return are all attempted, and the failed ones are listed. -/
theorem rollbackSteps_returned {due : List CutoverStep} (failures : List String)
    (h : ∀ command error, (command, .raised error) ∉
      outcomes runner calls (due.map CutoverStep.rollback)) :
    ∃ failures', rollbackSteps runner due failures calls =
        ⟨calls ++ due.map CutoverStep.rollback, .ok failures'⟩ ∧
      (∀ text ∈ failures, text ∈ failures') ∧
      (∀ command outcome, (command, outcome) ∈
          outcomes runner calls (due.map CutoverStep.rollback) → outcome ≠ .returned 0 →
        joined command ∈ failures') := by
  induction due generalizing calls failures with
  | nil =>
    refine ⟨failures, ?_, fun _ htext => htext, fun _ _ hmem => nomatch hmem⟩
    rw [rollbackSteps, List.map_nil, List.append_nil]
  | cons step due ih =>
    rw [List.map_cons, outcomes] at h ⊢
    rw [rollbackSteps]
    cases houtcome : runner calls step.rollback with
    | raised error =>
      rw [houtcome] at h
      exact absurd List.mem_cons_self (h step.rollback error)
    | returned returncode =>
      simp only []
      obtain ⟨failures', heq, hkept, hlisted⟩ := ih
        (if returncode ≠ 0 then failures ++ [joined step.rollback] else failures)
        (fun command error hmem => h command error (List.mem_cons_of_mem _ hmem))
      refine ⟨failures', ?_, fun text htext => hkept text ?_, ?_⟩
      · rw [heq, List.append_assoc, List.singleton_append]
      · split_ifs
        · exact List.mem_append_left _ htext
        · exact htext
      · intro command outcome hmem hfailed
        rcases List.mem_cons.mp hmem with hhead | hrest
        · obtain ⟨rfl, rfl⟩ := Prod.mk.inj hhead
          have hcode : returncode ≠ 0 := fun hzero => hfailed (by rw [hzero])
          apply hkept
          rw [if_pos hcode]
          exact List.mem_append_right _ (List.mem_singleton_self _)
        · exact hlisted command outcome hrest hfailed

/-- A rollback that raises ends the handler with what was raised. -/
theorem rollbackSteps_raised {due : List CutoverStep} (failures : List String)
    {command : Command} {error : ε} (h : (command, .raised error) ∈
      outcomes runner calls (due.map CutoverStep.rollback)) :
    ∃ raised, (rollbackSteps runner due failures calls).result = .error (.raised raised) := by
  induction due generalizing calls failures with
  | nil => cases h
  | cons step due ih =>
    rw [List.map_cons, outcomes] at h
    rw [rollbackSteps]
    cases houtcome : runner calls step.rollback with
    | raised raised => exact ⟨raised, rfl⟩
    | returned returncode =>
      rw [houtcome] at h
      rcases List.mem_cons.mp h with hhead | hrest
      · cases (Prod.mk.inj hhead).2
      · exact ih _ hrest

end Runs

section Theorem

variable {ε : Type*} {runner : Runner ε} {steps : List CutoverStep} {authorityToInstall : Bool}

theorem rollsBack_of_return (h : authorityToInstall = true → RollbacksReturn runner steps) :
    RollsBack runner steps authorityToInstall := by
  intro failure hfailure
  cases authorityToInstall with
  | false => exact .inl ⟨rfl, rfl⟩
  | true =>
    refine .inr ?_
    rcases hsteps : applySteps runner steps [] [] with ⟨applied, calls, ended⟩
    simp only [execute, hsteps, Bool.not_true, Bool.false_eq_true, if_false] at hfailure ⊢
    cases ended with
    | none => cases hfailure
    | some ended =>
      obtain ⟨failing, hfails, rfl⟩ := applySteps_failure hsteps fun _ ho => nomatch ho
      rw [List.nil_append] at hfails
      obtain ⟨failures, hrestored, -, hlisted⟩ :=
        rollbackSteps_returned [] (h rfl applied failing hfails)
      simp only [hrestored] at hfailure ⊢
      refine ⟨applied, failing, hfails, ?_⟩
      cases failures with
      | nil =>
        exact ⟨rfl, fun rollback outcome hmem hfailed =>
          (nomatch hlisted rollback outcome hmem hfailed)⟩
      | cons text failures =>
        cases hfailure
        exact ⟨rfl, fun rollback outcome hmem hfailed =>
          ⟨text :: failures, rfl, hlisted rollback outcome hmem hfailed⟩⟩

/-- Exactly if no rollback that is due raises, the cutover rolls back all that it applied. -/
theorem rollsBack_iff : RollsBack runner steps authorityToInstall ↔
    (authorityToInstall = true → RollbacksReturn runner steps) := by
  refine ⟨?_, rollsBack_of_return⟩
  rintro h rfl applied failing hfails command error hmem
  obtain ⟨failure, hsteps⟩ := applySteps_of_fails hfails
  obtain ⟨raised, hraised⟩ := rollbackSteps_raised [] hmem
  have hresult : (execute runner steps true).result = .error (.raised raised) := by
    simp only [execute, hsteps, Bool.not_true, Bool.false_eq_true, if_false, hraised]
  rcases h _ hresult with ⟨hauthority, -⟩ | ⟨applied', failing', hfails', -, hreports⟩
  · cases hauthority
  · obtain ⟨rfl, rfl⟩ := hfails.unique hfails'
    obtain ⟨failures, hfailures, -⟩ := hreports command (.raised error) hmem
      (raised_ne_returned error 0)
    cases hfailures

def threeSteps : List CutoverStep :=
  [⟨["apply-1"], ["undo-1"]⟩, ⟨["apply-2"], ["undo-2"]⟩, ⟨["apply-3"], ["undo-3"]⟩]

/-- The third step fails, and the command that undoes the second one is missing. -/
def missingCommand : Runner String := fun _ command =>
  if command = ["apply-3"] then .returned 1
  else if command = ["undo-2"] then .raised "FileNotFoundError"
  else .returned 0

/-- The first step stays applied. -/
theorem missing_command_stops_rollback : ¬RollsBack missingCommand threeSteps true := by
  intro h
  have hcalls : (execute missingCommand threeSteps true).calls =
      [["apply-1"], ["apply-2"], ["apply-3"], ["undo-2"]] := by decide
  rcases h (.raised "FileNotFoundError") rfl with ⟨hauthority, -⟩ | ⟨applied, failing, -, heq, -⟩
  · cases hauthority
  · -- one apply more than there are rollbacks: an odd number of calls
    have hlength := congrArg List.length (hcalls.symm.trans heq)
    simp only [applyCalls, rollbackCalls, List.length_cons, List.length_nil, List.length_append,
      List.length_map, List.length_reverse] at hlength
    omega

end Theorem

end ProjectControl.Installer
