import Mathlib
import ProjectControl.Values

/-! What the Device Scheduler answers, and what a call of its client makes of an answer. -/

set_option autoImplicit false

namespace ProjectControl.Scheduler

open Values

section Numbers

/-- What Python fixes: the texts of values, case folding, and
`str(int(float(v) / (1024 * 1024)))` where it raises nothing. -/
structure Python where
  str : Value → String
  str_text : ∀ s, str (.str s) = s
  casefold : String → String
  mebibytes : Value → Option String

/-- The double next to a natural number, ties to even; `none` beyond the largest one. -/
def roundNat (n : ℕ) : Option ℕ :=
  let e := n.log2 - 52
  let half := 2 ^ e / 2
  let q := n / 2 ^ e
  let r := n % 2 ^ e
  let rounded := if e ≠ 0 ∧ (half < r ∨ half = r ∧ q % 2 = 1) then (q + 1) * 2 ^ e else q * 2 ^ e
  if rounded.log2 < 1024 then some rounded else none

/-- `float` of an integer; `none` where it raises `OverflowError`. -/
def roundInt : ℤ → Option ℚ
  | .ofNat n => (roundNat n).map (fun m => (m : ℚ))
  | .negSucc n => (roundNat (n + 1)).map (fun m => -(m : ℚ))

end Numbers

section Calls

/-- `DeviceSchedulerError`, its subclasses, and what else comes out of the facade. -/
inductive Error
  | scheduler (code : String)
  | noGrant (code : String)
  | unsupported (code : String)
  | pending (code : String)
  | overflow
  | unhashable
  | key (name : String)
  deriving DecidableEq

/-- What the client does when an operation is called. -/
inductive Answer
  | value (v : Value)
  | schedulerError (code : String)
  | exception (code : Option String) (name : String)

def conflicts : List String :=
  ["conflict", "resource_conflict", "admission_denied", "idempotency_conflict"]

/-- `_call`. -/
def call (py : Python) (operation : String) : Answer → Except Error Fields
  | .schedulerError code => throw (if code ∈ conflicts then .noGrant code else .scheduler code)
  | .exception code name =>
    match code with
    | none => throw (.scheduler (operation ++ "_failed_" ++ name))
    | some code =>
      if code ∈ conflicts then throw (.noGrant code)
      else throw (.scheduler (operation ++ "_failed_" ++ if code = "" then name else code))
  | .value (.obj result) =>
    match result.lookup "error" with
    | some (.obj error) =>
      let code := ((error.lookup "code").map py.str).getD "operation_failed"
      if code ∈ conflicts then throw (.noGrant code)
      else throw (.scheduler (operation ++ " failed (" ++ code ++ ")"))
    | _ => pure result
  | .value _ =>
    throw (.scheduler ("Device Scheduler returned an invalid " ++ operation ++ " response"))

/-- A mapping that is the answer and holds no error mapping. -/
def Answer.Replies (answer : Answer) (result : Fields) : Prop :=
  answer = .value (.obj result) ∧ ∀ error, result.lookup "error" ≠ some (.obj error)

theorem call_eq_ok {py : Python} {operation : String} {answer : Answer} {result : Fields} :
    call py operation answer = .ok result ↔ answer.Replies result := by
  unfold Answer.Replies
  constructor
  · intro h
    unfold call at h
    split at h
    · cases h
    · split at h
      · cases h
      · split at h <;> cases h
    · split at h
      · dsimp only at h
        split at h <;> cases h
      · rename_i fields herror
        cases h
        exact ⟨rfl, fun error he => herror error he⟩
    · cases h
  · rintro ⟨rfl, herror⟩
    unfold call
    dsimp only
    split
    · rename_i error he
      exact absurd he (herror error)
    · rfl

/-- A call raises a conflict or a plain error, never anything else. -/
theorem call_error {py : Python} {operation : String} {answer : Answer} {e : Error}
    (h : call py operation answer = .error e) :
    (∃ code, e = .noGrant code) ∨ ∃ code, e = .scheduler code := by
  unfold call at h
  split at h
  · cases h
    split
    · exact .inl ⟨_, rfl⟩
    · exact .inr ⟨_, rfl⟩
  · split at h
    · cases h
      exact .inr ⟨_, rfl⟩
    · split at h
      · cases h
        exact .inl ⟨_, rfl⟩
      · cases h
        exact .inr ⟨_, rfl⟩
  · split at h
    · dsimp only at h
      split at h
      · cases h
        exact .inl ⟨_, rfl⟩
      · cases h
        exact .inr ⟨_, rfl⟩
    · cases h
  · cases h
    exact .inr ⟨_, rfl⟩

end Calls

end ProjectControl.Scheduler
