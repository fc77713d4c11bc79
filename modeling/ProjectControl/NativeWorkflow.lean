import ProjectControl.CompactAtMostOnce

/-! The native workflow host: the guard that turns what an operation of the
authority raises into a reply. -/

set_option autoImplicit false

namespace ProjectControl.Compact

/-- What an operation of a session raises: an error of the host itself, a stale
revision, an error with a code of its own, or any other. -/
inductive NativeError where
  | workflow (code : String)
  | staleAuthorityRevision
  | coded (code : String)
  | other

/-- `_STALE_REVISION_SAFE_OPERATIONS`. -/
def Tool.staleRevisionSafe : Tool → Bool
  | .commitPlan | .openRun | .dispatchAttempt | .reportOutcome | .acceptOutcome
  | .rejectOutcome | .heartbeatAttempt | .resumeAttempt | .releaseAttempt | .closeRun
  | .retireRun | .resolveDecision | .publishInterface | .acceptCheckpoint | .releaseBarrier
  | .arriveRendezvous | .openBlocker | .clearBlocker => true
  | _ => false

/-- `_guarded`, with the reply that `invoke` makes of the error it raises. -/
def guarded (staleRevisionSafe : Bool) : Except NativeError Dict → Reply
  | .ok data => .ok data
  | .error (.workflow code) => .attention code
  | .error .staleAuthorityRevision =>
    -- after a provider has acted, the class of the error says nothing of a commit
    if staleRevisionSafe then .attention "stale_authority_revision"
    else .attention "native_operation_rejected"
  | .error (.coded code) =>
    if code = "" then .attention "native_operation_rejected" else .attention code
  | .error .other => .attention "native_operation_rejected"

/-- The operations of an authority's session. -/
structure Session (A : Type) where
  operate : A → Call → Input → A × Except NativeError Dict

/-- `NativeWorkflowHost.invoke`. -/
def nativeWorkflowHost {A : Type} (S : Session A) : NativeHost A where
  serve := fun a call v =>
    let out := S.operate a call v
    (out.1, guarded call.tool.staleRevisionSafe out.2)

namespace Authority

/-- A session that replays known keys and raises at a revision that is not current. -/
def session : Session Authority where
  operate := fun a call v =>
    match call.idempotencyKey, call.expectedRevision with
    | some key, some revision =>
      let body : Payload := ⟨call.tool, call.arguments⟩
      match a.known key body with
      | some result => (a, .ok result.1)
      | none =>
        if revision ≠ a.revision then (a, .error .staleAuthorityRevision)
        else (a.commit key body v, .ok (offered v).1)
    | _, _ =>
      (a, if call.tool = .readAuthority then .ok [("semantic_revision", .num a.revision)]
        else match v.reply with
          | .ok data => .ok data
          | .attention reason => .error (.coded reason)
          | .raised => .error .other)

end Authority

/-- The native host over the authority. -/
def authorityHost : NativeHost Authority := nativeWorkflowHost Authority.session

variable {a : Authority} {payload : Payload} {key : Key} {revision : ℕ}
variable (project repository : String) (v : Input)

/-- A request with the current revision or with a known key is accepted. -/
theorem authorityHost_accepts (h : revision = a.revision ∨ (a.known key payload).isSome) :
    ∃ (a' : Authority) (result : CommitResult), authorityHost.serve a
      ⟨payload.tool, project, repository, payload.arguments, some key, some revision⟩ v =
        (a', .ok result.1) := by
  cases hk : a.known key payload with
  | some result =>
    refine ⟨a, result, ?_⟩
    simp only [authorityHost, nativeWorkflowHost, Authority.session, hk]
    rfl
  | none =>
    have hr : revision = a.revision := by
      rcases h with h | h
      · exact h
      · rw [hk] at h
        cases h
    refine ⟨a.commit key payload v, Authority.offered v, ?_⟩
    simp only [authorityHost, nativeWorkflowHost, Authority.session, hk, hr, ne_eq,
      not_true_eq_false, if_false]
    rfl

/-- Any other request changes nothing, and for a tool that is not in the list the
refusal does not say why. -/
theorem authorityHost_refuses (hk : a.known key payload = none) (hr : revision ≠ a.revision)
    (ht : payload.tool.staleRevisionSafe = false) :
    authorityHost.serve a
      ⟨payload.tool, project, repository, payload.arguments, some key, some revision⟩ v =
        (a, .attention "native_operation_rejected") := by
  simp only [authorityHost, nativeWorkflowHost, Authority.session, hk, hr, ht, ne_eq,
    not_false_eq_true, if_true]
  rfl

end ProjectControl.Compact
