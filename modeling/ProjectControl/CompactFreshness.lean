import ProjectControl.CompactClient

/-! When a repeated gate or inbox call is answered afresh: the request of a gate is named
by its requirement only, and that of a coordinate action by its payload. -/

set_option autoImplicit false

namespace ProjectControl.Compact

open Resumption Resumption.Spec

/-- A gate call got this verdict of a requirement: the authority answered with it, or
the client was told it. -/
def Verdict (requirement : String) (d : Dict) (s : World ReplayAuthority) : Prop :=
  (∃ m ∈ s.sent, m.payload.verifies = some requirement ∧ m.reply = .ok d) ∨
    ∃ e ∈ s.native.log, e.response.reports requirement d

section Sessions

variable {finds : ℕ → Payload → Input → CommitResult} {c : Codec} {h : Handle} {tidy : Prop}
variable {p q r : Pool Unit (World ReplayAuthority) Input Label Err Unit}

/-- What is recorded stays recorded along a session. -/
theorem recorded_reach {name : PhaseName} {d : Dict} (hp : (sessionSpec h tidy).PoolSafe p)
    (hq : (sessionSystem finds c h).Reach System.anyStep p q)
    (hd : Recorded h name d p.shared) : Recorded h name d q.shared ∧
      ∀ requirement, name = .verify requirement →
        q.shared.native.verifications requirement = p.shared.native.verifications requirement := by
  have hrel := reach_related (T := fun s s' => Recorded h name d s → Recorded h name d s' ∧
      ∀ requirement, name = .verify requirement →
        s'.native.verifications requirement = s.native.verifications requirement)
    (sessionSystem_sound (c := c) (h := h))
    (fun s hd => ⟨hd, fun _ _ => rfl⟩) ?_ ?_ ?_ hp hq
  · exact hrel hd
  · intro s₁ s₂ s₃ h₁ h₂ hd
    obtain ⟨hd₂, hr₂⟩ := h₁ hd
    obtain ⟨hd₃, hr₃⟩ := h₂ hd₂
    exact ⟨hd₃, fun requirement hn => (hr₃ requirement hn).trans (hr₂ requirement hn)⟩
  · rintro - s s' (rfl | hs) hd
    · exact ⟨hd, fun _ _ => rfl⟩
    · exact hs.keeps hd
  · rintro s s' ⟨present, revision, rfl⟩ hd
    exact ⟨hd, fun _ _ => rfl⟩

theorem SessionInv.verdict {s : World ReplayAuthority} (hs : SessionInv h tidy s)
    {requirement : String} {d : Dict} (hd : Verdict requirement d s) :
    Recorded h (.verify requirement) d s := by
  rcases hd with ⟨m, hm, hv, hr⟩ | ⟨e, he, hr⟩
  · exact hs.answered m hm requirement d hv hr
  · exact hs.reported e he requirement d hr

end Sessions

/-- Once a gate call of a handle got a verdict of a requirement, every gate call gets
this verdict again, and the requirement is never verified again, whatever is edited. -/
theorem verdicts_are_replayed (finds : ℕ → Payload → Input → CommitResult) (c : Codec)
    (h : Handle) {p q r : Pool Unit (World ReplayAuthority) Input Label Err Unit}
    (hidle : p.threads () = none) (hsent : p.shared.sent = []) (hlog : p.shared.native.log = [])
    (hq : (sessionSystem finds c h).Reach System.anyStep p q)
    (hr : (sessionSystem finds c h).Reach System.anyStep q r) {requirement : String} {d : Dict}
    (hd : Verdict requirement d q.shared) :
    (∀ d', Verdict requirement d' r.shared → d' = d) ∧
      r.shared.native.verifications requirement = q.shared.native.verifications requirement := by
  have hinv : SessionInv h False p.shared :=
    ⟨fun m hm => by simp [hsent] at hm, fun e he => by simp [hlog] at he, False.elim⟩
  have hsafe : (sessionSpec h False).PoolSafe p := poolSafe_of_idle hinv (fun _ => hidle)
  have hsafeq := poolSafe_reach sessionSystem_sound hsafe hq
  have hsafer := poolSafe_reach sessionSystem_sound hsafeq hr
  obtain ⟨hd', hran⟩ := recorded_reach hsafeq hr (hsafeq.1.verdict hd)
  exact ⟨fun d' hv => (hsafer.1.verdict hv).unique hd', hran requirement rfl⟩

section Runs

/-- A mutation results in what the authority finds. -/
def findsPresent (present : ℕ) (_ : Payload) (_ : Input) : CommitResult :=
  ⟨[("present", .num present)], rfl⟩

def gatedRecord : Record where
  phase := some .active
  attemptId := some "A1"
  requirementIds := some ["tests"]

def sessionPool : Pool Unit (World ReplayAuthority) Input Label Err Unit where
  shared := { journal := [.workflow "wf" "atlas" "main" gatedRecord],
              native := { revision := 5, present := 0 } }
  threads := fun _ => none

/-- A call that makes so many steps. -/
def callSteps (call : SessionCall) (steps : ℕ) : List (Action Unit Input SessionCall Change) :=
  .start () call :: List.replicate steps (.act () answered)

def verifyTests : SessionCall := .coordinate .verify [("requirement_id", .str "tests")]

/-- The verdicts that the client was told. -/
def ReplayAuthority.told (a : ReplayAuthority) : List (String × Dict) :=
  a.log.flatMap (fun e => match e.response with
    | .verified results _ => results
    | _ => [])

theorem verdict_of_told {requirement : String} {d : Dict} {s : World ReplayAuthority}
    (hd : (requirement, d) ∈ s.native.told) : Verdict requirement d s := by
  obtain ⟨e, he, hmem⟩ := List.mem_flatMap.mp hd
  refine Or.inr ⟨e, he, ?_⟩
  revert hmem
  cases e.response with
  | verified results handle => exact id
  | _ => exact fun hmem => by cases hmem

def presentZero : Dict := [("present", .num 0)]

/-- Gates are verified, the source is edited and the gates are verified again: the
client is told the verdict of the old source, and only that source was ever verified. -/
theorem edited_source_gets_the_old_verdict :
    ∃ q r, (sessionSystem findsPresent .small "wf").Reach System.anyStep sessionPool q ∧
      (sessionSystem findsPresent .small "wf").Reach System.anyStep q r ∧
      q.shared.native.present = 0 ∧ q.shared.native.told = [("tests", presentZero)] ∧
      r.shared.native.present = 1 ∧
      r.shared.native.told = [("tests", presentZero), ("tests", presentZero)] ∧
      r.shared.native.executed.map Execution.present = [0] := by
  obtain ⟨q, r, hq, hr, hf⟩ := System.exists_reach_pair
    (sessionSystem findsPresent .small "wf") System.anyStep (callSteps verifyTests 7)
    (.env (.edit 1) :: callSteps verifyTests 5) (p := sessionPool) (f := fun q r => decide (
      q.shared.native.present = 0 ∧ q.shared.native.told = [("tests", presentZero)] ∧
      r.shared.native.present = 1 ∧
      r.shared.native.told = [("tests", presentZero), ("tests", presentZero)] ∧
      r.shared.native.executed.map Execution.present = [0])) (b := true) (by decide +kernel)
  exact ⟨q, r, hq, hr, of_decide_eq_true hf⟩

theorem edited_source_is_not_verified :
    ∃ q r, (sessionSystem findsPresent .small "wf").Reach System.anyStep sessionPool q ∧
      (sessionSystem findsPresent .small "wf").Reach System.anyStep q r ∧
      q.shared.native.present ≠ r.shared.native.present ∧
      ((∀ d', Verdict "tests" d' r.shared → d' = presentZero) ∧
        r.shared.native.verifications "tests" = q.shared.native.verifications "tests") := by
  obtain ⟨q, r, hq, hr, hf⟩ := System.exists_reach_pair
    (sessionSystem findsPresent .small "wf") System.anyStep (callSteps verifyTests 7)
    (.env (.edit 1) :: callSteps verifyTests 5) (p := sessionPool)
    (f := fun q r => decide (q.shared.native.told = [("tests", presentZero)] ∧
      q.shared.native.present ≠ r.shared.native.present)) (b := true) (by decide +kernel)
  have hf := of_decide_eq_true hf
  have hverdict : Verdict "tests" presentZero q.shared := by
    apply verdict_of_told
    rw [hf.1]
    exact List.mem_singleton_self _
  exact ⟨q, r, hq, hr, hf.2,
    verdicts_are_replayed findsPresent .small "wf" rfl rfl rfl hq hr hverdict⟩

end Runs

/-- A handle for which no coordinate action was requested yet. -/
structure NewlyActive (h : Handle) (s : World ReplayAuthority) : Prop where
  unsent : s.sent = []
  unanswered : s.native.log = []
  unexecuted : s.native.executed = []
  unknown : ∀ actionId key, PhaseKey h (.coordinate actionId) key →
    s.native.results key = none
  unrequested : ∀ actionId, s.intent h (.coordinate actionId) = none
  others : ∀ name i, s.intent h name = some i →
    ∀ actionId, ¬ PhaseKey h (.coordinate actionId) i.idempotencyKey
  unfinished : ∀ p r data, s.journal.record h = some (p, r, data) → PlainKeys h data
  unoperated : ∀ p r data, s.journal.record h = some (p, r, data) → data.operations = none

theorem NewlyActive.inv {h : Handle} {s : World ReplayAuthority} (hs : NewlyActive h s) :
    SessionInv h True s := by
  refine ⟨fun m hm => ?_, fun e he => ?_, fun _ => ⟨fun name i hi actionId => ?_,
    fun actionId key hk hne => absurd (hs.unknown actionId key hk) hne,
    fun actionId x hx => ?_, hs.unfinished, fun p r data operations ho hops => ?_,
    fun e he => ?_⟩⟩
  · simp [hs.unsent] at hm
  · simp [hs.unanswered] at he
  · refine iff_of_false (hs.others name i hi actionId) ?_
    rintro rfl
    cases (hs.unrequested actionId).symm.trans hi
  · simp [hs.unexecuted] at hx
  · cases (hs.unoperated p r data ho).symm.trans hops
  · simp [hs.unanswered] at he

/-- A sync that is answered has the authority read the inbox anew exactly if the authority
has not read it before for an equal payload, and all syncs with equal payloads are
answered with the same messages. -/
theorem sync_reads_anew_iff (finds : ℕ → Payload → Input → CommitResult) (c : Codec)
    (h : Handle) {p q : Pool Unit (World ReplayAuthority) Input Label Err Unit}
    (hidle : p.threads () = none) (hnew : NewlyActive h p.shared)
    (hq : (sessionSystem finds c h).Reach System.anyStep p q) {e : Exchange}
    (he : e ∈ q.shared.native.log) {fields d : Dict} (hd : e.carried ⟨.sync, fields⟩ d) :
    ((∃ x, e.ended = x :: e.began ∧ x.payload.tool = .syncInbox ∧ x.result = d ∧
        ∀ y ∈ e.began, y.key ≠ x.key) ↔
      ∀ y ∈ e.began, ¬ PhaseKey h (.coordinate ⟨.sync, fields⟩) y.key) ∧
    ∀ e' ∈ q.shared.native.log, ∀ d', e'.carried ⟨.sync, fields⟩ d' → d' = d := by
  have hsafe : (sessionSpec h True).PoolSafe p := poolSafe_of_idle hnew.inv (fun _ => hidle)
  have hproper := (poolSafe_reach sessionSystem_sound hsafe hq).1.proper trivial
  obtain ⟨hrec, hcarried⟩ := hproper.carried e he _ d hd
  refine ⟨⟨?_, fun hn => ?_⟩, fun e' he' d' hd' => ?_⟩
  · rintro ⟨x, hx, -⟩
    rcases hcarried with ⟨-, hsame⟩ | ⟨hn, -⟩
    · have hlen := congrArg List.length (hx.symm.trans hsame)
      simp at hlen
    · exact hn
  · rcases hcarried with ⟨⟨y, hy, hk⟩, -⟩ | ⟨-, x, hx, hk, hr, htool⟩
    · exact absurd hk (hn y hy)
    · refine ⟨x, hx, htool rfl, hr, fun y hy hkey => ?_⟩
      exact hn y hy (hkey ▸ hk)
  · exact (hproper.carried e' he' _ d' hd').1.unique hrec

section Inbox

/-- The payload of a sync that was answered, and the messages. -/
def Exchange.syncs (e : Exchange) : Option (Dict × Dict) :=
  match e.call, e.response with
  | .coordinate .sync fields, .coordinated .sync _ (some d) => some (fields, d)
  | _, _ => none

theorem carried_of_syncs {e : Exchange} {fields d : Dict} (he : e.syncs = some (fields, d)) :
    e.carried ⟨.sync, fields⟩ d := by
  unfold Exchange.syncs at he
  split at he
  · rename_i hcall hresponse
    cases he
    exact ⟨hcall, _, hresponse⟩
  · cases he

def syncInbox : SessionCall := .coordinate .sync []

/-- A message arrives between two equal syncs: the second is answered with the messages
of the first, and the inbox was read once. -/
theorem second_sync_misses_the_message :
    ∃ q, (sessionSystem findsPresent .small "wf").Reach System.anyStep sessionPool q ∧
      q.shared.native.present = 1 ∧ q.shared.sent.length = 1 ∧
      q.shared.native.log.map Exchange.syncs = [some ([], presentZero), some ([], presentZero)] ∧
      q.shared.native.executed.map Execution.present = [0] := by
  obtain ⟨q, hq, hf⟩ := System.exists_reach
    (sessionSystem findsPresent .small "wf") System.anyStep
    (callSteps syncInbox 10 ++ .env (.edit 1) :: callSteps syncInbox 3) (p := sessionPool)
    (f := fun q => decide (q.shared.native.present = 1 ∧ q.shared.sent.length = 1 ∧
      q.shared.native.log.map Exchange.syncs = [some ([], presentZero), some ([], presentZero)] ∧
      q.shared.native.executed.map Execution.present = [0])) (b := true) (by decide +kernel)
  exact ⟨q, hq, of_decide_eq_true hf⟩

theorem sessionPool_newlyActive : NewlyActive "wf" sessionPool.shared := by
  have hrow : sessionPool.shared.journal.record "wf" = some ("atlas", "main", gatedRecord) := rfl
  refine ⟨rfl, rfl, rfl, fun _ _ _ => rfl, fun _ => rfl, fun name i hi => ?_,
    fun p r data hd key hk => ?_, fun p r data hd => ?_⟩
  · cases hi
  · cases hrow.symm.trans hd
    simp [gatedRecord] at hk
  · cases hrow.symm.trans hd
    rfl

theorem first_sync_reads_the_inbox :
    ∃ q e, (sessionSystem findsPresent .small "wf").Reach System.anyStep sessionPool q ∧
      e ∈ q.shared.native.log ∧ e.carried ⟨.sync, []⟩ presentZero ∧
      (((∃ x, e.ended = x :: e.began ∧ x.payload.tool = .syncInbox ∧ x.result = presentZero ∧
          ∀ y ∈ e.began, y.key ≠ x.key) ↔
        ∀ y ∈ e.began, ¬ PhaseKey "wf" (.coordinate ⟨.sync, []⟩) y.key) ∧
      ∀ e' ∈ q.shared.native.log, ∀ d', e'.carried ⟨.sync, []⟩ d' → d' = presentZero) := by
  obtain ⟨q, hq, hf⟩ := System.exists_reach
    (sessionSystem findsPresent .small "wf") System.anyStep (callSteps syncInbox 10)
    (p := sessionPool) (f := fun q => decide (q.shared.native.log.map Exchange.syncs =
      [some ([], presentZero)])) (b := true) (by decide +kernel)
  have hmem : some ([], presentZero) ∈ q.shared.native.log.map Exchange.syncs := by
    rw [of_decide_eq_true hf]
    exact List.mem_singleton_self _
  obtain ⟨e, he, hs⟩ := List.mem_map.mp hmem
  exact ⟨q, e, hq, he, carried_of_syncs hs, sync_reads_anew_iff findsPresent .small "wf" rfl
    sessionPool_newlyActive hq he (carried_of_syncs hs)⟩

end Inbox

end ProjectControl.Compact
