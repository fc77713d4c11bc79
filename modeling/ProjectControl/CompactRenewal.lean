import Mathlib.Order.Nat
import ProjectControl.CompactAlone
import ProjectControl.CompactTools

/-! The two ways to renew the lease of an active attempt, each with its own count
of generations, and the intents that they leave for each other. -/

set_option autoImplicit false

namespace ProjectControl.Compact

open Resumption Resumption.Spec Resumption.Prog

inductive Renewal where
  | heartbeat
  | resume
  deriving DecidableEq, Repr

namespace Renewal

def other : Renewal → Renewal
  | heartbeat => resume
  | resume => heartbeat

def name : Renewal → ℕ → PhaseName
  | heartbeat => .heartbeat
  | resume => .resume

/-- `heartbeat_generation` or `resume_generation`. -/
def stored : Renewal → Record → Option ℕ
  | heartbeat, r => r.heartbeatGeneration
  | resume, r => r.resumeGeneration

def generation (k : Renewal) (r : Record) : ℕ := (k.stored r).getD 0

/-- The request that a record makes for its next renewal. -/
def request : Renewal → Record → Option Payload
  | heartbeat, r =>
    match r.attemptId, r.leaseId, r.planRevisionId with
    | some attemptId, some leaseId, some planRevisionId =>
      some (heartbeatPayload attemptId leaseId planRevisionId)
    | _, _, _ => none
  | resume, r =>
    match r.attemptId, r.leaseId, r.taskId, r.runId.getD none, r.assignmentId.getD none,
        r.planRevisionId with
    | some attemptId, some leaseId, some taskId, some runId, some assignmentId,
        some planRevisionId =>
      some (resumePayload attemptId leaseId planRevisionId taskId runId assignmentId)
    | _, _, _, _, _, _ => none

/-- A renewal that is asked for with this copy of a record. -/
def active {A : Type} (N : NativeHost A) (c : Codec) (t : Target) (r : Record) :
    Renewal → Host A (Option Response)
  | heartbeat => heartbeatActive N c t r
  | resume => resumeActive N c t r

theorem name_inj {k k' : Renewal} {g g' : ℕ} (h : k.name g = k'.name g') : k = k' ∧ g = g' := by
  cases k <;> cases k' <;> cases h <;> exact ⟨rfl, rfl⟩

theorem eq_or_other (k k' : Renewal) : k' = k ∨ k' = k.other := by
  cases k <;> cases k' <;> simp [other]

end Renewal

/-- The renewal that a phase name belongs to. -/
def PhaseName.renewal : PhaseName → Option (Renewal × ℕ)
  | .heartbeat generation => some (.heartbeat, generation)
  | .resume generation => some (.resume, generation)
  | _ => none

def Payload.lease (payload : Payload) : Option Json := Dict.get payload.arguments "lease_id"

/-- What a renewal's request holds besides the lease. -/
structure Binding where
  attemptId : Option String
  planRevisionId : Option String
  taskId : Option String
  runId : Option (Option String)
  assignmentId : Option (Option String)

def Record.binding (r : Record) : Binding :=
  ⟨r.attemptId, r.planRevisionId, r.taskId, r.runId, r.assignmentId⟩

/-- The changes `changes` record what the next generation of `k` got, and no
intent of the other renewal waits for a lease that they replace; or they repeat
what the record holds. -/
def InTurn (k : Renewal) (d changes : Record) : Prop :=
  (k.stored changes = k.stored d ∧ changes.leaseId = d.leaseId) ∨
  (k.stored changes = some (k.generation d + 1) ∧
    (changes.leaseId = d.leaseId ∨ d.intent (k.other.name (k.other.generation d)) = none))

instance (k : Renewal) (d changes : Record) : Decidable (InTurn k d changes) :=
  inferInstanceAs (Decidable (_ ∨ _))

/-- A renewal of the handle is first asked for with the lease that its record
holds, and its lease is recorded in turn. -/
def RenewsInTurn {A : Type} (h : Handle) (s : World A) : Label → Prop
  | .persist h' name intent =>
    h' = h → match s.journal.record h, name.renewal with
      | some (_, _, d), some (k, generation) =>
        k.generation d ≤ generation → d.intent name = none →
          intent.payload.lease = some (.ofText? d.leaseId)
      | _, _ => True
  | .update h' _ changes =>
    h' = h → match s.journal.record h with
      | some (_, _, d) => (changes.heartbeatGeneration ≠ none → InTurn .heartbeat d changes) ∧
          (changes.resumeGeneration ≠ none → InTurn .resume d changes)
      | none => True
  | _ => True

instance {A : Type} (h : Handle) (s : World A) : (l : Label) → Decidable (RenewsInTurn h s l)
  | .persist h' name intent =>
    match hr : s.journal.record h, hn : name.renewal with
    | some (_, _, d), some (k, generation) =>
      decidable_of_iff (h' = h → k.generation d ≤ generation → d.intent name = none →
        intent.payload.lease = some (.ofText? d.leaseId)) (by simp [RenewsInTurn, hr, hn])
    | none, _ => isTrue (by simp [RenewsInTurn, hr])
    | some _, none => isTrue (by simp [RenewsInTurn, hn])
  | .update h' _ changes =>
    match hr : s.journal.record h with
    | some (_, _, d) =>
      decidable_of_iff (h' = h → (changes.heartbeatGeneration ≠ none →
        InTurn .heartbeat d changes) ∧ (changes.resumeGeneration ≠ none →
        InTurn .resume d changes)) (by simp [RenewsInTurn, hr])
    | none => isTrue (by simp [RenewsInTurn, hr])
  | .read | .native _ | .refresh _ _ _ _ | .select _ | .reserve => isTrue trivial

/-- The phases before a record has an attempt. -/
def Phase.prepares : Phase → Bool
  | .selecting | .workspacePending | .dispatchPending => true
  | _ => false

/-- An attempt under renewal: intents are kept up to the current generations, and
those of the current ones ask for what the record would ask for. -/
structure Renewing (b : Binding) (d : Record) : Prop where
  begun : d.phase.any Phase.prepares = false
  binding : d.binding = b
  bounded : ∀ (k : Renewal) g i, d.intent (k.name g) = some i → g ≤ k.generation d
  current : ∀ (k : Renewal) i, d.intent (k.name (k.generation d)) = some i →
    k.request d = some i.payload

section Records

variable {d r old changes : Record} {b : Binding}

theorem stored_merge (k : Renewal) (d changes : Record) :
    k.stored (d.merge changes) = (k.stored changes).or (k.stored d) := by
  cases k <;> rfl

theorem generation_merge_of_none {k : Renewal} (h : k.stored changes = none) :
    k.generation (d.merge changes) = k.generation d := by
  rw [Renewal.generation, stored_merge, h, Option.none_or, Renewal.generation]

theorem generation_merge_of_some {k : Renewal} {g : ℕ} (h : k.stored changes = some g) :
    k.generation (d.merge changes) = g := by
  rw [Renewal.generation, stored_merge, h, Option.some_or, Option.getD_some]

/-- A copy that is merged with another one has a generation of one of them. -/
theorem generation_merge_le {k : Renewal} {n : ℕ} (hd : k.generation d ≤ n)
    (hc : k.generation changes ≤ n) : k.generation (d.merge changes) ≤ n := by
  cases h : k.stored changes with
  | none => rwa [generation_merge_of_none h]
  | some g =>
    rw [generation_merge_of_some h]
    rwa [Renewal.generation, h] at hc

theorem binding_merge (hd : d.binding = b) (hc : changes.binding = b) :
    (d.merge changes).binding = b := by
  have h : changes.binding = d.binding := hc.trans hd.symm
  simp only [Record.binding, Binding.mk.injEq] at h
  obtain ⟨h1, h2, h3, h4, h5⟩ := h
  rw [← hd]
  simp [Record.binding, Record.merge, h1, h2, h3, h4, h5]

theorem prepares_merge (hd : d.phase.any Phase.prepares = false)
    (hc : changes.phase.any Phase.prepares = false) :
    (d.merge changes).phase.any Phase.prepares = false := by
  rw [Record.merge_phase]
  cases hp : changes.phase with
  | none => exact hd
  | some p => rwa [hp] at hc

/-- What a renewal asks for depends on the binding and the lease only. -/
theorem request_congr (k : Renewal) (hb : r.binding = d.binding) (hl : r.leaseId = d.leaseId) :
    k.request r = k.request d := by
  simp only [Record.binding, Binding.mk.injEq] at hb
  obtain ⟨h1, h2, h3, h4, h5⟩ := hb
  cases k <;> simp only [Renewal.request, h1, h2, h3, h4, h5, hl]

/-- Changes that touch nothing of a renewal except its generation and lease. -/
structure Plain (changes : Record) : Prop where
  binding : changes.binding = ⟨none, none, none, none, none⟩
  intents : changes.phaseIntents = none
  phase : changes.phase.any Phase.prepares = false

theorem Plain.merge_binding (h : Plain changes) : (d.merge changes).binding = d.binding := by
  have hb := h.binding
  simp only [Record.binding, Binding.mk.injEq] at hb
  obtain ⟨h1, h2, h3, h4, h5⟩ := hb
  simp [Record.binding, Record.merge, h1, h2, h3, h4, h5]

theorem coordinateChanges_plain (action : CoordinateAction) (r : Record) (result : Dict)
    (operations : ActionId → Option OperationEntry) :
    Plain (coordinateChanges action r result operations) ∧
      (coordinateChanges action r result operations).leaseId = none ∧
      ∀ k : Renewal, k.stored (coordinateChanges action r result operations) = none := by
  have hnone : ∀ d : Record, d.heartbeatGeneration = none → d.resumeGeneration = none →
      ∀ k : Renewal, k.stored d = none := by
    intro d h1 h2 k
    cases k
    · exact h1
    · exact h2
  unfold coordinateChanges
  split
  · split <;> exact ⟨⟨rfl, rfl, rfl⟩, rfl, hnone _ rfl rfl⟩
  · exact ⟨⟨rfl, rfl, rfl⟩, rfl, hnone _ rfl rfl⟩
  · exact ⟨⟨rfl, rfl, rfl⟩, rfl, hnone _ rfl rfl⟩
  · dsimp only
    split <;> exact ⟨⟨rfl, rfl, rfl⟩, rfl, hnone _ rfl rfl⟩
  · exact ⟨⟨rfl, rfl, rfl⟩, rfl, hnone _ rfl rfl⟩
  · exact ⟨⟨rfl, rfl, rfl⟩, rfl, hnone _ rfl rfl⟩
  · exact ⟨⟨rfl, rfl, rfl⟩, rfl, hnone _ rfl rfl⟩

/-- A merged change keeps the binding and the intents; it changes the lease only
together with the generation of one renewal. -/
theorem Writes.plain {c : Codec} {t : Target} {r₀ : Record} {answer : Payload → Dict → Prop}
    {merged : Prop} {part : Part} {entered : Option Phase}
    (hw : Writes c t r₀ r answer merged part entered changes) :
    Plain changes ∧ ((changes.leaseId = none ∧ ∀ k : Renewal, k.stored changes = none) ∨
      ∃ (k : Renewal) (l : String) (g : ℕ), changes.leaseId = some l ∧
        k.stored changes = some g ∧ k.other.stored changes = none) := by
  have hnone : ∀ d : Record, d.heartbeatGeneration = none → d.resumeGeneration = none →
      ∀ k : Renewal, k.stored d = none := by
    intro d h1 h2 k
    cases k
    · exact h1
    · exact h2
  cases hw with
  | resumed => exact ⟨⟨rfl, rfl, rfl⟩, Or.inr ⟨.resume, _, _, rfl, rfl, rfl⟩⟩
  | renewed => exact ⟨⟨rfl, rfl, rfl⟩, Or.inr ⟨.heartbeat, _, _, rfl, rfl, rfl⟩⟩
  | handedBack =>
    refine ⟨⟨rfl, rfl, ?_⟩, Or.inl ⟨rfl, hnone _ rfl rfl⟩⟩
    split <;> rfl
  | coordinated action result operations hc =>
    obtain ⟨h1, h2, h3⟩ := coordinateChanges_plain action r₀ result operations
    exact ⟨h1, Or.inl ⟨h2, h3⟩⟩
  | context | finish | reported | released | recovered | integrated | pending =>
    exact ⟨⟨rfl, rfl, rfl⟩, Or.inl ⟨rfl, hnone _ rfl rfl⟩⟩

theorem renewing_merge_of_none (hd : Renewing b d) (hc : Plain changes)
    (hl : changes.leaseId = none) (hg : ∀ k : Renewal, k.stored changes = none) :
    Renewing b (d.merge changes) := by
  have hlease : (d.merge changes).leaseId = d.leaseId := by simp [Record.merge, hl]
  have hgen : ∀ k : Renewal, k.generation (d.merge changes) = k.generation d :=
    fun k => generation_merge_of_none (hg k)
  refine ⟨prepares_merge hd.begun hc.phase, hc.merge_binding.trans hd.binding, ?_, ?_⟩
  · intro k g i hi
    rw [Record.merge_intent_of_none _ _ hc.intents] at hi
    rw [hgen k]
    exact hd.bounded k g i hi
  · intro k i hi
    rw [Record.merge_intent_of_none _ _ hc.intents, hgen k] at hi
    rw [request_congr k hc.merge_binding hlease]
    exact hd.current k i hi

/-- A renewal that is recorded in turn leaves no intent that asks for another lease. -/
theorem renewing_merge_in_turn (hd : Renewing b d) (hc : Plain changes) {k : Renewal} {g : ℕ}
    (hg : k.stored changes = some g) (ho : k.other.stored changes = none)
    (ht : InTurn k d changes) :
    Renewing b (d.merge changes) ∧ k.generation d ≤ g := by
  have hgen : k.generation (d.merge changes) = g := generation_merge_of_some hg
  have hother : k.other.generation (d.merge changes) = k.other.generation d :=
    generation_merge_of_none ho
  have hsame : changes.leaseId = d.leaseId → (d.merge changes).leaseId = d.leaseId := by
    intro h
    simp [Record.merge, h]
  have hle : k.generation d ≤ g := by
    rcases ht with ⟨h, -⟩ | ⟨h, -⟩
    · rw [Renewal.generation, ← h, hg, Option.getD_some]
    · rw [hg] at h
      cases h
      exact Nat.le_succ _
  refine ⟨⟨prepares_merge hd.begun hc.phase, hc.merge_binding.trans hd.binding, ?_, ?_⟩, hle⟩
  · intro k' g' i hi
    rw [Record.merge_intent_of_none _ _ hc.intents] at hi
    have hb := hd.bounded k' g' i hi
    rcases Renewal.eq_or_other k k' with rfl | rfl
    · rw [hgen]
      exact hb.trans hle
    · rwa [hother]
  · intro k' i hi
    rw [Record.merge_intent_of_none _ _ hc.intents] at hi
    rcases Renewal.eq_or_other k k' with rfl | rfl
    · rw [hgen] at hi
      rcases ht with ⟨h, hlease⟩ | ⟨h, -⟩
      · -- the same generation and lease as before
        have hg' : k'.generation d = g := by
          rw [Renewal.generation, ← h, hg, Option.getD_some]
        rw [request_congr k' hc.merge_binding (hsame hlease)]
        exact hd.current k' i (hg'.symm ▸ hi)
      · -- a new generation has no intent yet
        rw [hg] at h
        cases h
        exact absurd (hd.bounded k' _ i hi) (Nat.not_succ_le_self _)
    · rw [hother] at hi
      have hlease : changes.leaseId = d.leaseId := by
        rcases ht with ⟨-, h⟩ | ⟨-, h | h⟩
        · exact h
        · exact h
        · rw [h] at hi
          cases hi
      rw [request_congr k.other hc.merge_binding (hsame hlease)]
      exact hd.current k.other i hi

theorem generation_setIntent (k : Renewal) (name : PhaseName) (i : Intent) :
    k.generation (d.setIntent name i) = k.generation d := by
  cases k <;> rfl

theorem request_setIntent (k : Renewal) (name : PhaseName) (i : Intent) :
    k.request (d.setIntent name i) = k.request d :=
  request_congr k rfl rfl

theorem renewing_setIntent_of_ne {name : PhaseName} {i : Intent} (hd : Renewing b d)
    (hne : name.renewal = none) : Renewing b (d.setIntent name i) := by
  have hname : ∀ (k : Renewal) g, k.name g ≠ name := by
    rintro k g rfl
    cases k <;> cases hne
  refine ⟨hd.begun, hd.binding, ?_, ?_⟩
  · intro k g i' hi
    rw [Record.setIntent_intent_of_ne _ _ (hname k g)] at hi
    rw [generation_setIntent]
    exact hd.bounded k g i' hi
  · intro k i' hi
    rw [Record.setIntent_intent_of_ne _ _ (hname k _), generation_setIntent] at hi
    rw [request_setIntent]
    exact hd.current k i' hi

/-- An intent for a renewal is stored: for the current generation it has to ask for
what the record would. -/
theorem renewing_setIntent {k : Renewal} {g : ℕ} {i : Intent} (hd : Renewing b d)
    (hg : g ≤ k.generation d) (hi : g = k.generation d → k.request d = some i.payload) :
    Renewing b (d.setIntent (k.name g) i) := by
  refine ⟨hd.begun, hd.binding, ?_, ?_⟩
  · intro k' g' i' hi'
    rw [generation_setIntent]
    by_cases hn : k'.name g' = k.name g
    · obtain ⟨rfl, rfl⟩ := Renewal.name_inj hn
      exact hg
    · rw [Record.setIntent_intent_of_ne _ _ hn] at hi'
      exact hd.bounded k' g' i' hi'
  · intro k' i' hi'
    rw [generation_setIntent] at hi'
    rw [request_setIntent]
    by_cases hn : k'.name (k'.generation d) = k.name g
    · rw [hn, Record.setIntent_intent_self] at hi'
      obtain ⟨rfl, hg'⟩ := Renewal.name_inj hn
      cases hi'
      exact hi hg'.symm
    · rw [Record.setIntent_intent_of_ne _ _ hn] at hi'
      exact hd.current k' i' hi'

end Records

section Renew

variable {A : Type} (h : Handle) (b : Binding)

def RenewInv (s : World A) : Prop :=
  ∃ p q d, s.journal.record h = some (p, q, d) ∧ Renewing b d

def World.generation (s : World A) (k : Renewal) : ℕ :=
  ((s.journal.record h).map (fun row => k.generation row.2.2)).getD 0

/-- No step takes a generation back. -/
def RenewStep (s s' : World A) : Prop := ∀ k, s.generation h k ≤ s'.generation h k

def renewSpec : Spec ℕ (World A) Label where
  inv := RenewInv h b
  cond := RenewsInTurn h
  guar := fun _ => RenewStep h
  env := fun s s' => s'.journal = s.journal

/-- A copy of the record may be old: its generations are those of an earlier state. -/
structure RenewCopy (r : Record) (s : World A) : Prop where
  begun : r.phase.any Phase.prepares = false
  binding : r.binding = b
  bounded : ∀ k : Renewal, k.generation r ≤ s.generation h k

def renewKnowledge : Knowledge A where
  copy := fun t r s => t.handle = h → RenewCopy h b r s
  merged := fun t _ r s => t.handle = h → RenewCopy h b r s
  request := fun _ _ _ _ _ => True
  answer := fun _ _ _ => True

variable {h b} {s s' : World A} {t : Target} {r r₀ old changes : Record}

theorem RenewStep.refl (s : World A) : RenewStep h s s := fun _ => le_rfl

theorem generation_of_record {p q : String} {d : Record}
    (hd : s.journal.record h = some (p, q, d)) (k : Renewal) :
    s.generation h k = k.generation d := by
  rw [World.generation, hd, Option.map_some, Option.getD_some]

theorem renewInv_of_record (hs : RenewInv h b s)
    (hr : s'.journal.record h = s.journal.record h) : RenewInv h b s' := by
  obtain ⟨p, q, d, hd, hw⟩ := hs
  exact ⟨p, q, d, hr.trans hd, hw⟩

theorem renewStep_of_record (hr : s'.journal.record h = s.journal.record h) :
    RenewStep h s s' := by
  intro k
  rw [World.generation, World.generation, hr]

theorem RenewCopy.step (hk : RenewCopy h b r s) (hs : RenewStep h s s') : RenewCopy h b r s' :=
  ⟨hk.begun, hk.binding, fun k => (hk.bounded k).trans (hs k)⟩

theorem renew_stable (i : ℕ) (t : Target) (r : Record) :
    (renewSpec (A := A) h b).Stable i (fun s => t.handle = h → RenewCopy h b r s) := by
  intro s s' hr hk ht
  refine (hk ht).step ?_
  obtain ⟨-, -, ⟨j, -, hg⟩ | he⟩ := hr
  · exact hg
  · exact renewStep_of_record (congrArg (fun j => Journal.record j h) he)

theorem generation_scoped (k : Renewal) : k.generation (t.scoped r) = k.generation r := by
  cases k <;> rfl

theorem renewing_of_holds (hs : RenewInv h b s) (ht : t.handle = h) (ho : s.Holds t old) :
    Renewing b old := by
  obtain ⟨p, q, d, hd, hw⟩ := hs
  subst ht
  cases Option.some.inj (ho.symm.trans hd)
  exact hw

theorem renewCopy_of_holds (hs : RenewInv h b s) (ht : t.handle = h) (ho : s.Holds t old) :
    RenewCopy h b old s := by
  have hw := renewing_of_holds hs ht ho
  refine ⟨hw.begun, hw.binding, fun k => ?_⟩
  subst ht
  rw [generation_of_record ho k]

theorem RenewCopy.merge (hk : RenewCopy h b r s) (hs : RenewInv h b s) (ht : t.handle = h)
    (ho : s.Holds t old) : RenewCopy h b (r.merge old) s := by
  have hold := renewCopy_of_holds hs ht ho
  exact ⟨prepares_merge hk.begun hold.begun, binding_merge hk.binding hold.binding,
    fun k => generation_merge_le (hk.bounded k) (hold.bounded k)⟩

/-- A record is replaced: only the one of the handle matters. -/
theorem renew_put (new : Record) (hs : RenewInv h b s) (ho : s.Holds t old)
    (hnew : t.handle = h → Renewing b new ∧ ∀ k : Renewal, k.generation old ≤ k.generation new) :
    RenewInv h b (s.put t.handle new) ∧ RenewStep h s (s.put t.handle new) := by
  by_cases ht : t.handle = h
  · obtain ⟨hw, hg⟩ := hnew ht
    subst ht
    refine ⟨⟨_, _, new, World.record_put ho new, hw⟩, fun k => ?_⟩
    rw [generation_of_record ho k, generation_of_record (World.record_put ho new) k]
    exact hg k
  · have hsame := World.record_put_of_ne (s := s) new (Ne.symm ht)
    exact ⟨renewInv_of_record hs hsame, renewStep_of_record hsame⟩

theorem renew_issue {name : PhaseName} {intent : Intent} (hs : RenewInv h b s)
    (ho : s.Holds t old)
    (hnew : t.handle = h → Renewing b old → Renewing b (old.setIntent name intent)) :
    RenewInv h b (s.issue t.handle name old intent) ∧
      RenewStep h s (s.issue t.handle name old intent) := by
  obtain ⟨h1, h2⟩ := renew_put (old.setIntent name intent) hs ho (fun ht =>
    ⟨hnew ht (renewing_of_holds hs ht ho), fun k => (generation_setIntent k name intent).ge⟩)
  exact ⟨h1, h2⟩

/-- The requests of the two renewals, and of no other phase, hold a lease. -/
theorem Asks.renewal {part : Part} {name : PhaseName} {payload : Payload} {key : Option Key}
    (ha : Asks t r part name payload key) {k : Renewal} {g : ℕ}
    (hn : name.renewal = some (k, g)) : name = k.name g ∧ g = k.generation r ∧
      k.request r = some payload ∧ payload.lease = some (.ofText? r.leaseId) := by
  cases ha with
  | heartbeat attemptId leaseId planRevisionId hp ha hl hr =>
    cases hn
    refine ⟨rfl, rfl, by simp [Renewal.request, ha, hl, hr], ?_⟩
    rw [hl]
    rfl
  | resume attemptId leaseId planRevisionId taskId runId assignmentId ha hl hr ht hn' hs =>
    cases hn
    refine ⟨rfl, rfl, by simp [Renewal.request, ha, hl, hr, ht, hn', hs], ?_⟩
    rw [hl]
    rfl
  | createWorkspace | dispatchAttempt | verify | handback | report | release | coordinate =>
    cases hn

theorem ofText?_inj {x y : Option String} (h : Json.ofText? x = Json.ofText? y) : x = y := by
  cases x <;> cases y <;> simp_all [Json.ofText?]

theorem renew_persist {part : Part} {name : PhaseName} {payload : Payload} {key : Option Key}
    {intent : Intent} (ha : Asks t r part name payload key) (hp : intent.payload = payload)
    (hs : RenewInv h b s) (hk : t.handle = h → RenewCopy h b r s)
    (hc : RenewsInTurn h s (.persist t.handle name intent)) (ho : s.Holds t old)
    (hn : old.intent name = none) :
    RenewInv h b (s.issue t.handle name old intent) ∧
      RenewStep h s (s.issue t.handle name old intent) := by
  refine renew_issue hs ho (fun ht hw => ?_)
  cases hname : name.renewal with
  | none => exact renewing_setIntent_of_ne hw hname
  | some kg =>
    obtain ⟨k, g⟩ := kg
    obtain ⟨rfl, rfl, hreq, hlease⟩ := ha.renewal hname
    subst ht
    have hle : k.generation r ≤ k.generation old := by
      rw [← generation_of_record ho k]
      exact (hk rfl).bounded k
    refine renewing_setIntent hw hle (fun hg => ?_)
    -- the copy holds the lease of the record, so both ask for the same
    have hcur := hc rfl
    simp only [ho, hname] at hcur
    have hsame := hcur hg.ge hn
    rw [hp, hlease] at hsame
    have hl := ofText?_inj (Option.some.inj hsame)
    rw [← request_congr k ((hk rfl).binding.trans hw.binding.symm) hl, hreq, hp]

theorem renew_refresh {name : PhaseName} {payload : Payload} {revision : ℕ} {intent : Intent}
    (hs : RenewInv h b s) (ho : s.Holds t old) (hi : old.intent name = some intent) :
    let s' := s.issue t.handle name old (intent.refreshed t.handle name payload revision)
    RenewInv h b s' ∧ RenewStep h s s' := by
  refine renew_issue hs ho (fun _ hw => ?_)
  cases hname : name.renewal with
  | none => exact renewing_setIntent_of_ne hw hname
  | some kg =>
    obtain ⟨k, g⟩ := kg
    have hk : name = k.name g := by
      cases name <;> cases hname <;> rfl
    subst hk
    -- the payload of a refreshed intent is the one that it had
    refine renewing_setIntent hw (hw.bounded k g intent hi) (fun hg => ?_)
    subst hg
    exact hw.current k intent hi

theorem renew_update {c : Codec} {part : Part} {entered : Option Phase}
    {answer : Payload → Dict → Prop} {merged : Prop}
    (hw : Writes c t r₀ r answer merged part entered changes) (hs : RenewInv h b s)
    (hr : t.handle = h → RenewCopy h b r s)
    (hc : RenewsInTurn h s (.update t.handle entered changes)) (ho : s.Holds t old) :
    let s' := s.put t.handle (old.merge changes)
    RenewInv h b s' ∧ RenewStep h s s' ∧
      (t.handle = h → RenewCopy h b (r.merge changes) s') := by
  obtain ⟨hplain, hlease⟩ := hw.plain
  have hnew : t.handle = h → Renewing b (old.merge changes) ∧
      ∀ k : Renewal, k.generation old ≤ k.generation (old.merge changes) := by
    intro ht
    have hold := renewing_of_holds hs ht ho
    subst ht
    rcases hlease with ⟨hl, hg⟩ | ⟨k, l, g, hl, hg, hother⟩
    · exact ⟨renewing_merge_of_none hold hplain hl hg,
        fun k => (generation_merge_of_none (hg k)).ge⟩
    · have hturn : InTurn k old changes := by
        have hcur := hc rfl
        simp only [ho] at hcur
        cases k with
        | heartbeat =>
          apply hcur.1
          simp only [Renewal.stored] at hg
          simp [hg]
        | resume =>
          apply hcur.2
          simp only [Renewal.stored] at hg
          simp [hg]
      obtain ⟨h1, h2⟩ := renewing_merge_in_turn hold hplain hg hother hturn
      refine ⟨h1, fun k' => ?_⟩
      rcases Renewal.eq_or_other k k' with rfl | rfl
      · rwa [generation_merge_of_some hg]
      · rw [generation_merge_of_none hother]
  obtain ⟨h1, h2⟩ := renew_put (old.merge changes) hs ho hnew
  refine ⟨h1, h2, fun ht => ?_⟩
  have hcopy := hr ht
  refine ⟨prepares_merge hcopy.begun hplain.phase, hplain.merge_binding.trans hcopy.binding, ?_⟩
  intro k
  subst ht
  rw [generation_of_record (World.record_put ho _) k]
  cases hg : k.stored changes with
  | some g => rw [generation_merge_of_some hg, generation_merge_of_some hg]
  | none =>
    rw [generation_merge_of_none hg, generation_merge_of_none hg, ← generation_of_record ho k]
    exact hcopy.bounded k

/-- A new record has another handle. -/
theorem renew_append {j : Journal} {token : Handle} (hs : RenewInv h b s)
    (hf : s.journal.rows token = []) (hj : ∀ g ≠ token, j.record g = s.journal.record g) :
    RenewInv h b { s with journal := j } ∧ RenewStep h s { s with journal := j } := by
  have hne : h ≠ token := by
    rintro rfl
    obtain ⟨p, q, d, hd, -⟩ := hs
    rw [Journal.record_eq_some, hf] at hd
    cases hd
  exact ⟨renewInv_of_record hs (hj h hne), renewStep_of_record (hj h hne)⟩

theorem renewRules (i : ℕ) (N : NativeHost A) (c : Codec) :
    HostRules (renewSpec (A := A) h b) i N c (renewKnowledge h b) (fun _ => True)
      (fun _ => True) where
  refl := RenewStep.refl
  copy_stable := renew_stable i
  merged_stable := fun t _ r => renew_stable i t r
  request_stable := fun _ _ _ _ => stable_true
  answer_stable := fun _ _ => stable_true
  learn := fun _ hs ho ht => renewCopy_of_holds hs ht ho
  relearn := fun hs _ ho ht => renewCopy_of_holds hs ht ho
  scope := fun hk ht => ⟨(hk ht).begun, (hk ht).binding,
    fun k => (generation_scoped k).trans_le ((hk ht).bounded k)⟩
  merge := fun hs hk ho ht => (hk ht).merge hs ht ho
  fresh := fun hs _ hk ho _ ht => (hk ht).merge hs ht ho
  known := fun _ _ _ _ => trivial
  merged_copy := fun hk => hk
  read := by
    intro s call v hs _
    exact ⟨renewInv_of_record hs rfl, renewStep_of_record rfl,
      fun _ _ hk ht => (hk ht).step (renewStep_of_record rfl)⟩
  persist := by
    intro s part t r old name payload key key' revision _ ha hs hk _ hc ho hn
    obtain ⟨h1, h2⟩ := renew_persist ha rfl hs hk hc ho hn
    exact ⟨h1, h2, fun _ hk' ht => (hk' ht).step h2⟩
  refresh := by
    intro s part t r old name payload key rejected revision intent _ _ hs _ _ ho hi _ _
    obtain ⟨h1, h2⟩ := renew_refresh hs ho hi
    exact ⟨h1, h2, fun _ hk' ht => (hk' ht).step h2⟩
  send := by
    intro s part t r name payload key request project repository v _ _ hs _ _ _
    have hstep : ∀ s' : World A, s'.journal = s.journal → RenewStep h s s' :=
      fun s' hj => renewStep_of_record (by rw [hj])
    exact ⟨renewInv_of_record hs rfl, hstep _ rfl, fun _ hk ht => (hk ht).step (hstep _ rfl),
      fun _ _ hk ht => (hk ht).step (hstep _ rfl), fun _ _ => trivial⟩
  update := fun _ hw hs _ hr hc ho => renew_update hw hs hr hc ho
  overwrite := by
    intro s t r₀ r changes old entered _ hw hs h₀ _ _ ho
    -- only a record that is still prepared is written back as a whole
    have hne : t.handle ≠ h := by
      intro ht
      have hb := (h₀ ht).begun
      cases hw with
      | workspace workspace hp =>
        rw [hp] at hb
        cases hb
      | dispatched attemptId leaseId receipt hp =>
        rw [hp] at hb
        cases hb
    obtain ⟨h1, h2⟩ := renew_put (old.merge changes) hs ho (fun ht => absurd ht hne)
    exact ⟨h1, h2, fun ht => absurd ht hne⟩
  note := by
    intro s t reason old _ hs _ ho
    refine renew_put _ hs ho (fun ht => ?_)
    have hnone : ∀ k : Renewal,
        k.stored { renewalAttention := some (some reason) } = none := by
      intro k
      cases k <;> rfl
    exact ⟨renewing_merge_of_none (renewing_of_holds hs ht ho) ⟨rfl, rfl, rfl⟩ rfl hnone,
      fun k => (generation_merge_of_none (hnone k)).ge⟩
  select := by
    intro s t r old new _ hs _ _ ho hp _
    have hne : t.handle ≠ h := by
      intro ht
      have hb := (renewing_of_holds hs ht ho).begun
      rw [hp] at hb
      cases hb
    obtain ⟨h1, h2⟩ := renew_put new hs ho (fun ht => absurd ht hne)
    exact ⟨h1, h2, fun ht => absurd ht hne⟩
  reserve := by
    intro s project repository request token _ hs _ hf _
    exact renew_append hs hf (fun g hg => Journal.record_appendReservation_of_ne hg)
  review := by
    intro s project repository token candidate _ hs _ hf
    exact renew_append hs hf (fun g hg => Journal.record_append_of_ne hg)

theorem compactSystem_renews {ω : Type} (N : NativeHost A) (c : Codec)
    (env : A → ω → Option A) : (renewSpec (A := A) h b).Sound (compactSystem N c env) where
  crash := fun _ s hs => ⟨hs, RenewStep.refl s⟩
  env := by
    intro s e s' hs he
    obtain ⟨a, -, rfl⟩ := Option.map_eq_some_iff.mp he
    exact ⟨renewInv_of_record hs rfl, rfl⟩
  program := fun i call => triple_toolCall (renewRules i N c) (fun _ => trivial)
    (fun _ => trivial) call

end Renew

/-- The copy `r` is as the record `d` is now, as far as a renewal reads it. -/
structure UpToDate (r d : Record) : Prop where
  binding : r.binding = d.binding
  lease : r.leaseId = d.leaseId
  generation : ∀ k : Renewal, k.generation r = k.generation d

section Alone

variable {A : Type} {N : NativeHost A} {c : Codec} {t : Target} {s : World A} {d r : Record}
variable {b : Binding}

theorem agrees_of_renewing (hd : Renewing b d) (hr : UpToDate r d) {k : Renewal}
    {payload : Payload} (hp : k.request r = some payload) :
    Agrees d (k.name (k.generation r)) payload := by
  intro i hi
  rw [hr.generation k] at hi
  have hcur := hd.current k i hi
  rw [← request_congr k hr.binding hr.lease, hp] at hcur
  exact (Option.some.inj hcur).symm

theorem ends_resumeActive (hN : N.Silent "workflow_phase_intent_conflict") (hs : s.Holds t d)
    (hd : Renewing b d) (hr : UpToDate r d) :
    (resumeActive N c t r).Ends (fun _ _ => True) NotConflict s := by
  unfold resumeActive
  split
  · rename_i attemptId leaseId taskId runId assignmentId planRevisionId h1 h2 h3 h4 h5 h6
    have hreq : Renewal.resume.request r =
        some (resumePayload attemptId leaseId planRevisionId taskId runId assignmentId) := by
      simp [Renewal.request, h1, h2, h3, h4, h5, h6]
    split
    · trivial
    · refine ends_bind (ends_serveRead hs (fun e s' _ he => notConflict_other he)) ?_
      rintro inspected s₁ ⟨hs₁, -⟩
      split
      · trivial
      · refine ends_bind (ends_invokePhase hN hs₁ (agrees_of_renewing hd hr hreq)) ?_
        rintro ⟨resumed, record⟩ s₂ ⟨d₂, hs₂⟩
        dsimp only
        split
        · trivial
        · split
          · trivial
          · exact ends_bind (ends_storeUpdate hs₂ (fun e he => notConflict_refuses (Store.update_error he)))
              (fun _ _ _ => trivial)
  · trivial

theorem ends_heartbeatActive (hN : N.Silent "workflow_phase_intent_conflict") (hs : s.Holds t d)
    (hd : Renewing b d) (hr : UpToDate r d) :
    (heartbeatActive N c t r).Ends (fun _ _ => True) NotConflict s := by
  unfold heartbeatActive
  split
  · rename_i attemptId leaseId planRevisionId h1 h2 h3
    have hreq : Renewal.heartbeat.request r =
        some (heartbeatPayload attemptId leaseId planRevisionId) := by
      simp [Renewal.request, h1, h2, h3]
    refine ends_bind (ends_invokePhase hN hs (agrees_of_renewing hd hr hreq)) ?_
    rintro ⟨renewed, record⟩ s₁ ⟨d₁, hs₁⟩
    dsimp only
    split
    · trivial
    · split
      · trivial
      · exact ends_bind (ends_storeUpdate hs₁ (fun e he => notConflict_refuses (Store.update_error he)))
          (fun _ _ _ => trivial)
  · trivial

end Alone

/-- As long as the renewals of a dispatched handle take turns, a renewal that is
asked for with the record as it is now, and with whatever replies, is never refused
for an intent that an earlier one left. -/
theorem renewals_meet_no_conflict {A ω : Type} (N : NativeHost A) (c : Codec)
    (env : A → ω → Option A) (h : Handle) {p q : Pool ℕ (World A) Input Label Err Unit}
    {project repository : String} {d : Record}
    (hN : N.Silent "workflow_phase_intent_conflict") (hidle : ∀ i, p.threads i = none)
    (hrec : p.shared.journal.record h = some (project, repository, d))
    (hactive : d.phase = some .active ∨ d.phase = some .contextPending)
    (hnone : ∀ (k : Renewal) g, d.intent (k.name g) = none)
    (hq : (compactSystem N c env).Reach (RenewsInTurn h) p q) :
    ∃ project' repository' d', q.shared.journal.record h = some (project', repository', d') ∧
      ∀ (k : Renewal) r vs s', UpToDate r d' →
        (k.active N c ⟨h, project', repository'⟩ r).eval q.shared vs ≠
          some (.error (.workflow "workflow_phase_intent_conflict"), s') := by
  have hstart : Renewing d.binding d := by
    refine ⟨?_, rfl, fun k g i hi => ?_, fun k i hi => ?_⟩
    · rcases hactive with ha | ha
      · rw [ha]
        rfl
      · rw [ha]
        rfl
    · rw [hnone k g] at hi
      cases hi
    · rw [hnone k _] at hi
      cases hi
  have hinv : RenewInv h d.binding p.shared := ⟨project, repository, d, hrec, hstart⟩
  have hsafe := poolSafe_reach (compactSystem_renews N c env) (poolSafe_of_idle hinv hidle) hq
  obtain ⟨project', repository', d', hd', hrenew⟩ := hsafe.1
  refine ⟨project', repository', d', hd', ?_⟩
  intro k r vs s' hr heval
  have hends : (k.active N c ⟨h, project', repository'⟩ r).Ends (fun _ _ => True) NotConflict
      q.shared := by
    cases k with
    | heartbeat => exact ends_heartbeatActive hN hd' hrenew hr
    | resume => exact ends_resumeActive hN hd' hrenew hr
  exact (hends.eval heval).2 _ rfl rfl

section Runs

def leasedRecord : Record where
  phase := some .active
  project := some "atlas"
  repository := some "main"
  attemptId := some "A1"
  leaseId := some "L1"
  taskId := some "T1"
  runId := some (some "R1")
  assignmentId := some (some "S1")
  planRevisionId := some "P1"

def leasedPool : Pool ℕ (World Unit) Input Label Err Unit where
  shared := { journal := [.workflow "wf" "atlas" "main" leasedRecord], native := () }
  threads := fun _ => none

/-- A host that grants the lease which its input names, unless the reply is lost. -/
def leaseHost : NativeHost Unit where
  serve := fun a _ v => match v.reply with
    | .raised => (a, .raised)
    | _ => (a, .ok [("semantic_revision", .num 5), ("result", .obj [("lease_id", .str v.token)])])

theorem leaseHost_silent (reason : String) : leaseHost.Silent reason := by
  intro a call v d hd
  unfold leaseHost at hd
  dsimp only at hd
  split at hd
  · cases hd
  · cases hd
    rw [reasonOf, Dict.get_cons_of_ne _ _ (by decide), Dict.get_cons_of_ne _ _ (by decide)]
    intro h
    cases h

def leaseReply (lease : String) : Input where
  reply := .ok []
  token := lease

def lostReply : Input where
  reply := .raised
  token := ""

def leaseSystem : System ℕ (World Unit) Input Label Err Unit ToolCall Empty :=
  compactSystem leaseHost .small (fun _ e => nomatch e)

/-- The lease of the record and what a resume with the record as it is now raises. -/
def resumeNow (q : Pool ℕ (World Unit) Input Label Err Unit) (vs : List Input) :
    Option (Option String × Option Err) := do
  let (project, repository, d) ← q.shared.journal.record "wf"
  let (out, _) ← (Renewal.resume.active leaseHost .small ⟨"wf", project, repository⟩ d).eval
    q.shared vs
  match out with
  | .error e => some (d.leaseId, some e)
  | .ok _ => some (d.leaseId, none)

/-- A resume whose reply is lost, and then a heartbeat that replaces the lease. -/
def lostResume : List (Action ℕ Input ToolCall Empty) :=
  .start 0 (.coordinateTask "wf" .resume []) ::
    List.replicate 5 (.act 0 (leaseReply "L2")) ++ [.act 0 lostReply] ++
    .start 1 (.renew ⟨"wf", "atlas", "main"⟩) :: List.replicate 6 (.act 1 (leaseReply "L2"))

/-- A resume and then a heartbeat, both with their replies. -/
def resumeThenHeartbeat : List (Action ℕ Input ToolCall Empty) :=
  .start 0 (.coordinateTask "wf" .resume []) :: List.replicate 7 (.act 0 (leaseReply "L2")) ++
    .start 1 (.renew ⟨"wf", "atlas", "main"⟩) :: List.replicate 6 (.act 1 (leaseReply "L3"))

theorem lost_resume_blocks_resume :
    ∃ q, leaseSystem.Reach System.anyStep leasedPool q ∧
      resumeNow q [leaseReply "L3", leaseReply "L3"] =
        some (some "L2", some (.workflow "workflow_phase_intent_conflict")) :=
  System.exists_reach leaseSystem System.anyStep lostResume (by decide +kernel)

theorem renewals_meet_no_conflict_in_turn :
    ∃ q, leaseSystem.Reach (RenewsInTurn "wf") leasedPool q ∧
      ∃ project repository d, q.shared.journal.record "wf" = some (project, repository, d) ∧
        d.leaseId = some "L3" ∧ ∀ (k : Renewal) r vs s', UpToDate r d →
          (k.active leaseHost .small ⟨"wf", project, repository⟩ r).eval q.shared vs ≠
            some (.error (.workflow "workflow_phase_intent_conflict"), s') := by
  obtain ⟨q, hq, hl⟩ := System.exists_reach leaseSystem (RenewsInTurn "wf") resumeThenHeartbeat
    (p := leasedPool) (f := fun q => (q.shared.journal.record "wf").map (fun row => row.2.2.leaseId))
    (b := some (some "L3")) (by decide +kernel)
  obtain ⟨project, repository, d, hd, hrest⟩ := renewals_meet_no_conflict leaseHost .small _ "wf"
    (leaseHost_silent _) (fun _ => rfl) rfl (Or.inl rfl) (fun k g => by cases k <;> rfl) hq
  refine ⟨q, hq, project, repository, d, hd, ?_, hrest⟩
  rw [hd, Option.map_some] at hl
  exact Option.some.inj hl

end Runs

end ProjectControl.Compact
