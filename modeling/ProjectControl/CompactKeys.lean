import Mathlib.Order.Nat
import ProjectControl.CompactTools

/-! The requests of one sequential client and its renewal workers: two requests
with one key are the same request. -/

set_option autoImplicit false

namespace ProjectControl.Compact

open Resumption Resumption.Spec

/-- The phase name and the generation that an operation text belongs to. -/
def KeyOperation.slot : KeyOperation → PhaseName × ℕ
  | .createWorkspace => (.createWorkspace, 0)
  | .dispatchAttempt => (.dispatchAttempt, 0)
  | .finishReport => (.finishReport, 0)
  | .finishHandback => (.finishHandback, 0)
  | .finishRelease => (.finishRelease, 0)
  | .native name => (name, 0)
  | .retry name generation => (name, generation)

def Key.IsFor (key : Key) (h : Handle) (name : PhaseName) (generation : ℕ) : Prop :=
  key.handle = h ∧ key.operation.slot = (name, generation)

/-- The keys that a record carries are those of its own phases. -/
structure OwnKeys (h : Handle) (r : Record) : Prop where
  createWorkspace : ∀ k, r.createWorkspaceKey = some k → k.IsFor h .createWorkspace 0
  dispatch : ∀ k, r.dispatchKey = some k → k.IsFor h .dispatchAttempt 0
  report : ∀ k, r.reportKey = some k → k.IsFor h .finishReport 0
  handback : ∀ k, r.handbackKey = some k → k.IsFor h .finishHandback 0
  release : ∀ k, r.releaseKey = some k → k.IsFor h .finishRelease 0

/-- The phases in which whole records are still written back. -/
def earlyPhase : Option Phase → Bool
  | some .selecting | some .workspacePending | some .dispatchPending => true
  | _ => false

section Keys

variable {A : Type}

def Past (h : Handle) (s : World A) : Prop :=
  ∃ p r d, s.journal.record h = some (p, r, d) ∧ earlyPhase d.phase = false

/-- Every request that was sent is an issued intent, and an issued intent is
determined by its handle, its phase name and its generation. -/
structure KeysInv (s : World A) : Prop where
  functional : ∀ h n i j, (h, n, i) ∈ s.issued → (h, n, j) ∈ s.issued →
    i.generation = j.generation → i = j
  slots : ∀ h n i, (h, n, i) ∈ s.issued → i.idempotencyKey.IsFor h n i.generation
  stored : ∀ h n i, s.intent h n = some i → (h, n, i) ∈ s.issued ∧
    ∀ j, (h, n, j) ∈ s.issued → j.generation ≤ i.generation
  absent : ∀ h n, s.intent h n = none → ∀ i, (h, n, i) ∉ s.issued
  sent : ∀ m ∈ s.sent, ∃ h n i, (h, n, i) ∈ s.issued ∧ i.payload = m.payload ∧
    i.idempotencyKey = m.key ∧ i.expectedRevision = m.revision
  keys : ∀ h p r d, s.journal.record h = some (p, r, d) → OwnKeys h d

structure KeyStep (s s' : World A) : Prop where
  issued : ∀ x ∈ s.issued, x ∈ s'.issued
  past : ∀ h, Past h s → Past h s'

/-- A step that leaves the phase and the intents of early records alone. -/
def EarlyKept (s s' : World A) : Prop :=
  ∀ h p r d, s.journal.record h = some (p, r, d) → earlyPhase d.phase = true →
    ∃ d', s'.journal.record h = some (p, r, d') ∧ d'.phase = d.phase ∧
      d'.phaseIntents = d.phaseIntents

/-- Thread 0 is the client; the others are renewal workers. -/
def keySpec : Spec ℕ (World A) Label where
  inv := KeysInv
  cond := System.anyStep
  guar := fun i s s' => KeyStep s s' ∧ (i ≠ 0 → EarlyKept s s')
  env := fun s s' => s'.journal = s.journal ∧ s'.issued = s.issued

/-- What the client knows of a copy in an early phase: it is in the phase of its
record. Any thread knows that a copy in a later phase is past the early ones. -/
structure CopyKnown (i : ℕ) (t : Target) (r : Record) (s : World A) : Prop where
  keys : OwnKeys t.handle r
  early : i = 0 → earlyPhase r.phase = true →
    ∃ p q d, s.journal.record t.handle = some (p, q, d) ∧ d.phase = r.phase
  past : earlyPhase r.phase = false → Past t.handle s

/-- A copy of the client's that has the intents of its early record. -/
def CopyMerged (i : ℕ) (t : Target) (r : Record) (s : World A) : Prop :=
  CopyKnown i t r s ∧ (i = 0 → earlyPhase r.phase = true → ∃ p q d,
    s.journal.record t.handle = some (p, q, d) ∧ d.phase = r.phase ∧
      d.phaseIntents = r.phaseIntents)

def keyKnowledge (i : ℕ) : Knowledge A where
  copy := CopyKnown i
  merged := fun t _ r => CopyMerged i t r
  request := fun t name payload request s => ∃ intent, (t.handle, name, intent) ∈ s.issued ∧
    intent.payload = payload ∧ intent.idempotencyKey = request.1 ∧
      intent.expectedRevision = request.2
  answer := fun _ _ _ => True

variable {s s' : World A} {i : ℕ} {t : Target} {r r' : Record} {h : Handle} {p q : String}
variable {old new : Record}

theorem OwnKeys.merge (hr : OwnKeys h r) (hc : OwnKeys h r') : OwnKeys h (r.merge r') := by
  have key {a b : Option Key} {name : PhaseName}
      (ha : ∀ k, a = some k → k.IsFor h name 0) (hb : ∀ k, b = some k → k.IsFor h name 0) :
      ∀ k, b.or a = some k → k.IsFor h name 0 := by
    intro k hk
    rcases Option.or_eq_some_iff.mp hk with hk | ⟨-, hk⟩
    · exact hb k hk
    · exact ha k hk
  exact ⟨key hr.createWorkspace hc.createWorkspace, key hr.dispatch hc.dispatch,
    key hr.report hc.report, key hr.handback hc.handback, key hr.release hc.release⟩

theorem ownKeys_of_none (h1 : r.createWorkspaceKey = none) (h2 : r.dispatchKey = none)
    (h3 : r.reportKey = none) (h4 : r.handbackKey = none) (h5 : r.releaseKey = none) :
    OwnKeys h r :=
  ⟨by simp [h1], by simp [h2], by simp [h3], by simp [h4], by simp [h5]⟩

theorem KeyStep.refl (s : World A) : KeyStep s s := ⟨fun _ hx => hx, fun _ hp => hp⟩

theorem EarlyKept.refl (s : World A) : EarlyKept s s := fun _ _ _ d hd _ => ⟨d, hd, rfl, rfl⟩

theorem past_of_journal (hj : s'.journal = s.journal) (hp : Past h s) : Past h s' := by
  obtain ⟨p, r, d, hd, he⟩ := hp
  exact ⟨p, r, d, hj ▸ hd, he⟩

theorem keyStep_of_eq (s s' : World A) (hj : s'.journal = s.journal) (hi : s'.issued = s.issued) :
    KeyStep s s' ∧ EarlyKept s s' :=
  ⟨⟨fun _ hx => hi ▸ hx, fun _ hp => past_of_journal hj hp⟩,
    fun _ _ _ d hd _ => ⟨d, hj ▸ hd, rfl, rfl⟩⟩

theorem CopyKnown.step (hk : CopyKnown i t r s) (hs : KeyStep s s')
    (he : i = 0 → EarlyKept s s') : CopyKnown i t r s' := by
  refine ⟨hk.keys, fun h0 hr => ?_, fun hr => hs.past _ (hk.past hr)⟩
  obtain ⟨p, q, d, hd, hp⟩ := hk.early h0 hr
  obtain ⟨d', hd', hp', -⟩ := he h0 _ p q d hd (hp ▸ hr)
  exact ⟨p, q, d', hd', hp'.trans hp⟩

theorem CopyMerged.step (hk : CopyMerged i t r s) (hs : KeyStep s s')
    (he : i = 0 → EarlyKept s s') : CopyMerged i t r s' := by
  refine ⟨hk.1.step hs he, fun h0 hr => ?_⟩
  obtain ⟨p, q, d, hd, hp, hi⟩ := hk.2 h0 hr
  obtain ⟨d', hd', hp', hi'⟩ := he h0 _ p q d hd (hp ▸ hr)
  exact ⟨p, q, d', hd', hp'.trans hp, hi'.trans hi⟩

/-- What other threads and the environment do to a thread's knowledge. -/
theorem keyRely (hr : (keySpec (A := A)).Rely i s s') :
    KeyStep s s' ∧ (i = 0 → EarlyKept s s') := by
  obtain ⟨-, -, ⟨j, hj, hg, he⟩ | ⟨hj, hi⟩⟩ := hr
  · exact ⟨hg, fun h0 => he (fun hj0 => hj (hj0.trans h0.symm))⟩
  · exact ⟨(keyStep_of_eq _ _ hj hi).1, fun _ => (keyStep_of_eq _ _ hj hi).2⟩

theorem intent_put_self {name : PhaseName} (ho : s.journal.record h = some (p, q, old)) :
    (s.put h new).intent h name = new.intent name :=
  World.intent_eq (World.record_put ho new) name

theorem intent_put_of_ne {h' : Handle} {name : PhaseName} (hne : h' ≠ h) :
    (s.put h new).intent h' name = s.intent h' name := by
  simp only [World.intent, World.record_put_of_ne new hne]

/-- The replacement of a record that keeps its intents. -/
theorem keysInv_put (hs : KeysInv s) (ho : s.journal.record h = some (p, q, old))
    (hi : ∀ name, new.intent name = old.intent name) (hk : OwnKeys h new) :
    KeysInv (s.put h new) := by
  have hsame : ∀ h' name, (s.put h new).intent h' name = s.intent h' name := by
    intro h' name
    by_cases hne : h' = h
    · subst hne
      rw [intent_put_self ho, hi, World.intent_eq ho]
    · exact intent_put_of_ne hne
  refine ⟨hs.functional, hs.slots, fun h' n j hj => hs.stored h' n j (hsame h' n ▸ hj),
    fun h' n hn => hs.absent h' n (hsame h' n ▸ hn), hs.sent, fun h' p' r' d hd => ?_⟩
  by_cases hne : h' = h
  · subst hne
    rw [World.record_put ho] at hd
    cases hd
    exact hk
  · rw [World.record_put_of_ne _ hne] at hd
    exact hs.keys h' p' r' d hd

theorem past_put (new : Record) (ho : s.journal.record h = some (p, q, old))
    (he : earlyPhase old.phase = false → earlyPhase new.phase = false) (h' : Handle)
    (hp : Past h' s) : Past h' (s.put h new) := by
  obtain ⟨p', r', d, hd, hd'⟩ := hp
  by_cases hne : h' = h
  · subst hne
    cases Option.some.inj (ho.symm.trans hd)
    exact ⟨_, _, new, World.record_put ho new, he hd'⟩
  · exact ⟨p', r', d, (World.record_put_of_ne new hne).trans hd, hd'⟩

theorem earlyKept_put (ho : s.journal.record h = some (p, q, old))
    (he : earlyPhase old.phase = true → new.phase = old.phase ∧
      new.phaseIntents = old.phaseIntents) : EarlyKept s (s.put h new) := by
  intro h' p' r' d hd hearly
  by_cases hne : h' = h
  · subst hne
    cases Option.some.inj (ho.symm.trans hd)
    exact ⟨new, World.record_put ho new, he hearly⟩
  · exact ⟨d, (World.record_put_of_ne new hne).trans hd, rfl, rfl⟩

/-- A new intent with a generation above all that were issued for its phase. -/
theorem keysInv_issue {name : PhaseName} {intent : Intent} (hs : KeysInv s)
    (ho : s.journal.record h = some (p, q, old))
    (hkey : intent.idempotencyKey.IsFor h name intent.generation)
    (hgen : ∀ j, (h, name, j) ∈ s.issued → j.generation < intent.generation) :
    KeysInv (s.issue h name old intent) := by
  have hother : ∀ h' n, (h', n) ≠ (h, name) →
      (s.issue h name old intent).intent h' n = s.intent h' n := by
    intro h' n hne
    by_cases hh : h' = h
    · subst hh
      have hn : n ≠ name := fun e => hne (by rw [e])
      rw [World.intent_eq ho]
      exact (World.intent_eq (World.record_put ho _) n).trans
        (Record.setIntent_intent_of_ne old intent hn)
    · exact intent_put_of_ne hh
  refine ⟨?_, ?_, ?_, ?_, ?_, ?_⟩
  · intro h' n j k hj hk hg
    rcases List.mem_cons.mp hj with hj | hj <;> rcases List.mem_cons.mp hk with hk | hk
    · cases hj
      cases hk
      rfl
    · cases hj
      exact absurd hg (hgen k hk).ne'
    · cases hk
      exact absurd hg (hgen j hj).ne
    · exact hs.functional h' n j k hj hk hg
  · intro h' n j hj
    rcases List.mem_cons.mp hj with hj | hj
    · cases hj
      exact hkey
    · exact hs.slots h' n j hj
  · intro h' n j hj
    by_cases hslot : (h', n) = (h, name)
    · cases hslot
      rw [World.intent_issue ho name intent] at hj
      cases hj
      refine ⟨List.mem_cons_self, fun k hk => ?_⟩
      rcases List.mem_cons.mp hk with hk | hk
      · cases hk
        exact le_rfl
      · exact (hgen k hk).le
    · rw [hother h' n hslot] at hj
      obtain ⟨hm, hmax⟩ := hs.stored h' n j hj
      refine ⟨List.mem_cons_of_mem _ hm, fun k hk => ?_⟩
      rcases List.mem_cons.mp hk with hk | hk
      · cases hk
        exact absurd rfl hslot
      · exact hmax k hk
  · intro h' n hn j hj
    by_cases hslot : (h', n) = (h, name)
    · cases hslot
      rw [World.intent_issue ho name intent] at hn
      cases hn
    · rw [hother h' n hslot] at hn
      rcases List.mem_cons.mp hj with hj | hj
      · cases hj
        exact hslot rfl
      · exact hs.absent h' n hn j hj
  · intro m hm
    obtain ⟨h', n, j, hj, hrest⟩ := hs.sent m hm
    exact ⟨h', n, j, List.mem_cons_of_mem _ hj, hrest⟩
  · intro h' p' r' d hd
    by_cases hh : h' = h
    · subst hh
      rw [World.issue, World.record_put ho] at hd
      cases hd
      exact ⟨(hs.keys h' p q old ho).1, (hs.keys h' p q old ho).2, (hs.keys h' p q old ho).3,
        (hs.keys h' p q old ho).4, (hs.keys h' p q old ho).5⟩
    · rw [World.issue, World.record_put_of_ne _ hh] at hd
      exact hs.keys h' p' r' d hd

theorem keyStep_issue {name : PhaseName} {intent : Intent}
    (ho : s.journal.record h = some (p, q, old)) : KeyStep s (s.issue h name old intent) :=
  ⟨fun _ hx => List.mem_cons_of_mem _ hx,
    fun h' hp => past_put (old.setIntent name intent) ho (fun he => he) h' hp⟩

theorem CopyKnown.put (hk : CopyKnown i t r s) (new : Record) (ho : s.journal.record h = some (p, q, old))
    (hp : new.phase = old.phase) : CopyKnown i t r (s.put h new) := by
  refine ⟨hk.keys, fun h0 hr => ?_, fun hr => past_put _ ho (fun he => hp ▸ he) _ (hk.past hr)⟩
  obtain ⟨p', q', d, hd, hdp⟩ := hk.early h0 hr
  by_cases hne : t.handle = h
  · subst hne
    cases Option.some.inj (ho.symm.trans hd)
    exact ⟨_, _, new, World.record_put ho new, hp.trans hdp⟩
  · exact ⟨p', q', d, (World.record_put_of_ne new hne).trans hd, hdp⟩

/-- The copy of a record that was just written. -/
theorem copyKnown_of_record (hk : OwnKeys t.handle r)
    (hd : s.journal.record t.handle = some (p, q, new)) (hp : new.phase = r.phase) :
    CopyKnown i t r s :=
  ⟨hk, fun _ _ => ⟨p, q, new, hd, hp⟩, fun he => ⟨p, q, new, hd, hp ▸ he⟩⟩

theorem Asks.key {part : Part} {name : PhaseName} {payload : Payload} {key : Option Key}
    {key' : Key} (ha : Asks t r part name payload key) (hk : OwnKeys t.handle r)
    (h : key' = defaultKey t name payload ∨ key = some key') : key'.IsFor t.handle name 0 := by
  rcases h with rfl | h
  · exact ⟨rfl, rfl⟩
  · cases ha with
    | createWorkspace => exact hk.createWorkspace key' h
    | dispatchAttempt => exact hk.dispatch key' h
    | handback => exact hk.handback key' h
    | report => exact hk.report key' h
    | release => exact hk.release key' h
    | heartbeat | resume | verify | coordinate => cases h

/-- A worker's request is made in a phase after the early ones. -/
theorem Asks.late {name : PhaseName} {payload : Payload} {key : Option Key}
    (ha : Asks t r .renew name payload key) : earlyPhase r.phase = false := by
  cases ha with
  | heartbeat attemptId leaseId planRevisionId hp =>
    rcases hp with hp | hp <;> rw [hp] <;> rfl

theorem coordinateChanges_keeps (action : CoordinateAction) (r : Record) (result : Dict)
    (operations : ActionId → Option OperationEntry) :
    OwnKeys h (coordinateChanges action r result operations) ∧
      (coordinateChanges action r result operations).phaseIntents = none ∧
      earlyPhase (coordinateChanges action r result operations).phase = false := by
  have hkeep : ∀ d : Record, d.createWorkspaceKey = none → d.dispatchKey = none →
      d.reportKey = none → d.handbackKey = none → d.releaseKey = none → d.phaseIntents = none →
      earlyPhase d.phase = false → OwnKeys h d ∧ d.phaseIntents = none ∧
        earlyPhase d.phase = false :=
    fun d h1 h2 h3 h4 h5 h6 h7 => ⟨ownKeys_of_none h1 h2 h3 h4 h5, h6, h7⟩
  unfold coordinateChanges
  split
  · split <;> exact hkeep _ rfl rfl rfl rfl rfl rfl rfl
  · exact hkeep _ rfl rfl rfl rfl rfl rfl rfl
  · exact hkeep _ rfl rfl rfl rfl rfl rfl rfl
  · dsimp only
    split <;> exact hkeep _ rfl rfl rfl rfl rfl rfl rfl
  · exact hkeep _ rfl rfl rfl rfl rfl rfl rfl
  · exact hkeep _ rfl rfl rfl rfl rfl rfl rfl
  · exact hkeep _ rfl rfl rfl rfl rfl rfl rfl

theorem Writes.keeps {c : Codec} {r₀ changes : Record} {answer : Payload → Dict → Prop}
    {merged : Prop} {part : Part} {entered : Option Phase}
    (hw : Writes c t r₀ r answer merged part entered changes) :
    OwnKeys t.handle changes ∧ changes.phaseIntents = none ∧ earlyPhase changes.phase = false ∧
      (part = .renew → changes.phase = none) := by
  cases hw with
  | resumed => exact ⟨ownKeys_of_none rfl rfl rfl rfl rfl, rfl, rfl, fun _ => rfl⟩
  | renewed => exact ⟨ownKeys_of_none rfl rfl rfl rfl rfl, rfl, rfl, fun _ => rfl⟩
  | context => exact ⟨ownKeys_of_none rfl rfl rfl rfl rfl, rfl, rfl, fun h => by cases h⟩
  | finish action note reason token hp hm =>
    refine ⟨⟨by simp [finishRecord], by simp [finishRecord], fun k hk => ?_, fun k hk => ?_,
      fun k hk => ?_⟩, rfl, rfl, fun h => by cases h⟩
    · cases hk
      exact ⟨rfl, rfl⟩
    · cases hk
      exact ⟨rfl, rfl⟩
    · cases hk
      exact ⟨rfl, rfl⟩
  | handedBack =>
    refine ⟨ownKeys_of_none rfl rfl rfl rfl rfl, rfl, ?_, fun h => by cases h⟩
    split <;> rfl
  | reported => exact ⟨ownKeys_of_none rfl rfl rfl rfl rfl, rfl, rfl, fun h => by cases h⟩
  | released => exact ⟨ownKeys_of_none rfl rfl rfl rfl rfl, rfl, rfl, fun h => by cases h⟩
  | recovered => exact ⟨ownKeys_of_none rfl rfl rfl rfl rfl, rfl, rfl, fun h => by cases h⟩
  | integrated => exact ⟨ownKeys_of_none rfl rfl rfl rfl rfl, rfl, rfl, fun h => by cases h⟩
  | pending => exact ⟨ownKeys_of_none rfl rfl rfl rfl rfl, rfl, rfl, fun h => by cases h⟩
  | coordinated action result operations hc =>
    obtain ⟨h1, h2, h3⟩ := coordinateChanges_keeps (h := t.handle) action r₀ result operations
    exact ⟨h1, h2, h3, fun h => by cases h⟩

theorem earlyPhase_merge {changes : Record} (hc : earlyPhase changes.phase = false)
    (ho : earlyPhase old.phase = false) : earlyPhase (old.merge changes).phase = false := by
  cases hp : changes.phase with
  | none => simpa [hp] using ho
  | some p => simpa [hp] using hp ▸ hc

/-- A merge without intents into the stored record. -/
theorem keys_merge (changes : Record) (hs : KeysInv s) (ho : s.Holds t old)
    (hk : OwnKeys t.handle changes) (hi : changes.phaseIntents = none)
    (hc : earlyPhase changes.phase = false) :
    KeysInv (s.put t.handle (old.merge changes)) ∧
      KeyStep s (s.put t.handle (old.merge changes)) ∧
      (changes.phase = none → EarlyKept s (s.put t.handle (old.merge changes))) := by
  refine ⟨keysInv_put hs ho (Record.merge_intent_of_none old changes hi)
    ((hs.keys _ _ _ _ ho).merge hk),
    ⟨fun _ hx => hx, fun h' hp => past_put _ ho (earlyPhase_merge hc) h' hp⟩, fun hp => ?_⟩
  exact earlyKept_put ho (fun _ => ⟨by simp [hp], by simp [Record.merge, hi]⟩)

theorem keys_update {c : Codec} {r₀ changes : Record} {answer : Payload → Dict → Prop}
    {merged : Prop} {part : Part} {entered : Option Phase}
    (hw : Writes c t r₀ r answer merged part entered changes)
    (hpart : i ≠ 0 → part = .renew) (hs : KeysInv s) (hr : CopyKnown i t r s)
    (ho : s.Holds t old) :
    let s' := s.put t.handle (old.merge changes)
    KeysInv s' ∧ (KeyStep s s' ∧ (i ≠ 0 → EarlyKept s s')) ∧
      CopyKnown i t (r.merge changes) s' := by
  obtain ⟨hk, hi, hc, hrenew⟩ := hw.keeps
  obtain ⟨h1, h2, h3⟩ := keys_merge changes hs ho hk hi hc
  refine ⟨h1, ⟨h2, fun h0 => h3 (hrenew (hpart h0))⟩, ?_⟩
  cases hp : changes.phase with
  | none =>
    have hr' := hr.put (old.merge changes) ho (by simp [hp])
    exact ⟨hr.keys.merge hk, by simpa [hp] using hr'.early, by simpa [hp] using hr'.past⟩
  | some phase =>
    exact copyKnown_of_record (hr.keys.merge hk) (World.record_put ho _) (by simp [hp])

theorem keys_overwrite {r₀ changes : Record} {entered : Option Phase}
    (hw : Overwrites r₀ r entered changes) (hs : KeysInv s) (h₀ : CopyKnown 0 t r₀ s)
    (hr : CopyMerged 0 t r s) (ho : s.Holds t old) :
    let s' := s.put t.handle (old.merge changes)
    KeysInv s' ∧ KeyStep s s' ∧ CopyKnown 0 t changes s' := by
  have hearly : earlyPhase r₀.phase = true := by
    cases hw with
    | workspace d hp => rw [hp]; rfl
    | dispatched a l d hp => rw [hp]; rfl
  obtain ⟨p, q, d, hd, hdp⟩ := h₀.early rfl hearly
  cases Option.some.inj (ho.symm.trans hd)
  have hold : earlyPhase old.phase = true := hdp ▸ hearly
  -- the merged copy is in an early phase too, since its record is
  have hre : earlyPhase r.phase = true := by
    cases he : earlyPhase r.phase with
    | true => rfl
    | false =>
      obtain ⟨p', q', d', hd', hf⟩ := hr.1.past he
      cases Option.some.inj (ho.symm.trans hd')
      rw [hold] at hf
      cases hf
  obtain ⟨p', q', d', hd', -, hint⟩ := hr.2 rfl hre
  cases Option.some.inj (ho.symm.trans hd')
  have hkeys : OwnKeys t.handle changes := by
    cases hw with
    | workspace => exact ⟨hr.1.keys.1, hr.1.keys.2, hr.1.keys.3, hr.1.keys.4, hr.1.keys.5⟩
    | dispatched => exact ⟨hr.1.keys.1, hr.1.keys.2, hr.1.keys.3, hr.1.keys.4, hr.1.keys.5⟩
  have hci : changes.phaseIntents = old.phaseIntents := by
    cases hw with
    | workspace => exact hint.symm
    | dispatched => exact hint.symm
  have hcp : (old.merge changes).phase = changes.phase := by
    cases hw with
    | workspace => rfl
    | dispatched => rfl
  refine ⟨keysInv_put hs ho (fun name => ?_) ((hs.keys _ _ _ _ ho).merge hkeys),
    ⟨fun _ hx => hx, fun h' hp => past_put _ ho (fun he => ?_) h' hp⟩,
    copyKnown_of_record hkeys (World.record_put ho _) hcp⟩
  · simp [Record.intent, Record.merge, hci]
  · rw [hold] at he
    cases he

theorem CopyKnown.merge {data : Record} (hs : KeysInv s) (hk : CopyKnown i t r s)
    (ho : s.Holds t data) : CopyKnown i t (r.merge data) s := by
  have hkeys := hk.keys.merge (hs.keys _ _ _ _ ho)
  cases hp : data.phase with
  | none => exact ⟨hkeys, by simpa [hp] using hk.early, by simpa [hp] using hk.past⟩
  | some phase => exact copyKnown_of_record hkeys ho (by simp [hp])

theorem copyMerged_of_intent {data : Record} {name : PhaseName} {intent : Intent}
    (hs : KeysInv s) (hk : CopyKnown i t r s) (ho : s.Holds t data)
    (hi : data.intent name = some intent) : CopyMerged i t (r.merge data) s := by
  refine ⟨hk.merge hs ho, fun h0 he => ⟨_, _, data, ho, ?_, ?_⟩⟩
  · cases hp : data.phase with
    | some phase => simp [hp]
    | none =>
      -- an early copy is in the phase of its record, which has one
      have he' : earlyPhase r.phase = true := by simpa [hp] using he
      obtain ⟨p, q, d, hd, hdp⟩ := hk.early h0 he'
      cases Option.some.inj (ho.symm.trans hd)
      simpa [hp] using hdp
  · cases hm : data.phaseIntents with
    | some m => simp [Record.merge, hm]
    | none => simp [Record.intent, hm] at hi

theorem earlyKept_of_past (new : Record) (ho : s.Holds t old) (hp : Past t.handle s) :
    EarlyKept s (s.put t.handle new) := by
  refine earlyKept_put ho (fun he => ?_)
  obtain ⟨p, q, d, hd, hf⟩ := hp
  cases Option.some.inj (ho.symm.trans hd)
  rw [he] at hf
  cases hf

theorem keys_issue {name : PhaseName} {payload : Payload} {key : Option Key} {part : Part}
    {intent : Intent} (ha : Asks t r part name payload key) (hpart : i ≠ 0 → part = .renew)
    (hs : KeysInv s) (hr : CopyKnown i t r s) (ho : s.Holds t old)
    (hkey : intent.idempotencyKey.IsFor t.handle name intent.generation)
    (hgen : ∀ j, (t.handle, name, j) ∈ s.issued → j.generation < intent.generation) :
    let s' := s.issue t.handle name old intent
    KeysInv s' ∧ (KeyStep s s' ∧ (i ≠ 0 → EarlyKept s s')) ∧
      ∀ r', CopyKnown i t r' s → CopyKnown i t r' s' := by
  refine ⟨keysInv_issue hs ho hkey hgen, ⟨keyStep_issue ho, fun h0 => ?_⟩, fun r' hk => ?_⟩
  · have hp := hpart h0
    subst hp
    exact earlyKept_of_past (old.setIntent name intent) ho (hr.past ha.late)
  · obtain ⟨h1, h2, h3⟩ := hk.put (old.setIntent name intent) ho rfl
    exact ⟨h1, h2, h3⟩

theorem keys_send {m : Sent} {a : A} (hs : KeysInv s)
    (hm : ∃ h n j, (h, n, j) ∈ s.issued ∧ j.payload = m.payload ∧ j.idempotencyKey = m.key ∧
      j.expectedRevision = m.revision) :
    KeysInv { s with native := a, sent := m :: s.sent } := by
  refine ⟨hs.functional, hs.slots, hs.stored, hs.absent, fun m' hm' => ?_, hs.keys⟩
  rcases List.mem_cons.mp hm' with rfl | hm'
  · exact hm
  · exact hs.sent m' hm'

theorem keys_select (hs : KeysInv s) (ho : s.Holds t old) (hp : old.phase = some .selecting)
    (hn : new = { old with phase := some .noWork } ∨ ∃ requested candidate sel,
      new = old.merge (preparedRecord t requested candidate sel)) :
    KeysInv (s.put t.handle new) ∧ KeyStep s (s.put t.handle new) := by
  have hstep : KeyStep s (s.put t.handle new) := by
    refine ⟨fun _ hx => hx, fun h' hpast => past_put _ ho (fun he => ?_) h' hpast⟩
    rw [hp] at he
    cases he
  have hold := hs.keys _ _ _ _ ho
  rcases hn with rfl | ⟨requested, candidate, sel, rfl⟩
  · exact ⟨keysInv_put hs ho (fun _ => rfl) ⟨hold.1, hold.2, hold.3, hold.4, hold.5⟩, hstep⟩
  · refine ⟨keysInv_put hs ho (Record.merge_intent_of_none _ _ rfl) (hold.merge ?_), hstep⟩
    refine ⟨fun k hk => ?_, fun k hk => ?_, by simp [preparedRecord], by simp [preparedRecord],
      by simp [preparedRecord]⟩
    · cases hk
      exact ⟨rfl, rfl⟩
    · cases hk
      exact ⟨rfl, rfl⟩

/-- A journal with a new record under a fresh handle. -/
theorem keys_append {token : Handle} {j : Journal} (data : Record) (hs : KeysInv s)
    (hf : s.journal.rows token = [])
    (hself : Journal.record j token = some (p, q, data))
    (hother : ∀ h, h ≠ token → Journal.record j h = s.journal.record h)
    (hi : data.phaseIntents = none) (hk : OwnKeys token data) :
    KeysInv { s with journal := j } ∧ KeyStep s { s with journal := j } := by
  have hnone : s.journal.record token = none := by
    cases hr : s.journal.record token with
    | none => rfl
    | some row =>
      rw [Journal.record_eq_some, hf] at hr
      cases hr
  have hsame : ∀ h n, World.intent { s with journal := j } h n = s.intent h n := by
    intro h n
    by_cases hh : h = token
    · subst hh
      simp [World.intent, hself, hnone, Record.intent, hi]
    · simp [World.intent, hother h hh]
  refine ⟨⟨hs.functional, hs.slots, fun h n i hn => hs.stored h n i (hsame h n ▸ hn),
    fun h n hn => hs.absent h n (hsame h n ▸ hn), hs.sent, fun h p' r' d hd => ?_⟩,
    fun _ hx => hx, fun h hp => ?_⟩
  · by_cases hh : h = token
    · subst hh
      cases Option.some.inj (hself.symm.trans hd)
      exact hk
    · exact hs.keys h p' r' d ((hother h hh).symm.trans hd)
  · obtain ⟨p', r', d, hd, he⟩ := hp
    have hh : h ≠ token := by
      rintro rfl
      rw [hnone] at hd
      cases hd
    exact ⟨p', r', d, (hother h hh).trans hd, he⟩

def clientParts (i : ℕ) (part : Part) : Prop := i ≠ 0 → part = .renew

theorem keyRules (i : ℕ) (N : NativeHost A) (c : Codec) :
    HostRules (keySpec (A := A)) i N c (keyKnowledge i) (clientParts i)
      (fun _ => True) where
  refl := fun s => ⟨KeyStep.refl s, fun _ => EarlyKept.refl s⟩
  copy_stable := fun _ _ _ _ hr hk => hk.step (keyRely hr).1 (keyRely hr).2
  merged_stable := fun _ _ _ _ _ hr hk => hk.step (keyRely hr).1 (keyRely hr).2
  request_stable := by
    rintro t name payload req s s' hr ⟨intent, hi, hrest⟩
    exact ⟨intent, (keyRely hr).1.issued _ hi, hrest⟩
  answer_stable := fun _ _ => stable_true
  learn := fun _ hs ho => copyKnown_of_record (hs.keys _ _ _ _ ho) ho rfl
  relearn := fun hs _ ho => copyKnown_of_record (hs.keys _ _ _ _ ho) ho rfl
  scope := fun hk => ⟨⟨hk.keys.1, hk.keys.2, hk.keys.3, hk.keys.4, hk.keys.5⟩, hk.early, hk.past⟩
  merge := fun hs hk ho => hk.merge hs ho
  fresh := fun hs _ hk ho hi => copyMerged_of_intent hs hk ho hi
  known := fun hs _ ho hi => ⟨_, (hs.stored _ _ _ ((World.intent_eq ho _).trans hi)).1, rfl, rfl, rfl⟩
  merged_copy := fun hk => hk.1
  read := by
    intro s call v hs _
    obtain ⟨h1, h2⟩ := keyStep_of_eq s
      { s with native := (N.serve s.native call v).1 } rfl rfl
    exact ⟨⟨hs.functional, hs.slots, hs.stored, hs.absent, hs.sent, hs.keys⟩,
      ⟨h1, fun _ => h2⟩, fun _ _ hk => hk.step h1 (fun _ => h2)⟩
  persist := by
    intro s part t r old name payload key key' revision hp ha hs hr hk _ ho hn
    refine keys_issue ha hp hs hr ho (ha.key hr.keys hk) (fun j hj => ?_)
    exact absurd hj (hs.absent _ _ ((World.intent_eq ho _).trans hn) j)
  refresh := by
    intro s part t r old name payload key rejected revision intent hp ha hs hr _ ho hi _ _
    refine keys_issue ha hp hs hr ho ⟨rfl, rfl⟩ (fun j hj => ?_)
    exact Nat.lt_succ_of_le ((hs.stored _ _ _ ((World.intent_eq ho _).trans hi)).2 j hj)
  send := by
    intro s part t r name payload key request project repository v hp ha hs hr hq _
    obtain ⟨h1, h2⟩ := keyStep_of_eq s { s with
      native := (N.serve s.native ⟨payload.tool, project, repository, payload.arguments,
        some request.1, some request.2⟩ v).1
      sent := ⟨payload, request.1, request.2, (N.serve s.native ⟨payload.tool, project,
        repository, payload.arguments, some request.1, some request.2⟩ v).2⟩ :: s.sent } rfl rfl
    obtain ⟨intent, hi, hrest⟩ := hq
    exact ⟨keys_send hs ⟨_, _, intent, hi, hrest⟩, ⟨h1, fun _ => h2⟩,
      fun _ hk => hk.step h1 (fun _ => h2), fun _ _ hk => hk.step h1 (fun _ => h2),
      fun _ _ => trivial⟩
  update := fun hp hw hs _ hr _ ho => keys_update hw hp hs hr ho
  overwrite := by
    intro s t r₀ r changes old entered hp hw hs h₀ hr _ ho
    have h0 : i = 0 := by
      by_contra h
      cases hp h
    subst h0
    obtain ⟨h1, h2, h3⟩ := keys_overwrite hw hs h₀ hr ho
    exact ⟨h1, ⟨h2, fun h => absurd rfl h⟩, h3⟩
  note := by
    intro s t reason old _ hs _ ho
    obtain ⟨h1, h2, h3⟩ := keys_merge { renewalAttention := some (some reason) } hs ho
      (ownKeys_of_none rfl rfl rfl rfl rfl) rfl rfl
    exact ⟨h1, h2, fun _ => h3 rfl⟩
  select := by
    intro s t r old new hp hs _ _ ho hsel hn
    have h0 : i = 0 := by
      by_contra h
      cases hp h
    obtain ⟨h1, h2⟩ := keys_select hs ho hsel hn
    exact ⟨h1, ⟨h2, fun h => absurd h0 h⟩,
      copyKnown_of_record (h1.keys _ _ _ _ (World.record_put ho _)) (World.record_put ho _) rfl⟩
  reserve := by
    intro s project repository request token hp hs _ hf _
    have h0 : i = 0 := by
      by_contra h
      cases hp h
    obtain ⟨h1, h2⟩ := keys_append _ hs hf (Journal.record_appendReservation_self hf)
      (fun h hh => Journal.record_appendReservation_of_ne hh) rfl
      (ownKeys_of_none rfl rfl rfl rfl rfl)
    exact ⟨h1, h2, fun h => absurd h0 h⟩
  review := by
    intro s project repository token candidate hp hs _ hf
    have h0 : i = 0 := by
      by_contra h
      cases hp h
    obtain ⟨h1, h2⟩ := keys_append
      { candidate.record project repository with phase := some .reviewPending } hs hf
      (Journal.record_append_self hf)
      (fun h hh => Journal.record_append_of_ne hh) rfl (ownKeys_of_none rfl rfl rfl rfl rfl)
    exact ⟨h1, h2, fun h => absurd h0 h⟩

theorem keysInv_of_new (hn : ∀ h, s.journal.rows h = []) (hi : s.issued = [])
    (hm : s.sent = []) : KeysInv s := by
  have hnone : ∀ h, s.journal.record h = none := by
    intro h
    simp [Journal.record, hn h]
  refine ⟨by simp [hi], by simp [hi], fun h n i hj => ?_, by simp [hi], by simp [hm],
    fun h p r d hd => ?_⟩
  · simp [World.intent, hnone h] at hj
  · rw [hnone h] at hd
    cases hd

/-- Two requests with one key come from one issued intent. -/
theorem KeysInv.same_request (hs : KeysInv s) {m m' : Sent} (hm : m ∈ s.sent)
    (hm' : m' ∈ s.sent) (hk : m.key = m'.key) :
    m.payload = m'.payload ∧ m.revision = m'.revision := by
  obtain ⟨h, n, i, hi, hpay, hkey, hrev⟩ := hs.sent m hm
  obtain ⟨h', n', i', hi', hpay', hkey', hrev'⟩ := hs.sent m' hm'
  obtain ⟨rfl, hslot⟩ := hs.slots h n i hi
  obtain ⟨rfl, hslot'⟩ := hs.slots h' n' i' hi'
  have hsame : i.idempotencyKey = i'.idempotencyKey := hkey.trans (hk.trans hkey'.symm)
  rw [hsame, hslot'] at hslot
  obtain ⟨rfl, hgen⟩ := Prod.mk.inj hslot
  obtain rfl := hs.functional _ _ i i' hi (hsame ▸ hi') hgen.symm
  exact ⟨hpay.symm.trans hpay', hrev.symm.trans hrev'⟩

end Keys

/-- One sequential client, which may crash and call again at any point, and any
number of renewal workers that its process runs beside it. -/
def clientSystem {A ω : Type} (N : NativeHost A) (c : Codec) (env : A → ω → Option A) :
    System ℕ (World A) Input Label Err Unit ToolCall ω :=
  { compactSystem N c env with
    program := fun i call => if i = 0 then call.program N c else
      match call with
      | .renew t => renewalPass N c t
      | _ => .done () }

theorem clientSystem_sound {A ω : Type} (N : NativeHost A) (c : Codec)
    (env : A → ω → Option A) : (keySpec (A := A)).Sound (clientSystem N c env) where
  crash := fun _ s hs => ⟨hs, KeyStep.refl s, fun _ => EarlyKept.refl s⟩
  env := by
    intro s e s' hs he
    obtain ⟨a, -, rfl⟩ := Option.map_eq_some_iff.mp he
    exact ⟨⟨hs.functional, hs.slots, hs.stored, hs.absent, hs.sent, hs.keys⟩, rfl, rfl⟩
  program := by
    intro i call
    simp only [clientSystem]
    split
    · rename_i h0
      exact triple_toolCall (keyRules i N c) (fun _ => trivial) (fun part h => absurd h0 h) call
    · split
      · exact triple_renewalPass (keyRules i N c) trivial (fun _ => rfl)
      · exact triple_finished

/-- Whatever is lost and retried, a key stands for one request. -/
theorem equal_keys_equal_requests {A ω : Type} (N : NativeHost A) (c : Codec)
    (env : A → ω → Option A) {p q : Pool ℕ (World A) Input Label Err Unit}
    (hidle : ∀ i, p.threads i = none) (hnew : ∀ h, p.shared.journal.rows h = [])
    (hissued : p.shared.issued = []) (hsent : p.shared.sent = [])
    (h : (clientSystem N c env).Reach System.anyStep p q) :
    ∀ m ∈ q.shared.sent, ∀ m' ∈ q.shared.sent, m.key = m'.key →
      m.payload.tool = m'.payload.tool ∧ m.payload.arguments = m'.payload.arguments ∧
        m.revision = m'.revision := by
  have hsafe := poolSafe_reach (clientSystem_sound N c env)
    (poolSafe_of_idle (keysInv_of_new hnew hissued hsent) hidle) h
  intro m hm m' hm' hk
  obtain ⟨hpay, hrev⟩ := hsafe.1.same_request hm hm' hk
  exact ⟨congrArg Payload.tool hpay, congrArg Payload.arguments hpay, hrev⟩

section Runs

/-- The reply to the dispatch is lost, and the next call sends it again. -/
def lostDispatch : List (Action ℕ Input ToolCall Empty) :=
  .start 0 (.nextTask false "atlas" "main" {}) ::
    List.replicate 10 (.act 0 (served "wf")) ++ [.act 0 { reply := .raised }] ++
    .start 0 (.nextTask false "atlas" "main" {}) :: List.replicate 3 (.act 0 (served "other"))

theorem lost_dispatch_is_replayed :
    ∃ q, (clientSystem anyHost .small (fun _ (e : Empty) => nomatch e)).Reach
        System.anyStep newPool q ∧
      q.shared.sent.map (fun m => (m.payload.tool, m.revision)) =
        [(.dispatchAttempt, 5), (.dispatchAttempt, 5), (.createWorkspace, 5)] ∧
      ∀ m ∈ q.shared.sent, ∀ m' ∈ q.shared.sent, m.key = m'.key →
        m.payload.tool = m'.payload.tool ∧ m.payload.arguments = m'.payload.arguments ∧
          m.revision = m'.revision := by
  obtain ⟨q, hq, hf⟩ := System.exists_reach
    (clientSystem anyHost .small (fun _ (e : Empty) => nomatch e)) System.anyStep lostDispatch
    (p := newPool) (f := fun q => q.shared.sent.map (fun m => (m.payload.tool, m.revision)))
    (b := [(.dispatchAttempt, 5), (.dispatchAttempt, 5), (.createWorkspace, 5)])
    (by decide +kernel)
  exact ⟨q, hq, hf, equal_keys_equal_requests anyHost .small _ (fun _ => rfl) (fun _ => rfl)
    rfl rfl hq⟩

end Runs

end ProjectControl.Compact
