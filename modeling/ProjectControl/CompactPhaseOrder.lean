import Mathlib.Data.List.Count
import Mathlib.Order.Nat
import ProjectControl.CompactTools

/-! The order of the phases of authoring records, and the one active record of a
scope, over any run of calls that share a journal. -/

set_option autoImplicit false

namespace ProjectControl.Compact

open Resumption Resumption.Spec

/-- The place of a phase in the life of an authoring record. -/
def Phase.rank : Phase → Option ℕ
  | .selecting => some 0
  | .workspacePending => some 1
  | .dispatchPending => some 2
  | .contextPending => some 3
  | .active => some 4
  | .handbackPending => some 5
  | .reportPending | .releasePending => some 6
  | .reviewPending | .released => some 7
  | .finishing | .noWork | .reviewAccepted | .reviewRejected | .integrated => none

/-- The order of the phases; nothing follows `no_work`. -/
def Phase.before (a b : Phase) : Bool :=
  if b = .noWork then a = .selecting
  else match a.rank, b.rank with
    | some m, some n => m < n
    | _, _ => false

def NotBackwards (old new : Option Phase) : Prop :=
  new = old ∨ ∃ a b, old = some a ∧ new = some b ∧ a.before b = true

def reviewPhase : Option Phase → Bool
  | some .reviewPending | some .reviewAccepted | some .reviewRejected | some .integrated => true
  | _ => false

theorem Phase.before_iff {a b : Phase} : a.before b = true ↔
    (b = .noWork ∧ a = .selecting) ∨
      ∃ m n, a.rank = some m ∧ b.rank = some n ∧ m < n := by
  unfold before
  split
  · rename_i hb
    subst hb
    simp [rank]
  · rename_i hb
    cases ha : a.rank <;> cases hn : b.rank <;> simp [hb]

theorem Phase.before_trans {a b d : Phase} (hab : a.before b = true) (hbd : b.before d = true) :
    a.before d = true := by
  rw [before_iff] at hab hbd ⊢
  rcases hab with ⟨rfl, rfl⟩ | ⟨m, n, ha, hb, hlt⟩
  · rcases hbd with ⟨-, h⟩ | ⟨m, n, h, -⟩
    · cases h
    · cases h
  · rcases hbd with ⟨-, rfl⟩ | ⟨n', k, hb', hd, hlt'⟩
    · cases hb
      exact absurd hlt (Nat.not_lt_zero m)
    · obtain rfl : n = n' := Option.some.inj (hb.symm.trans hb')
      exact Or.inr ⟨m, k, ha, hd, hlt.trans hlt'⟩

theorem Phase.isActive_of_rank {a : Phase} {m : ℕ} (h : a.rank = some m) (hm : m < 7) :
    a.isActive = true := by
  cases a <;> simp_all [rank, isActive]

theorem Phase.rank_of_isActive {a : Phase} {m : ℕ} (h : a.rank = some m)
    (ha : a.isActive = true) : m < 7 := by
  cases a <;> simp_all [rank, isActive] <;> omega

theorem Phase.isActive_of_before {a b : Phase} (h : a.before b = true) (hb : b.isActive = true) :
    a.isActive = true := by
  rcases before_iff.mp h with ⟨rfl, -⟩ | ⟨m, n, ha, hn, hlt⟩
  · cases hb
  · exact isActive_of_rank ha (hlt.trans (rank_of_isActive hn hb))

theorem NotBackwards.refl (p : Option Phase) : NotBackwards p p := Or.inl rfl

theorem NotBackwards.trans {p q r : Option Phase} (hpq : NotBackwards p q)
    (hqr : NotBackwards q r) : NotBackwards p r := by
  rcases hpq with rfl | ⟨a, b, rfl, rfl, hab⟩
  · exact hqr
  · rcases hqr with rfl | ⟨b', d, hb, rfl, hbd⟩
    · exact Or.inr ⟨a, b, rfl, rfl, hab⟩
    · cases hb
      exact Or.inr ⟨a, d, rfl, rfl, Phase.before_trans hab hbd⟩

theorem NotBackwards.isActive {p q : Option Phase} (h : NotBackwards p q)
    (hq : q.any Phase.isActive = true) : p.any Phase.isActive = true := by
  rcases h with rfl | ⟨a, b, rfl, rfl, hab⟩
  · exact hq
  · exact Phase.isActive_of_before hab hq

theorem not_isActive_of_reviewPhase {p : Option Phase} (h : reviewPhase p = true) :
    p.any Phase.isActive = false := by
  cases p with
  | none => rfl
  | some p => cases p <;> simp_all [reviewPhase, Phase.isActive]

namespace Journal

/-- The handles of the records of a scope that are in an active phase. -/
def active (j : Journal) (project repository : String) : List Handle :=
  j.filterMap (fun e => match e with
    | .workflow h p r data =>
      if p = project ∧ r = repository ∧ data.phase.any Phase.isActive then some h else none
    | _ => none)

theorem mem_active {j : Journal} {p r : String} {h : Handle} :
    h ∈ j.active p r ↔
      ∃ data, Entry.workflow h p r data ∈ j ∧ data.phase.any Phase.isActive = true := by
  simp only [active, List.mem_filterMap]
  constructor
  · rintro ⟨e, he, hh⟩
    cases e with
    | workflow g p' r' data =>
      simp only [Option.ite_none_right_eq_some, Option.some.injEq] at hh
      obtain ⟨⟨rfl, rfl, hact⟩, rfl⟩ := hh
      exact ⟨data, he, hact⟩
    | current p' r' g => cases hh
    | adminPreview i p' r' d => cases hh
  · rintro ⟨data, he, hact⟩
    exact ⟨_, he, by simp [hact]⟩

theorem mem_rows {j : Journal} {p r : String} {h : Handle} {data : Record} :
    (p, r, data) ∈ j.rows h ↔ Entry.workflow h p r data ∈ j := by
  simp only [rows, List.mem_filterMap]
  constructor
  · rintro ⟨e, he, hh⟩
    cases e with
    | workflow g p' r' d =>
      simp only [Option.ite_none_right_eq_some, Option.some.injEq, Prod.mk.injEq] at hh
      obtain ⟨rfl, rfl, rfl, rfl⟩ := hh
      exact he
    | current p' r' g => cases hh
    | adminPreview i p' r' d => cases hh
  · intro he
    exact ⟨_, he, by simp⟩

theorem count_active_le (j : Journal) (p r : String) (h : Handle) :
    (j.active p r).count h ≤ (j.rows h).length := by
  induction j with
  | nil => exact le_rfl
  | cons e j ih =>
    simp only [active, rows] at ih
    cases e with
    | workflow g p' r' data =>
      by_cases hg : g = h
      · by_cases hs : p' = p ∧ r' = r ∧ data.phase.any Phase.isActive
        · simp [active, rows, hg, hs]
          exact ih
        · simp only [active, rows, List.filterMap_cons, hg, if_true, if_neg hs]
          simp only [List.length_cons]
          exact ih.trans (Nat.le_succ _)
      · by_cases hs : p' = p ∧ r' = r ∧ data.phase.any Phase.isActive
        · simp only [active, rows, List.filterMap_cons, if_neg hg, if_pos hs]
          rw [List.count_cons_of_ne (by simpa using hg)]
          exact ih
        · simp only [active, rows, List.filterMap_cons, if_neg hg, if_neg hs]
          exact ih
    | current p' r' g => simpa [active, rows] using ih
    | adminPreview i p' r' d => simpa [active, rows] using ih

theorem mem_setData {j : Journal} {g h : Handle} {d data : Record} {p r : String} :
    Entry.workflow g p r data ∈ j.setData h d ↔
      ∃ old, Entry.workflow g p r old ∈ j ∧ data = if g = h then d else old := by
  simp only [setData, List.mem_map]
  constructor
  · rintro ⟨e, he, hh⟩
    cases e with
    | workflow g' p' r' old =>
      simp only [Entry.workflow.injEq] at hh
      obtain ⟨rfl, rfl, rfl, rfl⟩ := hh
      exact ⟨old, he, rfl⟩
    | current p' r' g' => cases hh
    | adminPreview i p' r' d' => cases hh
  · rintro ⟨old, he, rfl⟩
    exact ⟨_, he, rfl⟩

/-- A record that was replaced is active only if it was before. -/
theorem mem_active_setData {j : Journal} {g h : Handle} {p r p' r' : String} {old d : Record}
    (hj : j.record h = some (p', r', old))
    (hact : d.phase.any Phase.isActive = true → old.phase.any Phase.isActive = true)
    (hg : g ∈ (j.setData h d).active p r) : g ∈ j.active p r := by
  obtain ⟨data, hm, ha⟩ := mem_active.mp hg
  obtain ⟨old', ho, rfl⟩ := mem_setData.mp hm
  refine mem_active.mpr ⟨old', ho, ?_⟩
  by_cases hgh : g = h
  · subst hgh
    have hrow := mem_rows.mpr ho
    rw [record_eq_some.mp hj, List.mem_singleton] at hrow
    cases hrow
    exact hact (by simpa using ha)
  · simpa [hgh] using ha

theorem active_append (j k : Journal) (p r : String) :
    active (j ++ k) p r = j.active p r ++ active k p r :=
  List.filterMap_append

theorem active_setPointer (j : Journal) (p r p' r' : String) (g : Handle) :
    (j.setPointer p' r' g).active p r = j.active p r := by
  simp only [active, setPointer, List.filterMap_map]
  refine List.filterMap_congr (fun e _ => ?_)
  cases e <;> rfl

theorem active_appendReservation (j : Journal) (p r p' r' : String) (request : Request)
    (token : Handle) :
    (Store.appendReservation j p' r' request token).active p r =
      j.active p r ++ if p' = p ∧ r' = r then [token] else [] := by
  have hone : ∀ rest, (∀ a b, active rest a b = []) →
      active (Entry.workflow token p' r' (Store.selectingRecord p' r' request) :: rest) p r =
        if p' = p ∧ r' = r then [token] else [] := by
    intro rest hrest
    have h0 := hrest p r
    simp only [active] at h0
    by_cases hs : p' = p ∧ r' = r <;>
      simp [active, h0, hs, Store.selectingRecord, Phase.isActive]
  unfold Store.appendReservation
  split
  · rw [active_append, hone _ (fun _ _ => rfl)]
  · rw [active_setPointer, active_append, hone _ (fun _ _ => rfl)]

end Journal

/-- The journals of all runs: identities are unique, an active record is the
current one of its scope, and review records stay among the review phases. -/
structure OrderInv {A : Type} (s : World A) : Prop where
  single : ∀ h, (s.journal.rows h).length ≤ 1
  pointed : ∀ p r h, h ∈ s.journal.active p r → s.journal.pointers p r = [h]
  review : ∀ h p r d, s.journal.record h = some (p, r, d) → d.mode = some .review →
    reviewPhase d.phase = true

/-- Records are kept with their mode, and authoring records do not move backwards. -/
def OrderStep {A : Type} (s s' : World A) : Prop :=
  ∀ h p r d, s.journal.record h = some (p, r, d) → ∃ d', s'.journal.record h = some (p, r, d') ∧
    d'.mode = d.mode ∧ (d.mode ≠ some .review → NotBackwards d.phase d'.phase)

/-- A write of a phase finds the authoring record in the phase from which its step
was entered, or in the one it writes; a release may also find another phase from
which recovery releases. -/
def FindsEntered {A : Type} (s : World A) : Label → Prop
  | .update h entered changes => ∀ row ∈ s.journal.record h,
    row.2.2.mode = some .review ∨ changes.phase = none ∨
    row.2.2.phase = entered ∨ row.2.2.phase = changes.phase ∨
    changes.phase = some .released ∧ authoringActionAllowed .recover row.2.2.phase = true
  | _ => True

instance {A : Type} (s : World A) : (l : Label) → Decidable (FindsEntered s l)
  | .update h entered changes => inferInstanceAs (Decidable (∀ row ∈ s.journal.record h,
      row.2.2.mode = some .review ∨ changes.phase = none ∨
      row.2.2.phase = entered ∨ row.2.2.phase = changes.phase ∨
      changes.phase = some .released ∧ authoringActionAllowed .recover row.2.2.phase = true))
  | .read | .native _ | .persist .. | .refresh .. | .select _ | .reserve => isTrue trivial

section PhaseOrder

variable {A : Type}

def orderSpec : Spec ℕ (World A) Label where
  inv := OrderInv
  cond := FindsEntered
  guar := fun _ => OrderStep
  env := fun s s' => s'.journal = s.journal

/-- A copy has the mode of its record, and the phase of a review if it is one. -/
def ModeKnown (t : Target) (r : Record) (s : World A) : Prop :=
  (∃ p q d, s.journal.record t.handle = some (p, q, d) ∧ d.mode = r.mode) ∧
    (r.mode = some .review → reviewPhase r.phase = true)

def orderKnowledge : Knowledge A where
  copy := ModeKnown
  merged := fun t _ r => ModeKnown t r
  request := fun _ _ _ _ _ => True
  answer := fun _ _ _ => True

variable {s s' : World A}

theorem OrderStep.refl (s : World A) : OrderStep s s :=
  fun _ _ _ d hd => ⟨d, hd, rfl, fun _ => NotBackwards.refl _⟩

theorem OrderStep.trans {s₁ s₂ s₃ : World A} (h₁ : OrderStep s₁ s₂) (h₂ : OrderStep s₂ s₃) :
    OrderStep s₁ s₃ := by
  intro h p r d hd
  obtain ⟨d', hd', hm, ho⟩ := h₁ h p r d hd
  obtain ⟨d'', hd'', hm', ho'⟩ := h₂ h p r d' hd'
  exact ⟨d'', hd'', hm'.trans hm, fun hr => (ho hr).trans (ho' (hm ▸ hr))⟩

theorem orderStep_of_journal (h : s'.journal = s.journal) : OrderStep s s' :=
  fun _ _ _ d hd => ⟨d, h ▸ hd, rfl, fun _ => NotBackwards.refl _⟩

theorem orderInv_of_journal (hs : OrderInv s) (h : s'.journal = s.journal) : OrderInv s' := by
  refine ⟨?_, ?_, ?_⟩
  · rw [h]
    exact hs.single
  · rw [h]
    exact hs.pointed
  · rw [h]
    exact hs.review

theorem modeKnown_step {t : Target} {r : Record} (h : OrderStep s s')
    (hk : ModeKnown t r s) : ModeKnown t r s' := by
  obtain ⟨⟨p, q, d, hd, hm⟩, hr⟩ := hk
  obtain ⟨d', hd', hm', -⟩ := h _ p q d hd
  exact ⟨⟨p, q, d', hd', hm'.trans hm⟩, hr⟩

theorem modeKnown_stable (i : ℕ) (t : Target) (r : Record) :
    (orderSpec (A := A)).Stable i (ModeKnown t r) := by
  rintro s s' ⟨-, -, ⟨j, -, hg⟩ | he⟩ hk
  · exact modeKnown_step hg hk
  · exact modeKnown_step (orderStep_of_journal he) hk

/-- The replacement of one record, by what changes in it. -/
theorem order_put {h : Handle} {p q : String} {old new : Record} (hs : OrderInv s)
    (ho : s.journal.record h = some (p, q, old)) (hm : new.mode = old.mode)
    (hr : old.mode = some .review → reviewPhase new.phase = true)
    (hn : old.mode ≠ some .review → NotBackwards old.phase new.phase) :
    OrderInv (s.put h new) ∧ OrderStep s (s.put h new) := by
  have hact : new.phase.any Phase.isActive = true → old.phase.any Phase.isActive = true := by
    intro ha
    by_cases hmode : old.mode = some .review
    · simp [not_isActive_of_reviewPhase (hr hmode)] at ha
    · exact (hn hmode).isActive ha
  refine ⟨⟨fun g => ?_, fun p' r' g hg => ?_, fun g p' r' d hd hmode => ?_⟩,
    fun g p' r' d hd => ?_⟩
  · by_cases hg : g = h
    · subst hg
      simpa [World.put, Journal.rows_setData_self] using hs.single g
    · simpa [World.put, Journal.rows_setData_of_ne _ _ hg] using hs.single g
  · simp only [World.put, Journal.pointers_setData]
    exact hs.pointed p' r' g (Journal.mem_active_setData ho hact hg)
  · by_cases hg : g = h
    · subst hg
      rw [World.record_put ho] at hd
      cases hd
      exact hr (hm ▸ hmode)
    · rw [World.record_put_of_ne _ hg] at hd
      exact hs.review g p' r' d hd hmode
  · by_cases hg : g = h
    · subst hg
      cases Option.some.inj (ho.symm.trans hd)
      exact ⟨new, World.record_put ho _, hm, hn⟩
    · exact ⟨d, (World.record_put_of_ne _ hg).trans hd, rfl, fun _ => NotBackwards.refl _⟩

/-- The phase that an entry of the list of changes writes. -/
theorem coordinateChanges_phase {action : CoordinateAction} {r : Record} {result : Dict}
    {operations : ActionId → Option OperationEntry} {p : Phase}
    (hp : (coordinateChanges action r result operations).phase = some p) :
    (action = .recover ∧ p = .released) ∨ (action = .integrate ∧ p = .integrated) ∨
    (action = .acceptOutcome ∧ p = .reviewAccepted) ∨
    (action = .rejectOutcome ∧ p = .reviewRejected) := by
  unfold coordinateChanges at hp
  split at hp
  · split at hp <;> simp_all
  · cases hp
  · cases hp
  · dsimp only at hp
    split at hp <;> simp_all
  · simp_all
  · simp_all
  · cases hp

theorem coordinateChanges_mode (action : CoordinateAction) (r : Record) (result : Dict)
    (operations : ActionId → Option OperationEntry) :
    (coordinateChanges action r result operations).mode = none := by
  unfold coordinateChanges
  split
  · split <;> rfl
  · rfl
  · rfl
  · dsimp only
    split <;> rfl
  · rfl
  · rfl
  · rfl

/-- A recovery that is allowed on an authoring record is before the release. -/
theorem before_released {phase : Option Phase}
    (h : authoringActionAllowed .recover phase = true) :
    ∃ e, phase = some e ∧ e.before .released = true := by
  simp only [authoringActionAllowed, Bool.or_eq_true, decide_eq_true_eq, Bool.and_eq_true,
    true_and] at h
  rcases h with rfl | (rfl | rfl) | rfl
  · exact ⟨_, rfl, rfl⟩
  · exact ⟨_, rfl, rfl⟩
  · exact ⟨_, rfl, rfl⟩
  · exact ⟨_, rfl, rfl⟩

theorem checkCoordinate_review {action : CoordinateAction} {r : Record}
    (h : checkCoordinate action r = .ok ()) (hm : r.mode = some .review) :
    action = .acceptOutcome ∨ action = .rejectOutcome ∨ action = .integrate := by
  unfold checkCoordinate at h
  rw [if_pos hm] at h
  split at h
  · cases h
  · rename_i ha
    unfold reviewActionAllowed at ha
    split at ha <;> simp_all

theorem checkCoordinate_authoring {action : CoordinateAction} {r : Record}
    (h : checkCoordinate action r = .ok ()) (hm : r.mode ≠ some .review) :
    authoringActionAllowed action r.phase = true ∧ action ≠ .integrate ∧
      action ≠ .acceptOutcome ∧ action ≠ .rejectOutcome := by
  unfold checkCoordinate at h
  rw [if_neg hm] at h
  split at h
  · cases h
  · rename_i ha
    split at h
    · cases h
    · rename_i hn
      simp only [not_or] at hn
      exact ⟨by simpa using ha, hn⟩

/-- Where a merged change leaves the phase of its record: nowhere new, among the
review phases of a review, or after the phase that was entered. -/
theorem Writes.phase {c : Codec} {t : Target} {r₀ r changes : Record}
    {answer : Payload → Dict → Prop} {merged : Prop} {part : Part} {entered : Option Phase}
    (h : Writes c t r₀ r answer merged part entered changes)
    (hr : r₀.mode = some .review → reviewPhase r₀.phase = true) :
    changes.mode = none ∧ (changes.phase = none ∨
      (r₀.mode = some .review ∧ reviewPhase changes.phase = true) ∨
      (r₀.mode ≠ some .review ∧ ∃ e p, entered = some e ∧ changes.phase = some p ∧
        e.before p = true)) := by
  have hauth : ∀ {p : Phase}, r₀.phase = some p → reviewPhase (some p) = false →
      r₀.mode ≠ some .review := by
    intro p hp hf hm
    rw [← hp, hr hm] at hf
    cases hf
  cases h with
  | resumed => exact ⟨rfl, Or.inl rfl⟩
  | renewed => exact ⟨rfl, Or.inl rfl⟩
  | context capsule ids hp => exact ⟨rfl, Or.inr (Or.inr ⟨hauth hp rfl, _, _, rfl, rfl, rfl⟩)⟩
  | finish action note reason token hp hm =>
    exact ⟨rfl, Or.inr (Or.inr ⟨hm, _, _, rfl, rfl, rfl⟩)⟩
  | handedBack handback proof hp hh ha hm hv =>
    refine ⟨rfl, Or.inr (Or.inr ⟨hauth hp rfl, _, _, rfl, rfl, ?_⟩)⟩
    split <;> rfl
  | reported report id hp _ => exact ⟨rfl, Or.inr (Or.inr ⟨hauth hp rfl, _, _, rfl, rfl, rfl⟩)⟩
  | released receipt hp _ => exact ⟨rfl, Or.inr (Or.inr ⟨hauth hp rfl, _, _, rfl, rfl, rfl⟩)⟩
  | recovered result hc =>
    have hm : r₀.mode ≠ some .review := by
      intro hm
      rcases checkCoordinate_review hc hm with h | h | h <;> cases h
    obtain ⟨e, he, hb⟩ := before_released (checkCoordinate_authoring hc hm).1
    exact ⟨rfl, Or.inr (Or.inr ⟨hm, e, _, he, rfl, hb⟩)⟩
  | integrated result hc =>
    refine ⟨rfl, Or.inr (Or.inl ⟨?_, rfl⟩)⟩
    by_contra hm
    exact (checkCoordinate_authoring hc hm).2.1 rfl
  | pending => exact ⟨rfl, Or.inl rfl⟩
  | coordinated action result operations hc =>
    refine ⟨coordinateChanges_mode _ _ _ _, ?_⟩
    cases hp : (coordinateChanges action r₀ result operations).phase with
    | none => exact Or.inl rfl
    | some p =>
      refine Or.inr ?_
      by_cases hm : r₀.mode = some .review
      · refine Or.inl ⟨hm, ?_⟩
        rcases coordinateChanges_phase hp with ⟨rfl, rfl⟩ | ⟨rfl, rfl⟩ | ⟨rfl, rfl⟩ | ⟨rfl, rfl⟩
        · rcases checkCoordinate_review hc hm with h | h | h <;> cases h
        · rfl
        · rfl
        · rfl
      · obtain ⟨ha, h1, h2, h3⟩ := checkCoordinate_authoring hc hm
        rcases coordinateChanges_phase hp with ⟨rfl, rfl⟩ | ⟨rfl, rfl⟩ | ⟨rfl, rfl⟩ | ⟨rfl, rfl⟩
        · obtain ⟨e, he, hb⟩ := before_released ha
          exact Or.inr ⟨hm, e, _, he, rfl, hb⟩
        · exact absurd rfl h1
        · exact absurd rfl h2
        · exact absurd rfl h3

theorem Overwrites.phase {r₀ r changes : Record} {entered : Option Phase}
    (h : Overwrites r₀ r entered changes) :
    changes.mode = r.mode ∧ reviewPhase r₀.phase = false ∧ ∃ e p, entered = some e ∧
      changes.phase = some p ∧ e.before p = true := by
  cases h with
  | workspace d hp => exact ⟨rfl, by rw [hp]; rfl, _, _, rfl, rfl, rfl⟩
  | dispatched attemptId leaseId d hp => exact ⟨rfl, by rw [hp]; rfl, _, _, rfl, rfl, rfl⟩

theorem notBackwards_of_found {h : Handle} {p q : String} {old changes : Record}
    {entered : Option Phase} {e new : Phase} (ho : s.journal.record h = some (p, q, old))
    (hc : FindsEntered s (.update h entered changes)) (hm : old.mode ≠ some .review)
    (he : entered = some e) (hp : changes.phase = some new) (hb : e.before new = true) :
    NotBackwards old.phase (some new) := by
  rcases hc _ ho with h | h | h | h | ⟨h, ha⟩
  · exact absurd h hm
  · simp [hp] at h
  · exact Or.inr ⟨e, new, h.trans he, rfl, hb⟩
  · exact Or.inl (hp.symm.trans h.symm)
  · obtain ⟨a, hpa, hba⟩ := before_released ha
    obtain rfl : new = .released := Option.some.inj (hp.symm.trans h)
    exact Or.inr ⟨a, _, hpa, rfl, hba⟩

theorem modeKnown_mode {t : Target} {r old : Record} {p q : String}
    (hk : ModeKnown t r s) (ho : s.journal.record t.handle = some (p, q, old)) :
    old.mode = r.mode := by
  obtain ⟨⟨p', q', d, hd, hm⟩, -⟩ := hk
  cases Option.some.inj (ho.symm.trans hd)
  exact hm

theorem order_merge {t : Target} {r data : Record} (hs : OrderInv s) (hk : ModeKnown t r s)
    (ho : s.Holds t data) : ModeKnown t (r.merge data) s := by
  have hm := modeKnown_mode hk ho
  have hmode : (r.merge data).mode = data.mode := by simp [Record.merge, hm]
  refine ⟨⟨_, _, _, ho, hmode.symm⟩, fun h => ?_⟩
  have hr := hs.review _ _ _ _ ho (hmode.symm.trans h)
  cases hp : data.phase with
  | none => rw [hp] at hr; cases hr
  | some p => simpa [hp] using hp ▸ hr

theorem order_update {c : Codec} {t : Target} {r₀ r changes old : Record} {part : Part}
    {answer : Payload → Dict → Prop} {merged : Prop} {entered : Option Phase}
    (hw : Writes c t r₀ r answer merged part entered changes) (hs : OrderInv s)
    (h₀ : ModeKnown t r₀ s) (hr : ModeKnown t r s)
    (hc : FindsEntered s (.update t.handle entered changes)) (ho : s.Holds t old) :
    let s' := s.put t.handle (old.merge changes)
    OrderInv s' ∧ OrderStep s s' ∧ ModeKnown t (r.merge changes) s' := by
  obtain ⟨hmode, hphase⟩ := hw.phase h₀.2
  have hm₀ := modeKnown_mode h₀ ho
  have hmr := modeKnown_mode hr ho
  have hmode' : (old.merge changes).mode = old.mode := by simp [Record.merge, hmode]
  have hput : OrderInv (s.put t.handle (old.merge changes)) ∧
      OrderStep s (s.put t.handle (old.merge changes)) := by
    refine order_put hs ho hmode' (fun hm => ?_) (fun hm => ?_)
    · rcases hphase with hn | ⟨-, hp⟩ | ⟨hne, -⟩
      · simpa [hn] using hs.review _ _ _ _ ho hm
      · cases hcp : changes.phase with
        | none => rw [hcp] at hp; cases hp
        | some p => rw [hcp] at hp; simpa [hcp] using hp
      · exact absurd (hm₀ ▸ hm) hne
    · rcases hphase with hn | ⟨hr', -⟩ | ⟨-, e, p, he, hp, hb⟩
      · simpa [hn] using NotBackwards.refl old.phase
      · exact absurd (hm₀.trans hr') hm
      · simpa [hp] using notBackwards_of_found ho hc hm he hp hb
  refine ⟨hput.1, hput.2, ⟨_, _, _, World.record_put ho _, ?_⟩, fun hm => ?_⟩
  · simp [Record.merge, hmode, hmr]
  · have hm' : old.mode = some .review := by
      rw [hmr]
      simpa [Record.merge, hmode] using hm
    rcases hphase with hn | ⟨-, hp⟩ | ⟨hne, -⟩
    · simpa [hn] using hr.2 (hmr ▸ hm')
    · cases hcp : changes.phase with
      | none => rw [hcp] at hp; cases hp
      | some p => rw [hcp] at hp; simpa [hcp] using hp
    · exact absurd (hm₀ ▸ hm') hne

theorem order_overwrite {t : Target} {r₀ r changes old : Record} {entered : Option Phase}
    (hw : Overwrites r₀ r entered changes) (hs : OrderInv s) (h₀ : ModeKnown t r₀ s)
    (hr : ModeKnown t r s) (hc : FindsEntered s (.update t.handle entered changes))
    (ho : s.Holds t old) :
    let s' := s.put t.handle (old.merge changes)
    OrderInv s' ∧ OrderStep s s' ∧ ModeKnown t changes s' := by
  obtain ⟨hmode, hnot, e, p, he, hp, hb⟩ := hw.phase
  have hm₀ := modeKnown_mode h₀ ho
  have hmr := modeKnown_mode hr ho
  have hm : old.mode ≠ some .review := by
    intro h
    rw [h₀.2 (hm₀ ▸ h)] at hnot
    cases hnot
  have hmode' : (old.merge changes).mode = old.mode := by
    simp [Record.merge, hmode, ← hmr]
  obtain ⟨h1, h2⟩ := order_put hs ho hmode' (fun h => absurd h hm)
    (fun _ => by simpa [hp] using notBackwards_of_found ho hc hm he hp hb)
  exact ⟨h1, h2, ⟨_, _, _, World.record_put ho _, hmode'.trans (hmr.trans hmode.symm)⟩,
    fun h => absurd (hmr.trans (hmode.symm.trans h)) hm⟩

theorem order_same {h : Handle} {p q : String} {old : Record} (new : Record) (hs : OrderInv s)
    (ho : s.journal.record h = some (p, q, old)) (hm : new.mode = old.mode)
    (hp : new.phase = old.phase) : OrderInv (s.put h new) ∧ OrderStep s (s.put h new) :=
  order_put hs ho hm (fun h => hp ▸ hs.review _ _ _ _ ho h)
    (fun _ => hp ▸ NotBackwards.refl _)

theorem order_issue {h : Handle} {p q : String} {old : Record} {name : PhaseName} {i : Intent}
    (hs : OrderInv s) (ho : s.journal.record h = some (p, q, old)) :
    OrderInv (s.issue h name old i) ∧ OrderStep s (s.issue h name old i) := by
  obtain ⟨h1, h2⟩ := order_same (old.setIntent name i) hs ho rfl rfl
  exact ⟨orderInv_of_journal h1 rfl, h2⟩

theorem order_select {t : Target} {old new : Record} (hs : OrderInv s) (ho : s.Holds t old)
    (hp : old.phase = some .selecting)
    (hn : new = { old with phase := some .noWork } ∨ ∃ requested candidate sel,
      new = old.merge (preparedRecord t requested candidate sel)) :
    OrderInv (s.put t.handle new) ∧ OrderStep s (s.put t.handle new) := by
  have hm : old.mode ≠ some .review := by
    intro hm
    have := hs.review _ _ _ _ ho hm
    rw [hp] at this
    cases this
  rcases hn with rfl | ⟨requested, candidate, sel, rfl⟩
  · exact order_put hs ho rfl (fun h => absurd h hm)
      (fun _ => Or.inr ⟨_, _, hp, rfl, rfl⟩)
  · exact order_put hs ho rfl (fun h => absurd h hm)
      (fun _ => Or.inr ⟨_, _, hp, rfl, rfl⟩)

/-- Without a current record, no record of the scope is active. -/
theorem active_eq_nil {p r : String} {request : Request} (hs : OrderInv s)
    (hc : Store.currentRecord s.journal p r request = .ok none) :
    s.journal.active p r = [] := by
  refine List.eq_nil_iff_forall_not_mem.mpr (fun h hh => ?_)
  have hptr := hs.pointed p r h hh
  obtain ⟨data, hm, hact⟩ := Journal.mem_active.mp hh
  rcases Store.currentRecord_none hc with hnil | ⟨g, hg, hidle⟩
  · rw [hnil] at hptr
    cases hptr
  · rw [hg] at hptr
    cases hptr
    have hrow := Journal.mem_rows.mpr hm
    have hone : s.journal.rows h = [(p, r, data)] := by
      have hlen := hs.single h
      match hrows : s.journal.rows h with
      | [] => rw [hrows] at hrow; cases hrow
      | [row] =>
        rw [hrows, List.mem_singleton] at hrow
        rw [hrow]
      | _ :: _ :: _ => rw [hrows] at hlen; simp at hlen
    rw [hidle data (Journal.record_eq_some.mpr hone)] at hact
    cases hact

theorem order_reserve {p r : String} {request : Request} {token : Handle} (hs : OrderInv s)
    (hf : s.journal.rows token = [])
    (hc : Store.currentRecord s.journal p r request = .ok none) :
    let s' := { s with journal := Store.appendReservation s.journal p r request token }
    OrderInv s' ∧ OrderStep s s' := by
  have hnil := active_eq_nil hs hc
  have hone : s.journal.pointers p r = [] ∨ ∃ g, s.journal.pointers p r = [g] := by
    rcases Store.currentRecord_none hc with h | ⟨g, hg, -⟩
    · exact Or.inl h
    · exact Or.inr ⟨g, hg⟩
  have hold : ∀ {h : Handle} {row}, s.journal.record h = some row → h ≠ token := by
    rintro h row hd rfl
    rw [Journal.record_eq_some, hf] at hd
    cases hd
  refine ⟨⟨fun h => ?_, fun p' r' h hh => ?_, fun h p' r' d hd hm => ?_⟩, fun h p' r' d hd => ?_⟩
  · simp only [Journal.rows_appendReservation]
    by_cases ht : token = h
    · subst ht
      simp [hf]
    · simpa [ht] using hs.single h
  · simp only [Journal.active_appendReservation] at hh
    simp only [Journal.pointers_appendReservation _ _ _ _ _ _ _ hone]
    by_cases hsc : p' = p ∧ r' = r
    · obtain ⟨rfl, rfl⟩ := hsc
      simp only [hnil, and_self, if_true, List.nil_append, List.mem_singleton] at hh
      simp [hh]
    · have hsc' : ¬(p = p' ∧ r = r') := fun h => hsc ⟨h.1.symm, h.2.symm⟩
      simp only [hsc', if_false, List.append_nil] at hh
      rw [if_neg hsc]
      exact hs.pointed p' r' h hh
  · by_cases ht : h = token
    · subst ht
      simp only [Journal.record_appendReservation_self hf, Option.some.injEq, Prod.mk.injEq] at hd
      rw [← hd.2.2] at hm
      cases hm
    · simp only [Journal.record_appendReservation_of_ne ht] at hd
      exact hs.review h p' r' d hd hm
  · exact ⟨d, (Journal.record_appendReservation_of_ne (hold hd)).trans hd, rfl,
      fun _ => NotBackwards.refl _⟩

theorem order_review {p r : String} {token : Handle} {candidate : ReviewCandidate}
    (hs : OrderInv s) (hf : s.journal.rows token = []) :
    let data := { candidate.record p r with phase := some .reviewPending }
    let s' := { s with journal := s.journal ++ [.workflow token p r data] }
    OrderInv s' ∧ OrderStep s s' := by
  have hold : ∀ {h : Handle} {row}, s.journal.record h = some row → h ≠ token := by
    rintro h row hd rfl
    rw [Journal.record_eq_some, hf] at hd
    cases hd
  refine ⟨⟨fun h => ?_, fun p' r' h hh => ?_, fun h p' r' d hd hm => ?_⟩, fun h p' r' d hd => ?_⟩
  · simp only [Journal.rows_append]
    by_cases ht : token = h
    · subst ht
      rw [hf]
      simp [Journal.rows]
    · simpa [Journal.rows, ht] using hs.single h
  · simp only [Journal.active_append] at hh
    simp only [Journal.pointers_append]
    rw [List.mem_append] at hh
    rcases hh with hh | hh
    · rw [hs.pointed p' r' h hh]
      rfl
    · simp [Journal.active, Phase.isActive] at hh
  · by_cases ht : h = token
    · subst ht
      simp only [Journal.record_append_self hf, Option.some.injEq, Prod.mk.injEq] at hd
      rw [← hd.2.2]
      rfl
    · simp only [Journal.record_append_of_ne ht] at hd
      exact hs.review h p' r' d hd hm
  · exact ⟨d, (Journal.record_append_of_ne (hold hd)).trans hd, rfl,
      fun _ => NotBackwards.refl _⟩

theorem orderRules (i : ℕ) (N : NativeHost A) (c : Codec) :
    HostRules (orderSpec (A := A)) i N c orderKnowledge (fun _ => True) (fun _ => True) where
  refl := OrderStep.refl
  copy_stable := modeKnown_stable i
  merged_stable := fun t _ r => modeKnown_stable i t r
  request_stable := fun _ _ _ _ => stable_true
  answer_stable := fun _ _ => stable_true
  learn := fun _ hs ho => ⟨⟨_, _, _, ho, rfl⟩, hs.review _ _ _ _ ho⟩
  relearn := fun hs _ ho => ⟨⟨_, _, _, ho, rfl⟩, hs.review _ _ _ _ ho⟩
  scope := fun hk => hk
  merge := fun hs hk ho => order_merge hs hk ho
  fresh := fun hs _ hk ho _ => order_merge hs hk ho
  known := fun _ _ _ _ => trivial
  merged_copy := fun hk => hk
  read := fun _ _ hs _ => ⟨orderInv_of_journal hs rfl, orderStep_of_journal rfl,
    fun _ _ hk => modeKnown_step (orderStep_of_journal rfl) hk⟩
  persist := fun _ _ hs _ _ _ ho _ => ⟨(order_issue hs ho).1, (order_issue hs ho).2,
    fun _ hk => modeKnown_step (order_issue hs ho).2 hk⟩
  refresh := fun _ _ hs _ _ ho _ _ _ => ⟨(order_issue hs ho).1, (order_issue hs ho).2,
    fun _ hk => modeKnown_step (order_issue hs ho).2 hk⟩
  send := fun _ _ hs _ _ _ => ⟨orderInv_of_journal hs rfl, orderStep_of_journal rfl,
    fun _ hk => modeKnown_step (orderStep_of_journal rfl) hk,
    fun _ _ hk => modeKnown_step (orderStep_of_journal rfl) hk, fun _ _ => trivial⟩
  update := fun _ hw hs h₀ hr hc ho => order_update hw hs h₀ hr hc ho
  overwrite := fun _ hw hs h₀ hr hc ho => order_overwrite hw hs h₀ hr hc ho
  note := fun _ hs _ ho => order_same _ hs ho rfl rfl
  select := by
    intro s t r old new _ hs _ _ ho hp hn
    obtain ⟨h1, h2⟩ := order_select hs ho hp hn
    exact ⟨h1, h2, ⟨_, _, _, World.record_put ho _, rfl⟩, h1.review _ _ _ _ (World.record_put ho _)⟩
  reserve := fun _ hs _ hf hc => order_reserve hs hf hc
  review := fun _ _ hs _ hf => order_review hs hf

theorem compactSystem_ordered {ω : Type} (N : NativeHost A) (c : Codec) (env : A → ω → Option A) :
    (orderSpec (A := A)).Sound (compactSystem N c env) where
  crash := fun _ s hs => ⟨hs, OrderStep.refl s⟩
  env := by
    intro s e s' hs he
    obtain ⟨a, -, rfl⟩ := Option.map_eq_some_iff.mp he
    exact ⟨orderInv_of_journal hs rfl, rfl⟩
  program := fun i call => triple_toolCall (orderRules i N c) (fun _ => trivial)
    (fun _ => trivial) call

theorem orderInv_of_new (hn : ∀ h, s.journal.rows h = []) : OrderInv s := by
  refine ⟨fun h => by simp [hn h], fun p r h hh => ?_, fun h p r d hd => ?_⟩
  · obtain ⟨data, hm, -⟩ := Journal.mem_active.mp hh
    have := Journal.mem_rows.mpr hm
    rw [hn h] at this
    cases this
  · rw [Journal.record_eq_some, hn h] at hd
    cases hd

theorem active_length_le_one (hs : OrderInv s) (p r : String) :
    (s.journal.active p r).length ≤ 1 := by
  cases hl : s.journal.active p r with
  | nil => simp
  | cons h rest =>
    have hall : ∀ g ∈ s.journal.active p r, h = g := by
      intro g hg
      have h1 := hs.pointed p r h (by rw [hl]; exact List.mem_cons_self)
      have h2 := hs.pointed p r g hg
      rw [h1] at h2
      cases h2
      rfl
    calc (h :: rest).length = (s.journal.active p r).length := by rw [hl]
      _ = (s.journal.active p r).count h := (List.count_eq_length.mpr hall).symm
      _ ≤ (s.journal.rows h).length := Journal.count_active_le _ _ _ _
      _ ≤ 1 := hs.single h

end PhaseOrder

/-- As long as every write of a phase finds the record where its step was entered,
the phase of an authoring record never moves backwards, and no scope has two
records in an active phase. -/
theorem authoring_phases_advance {A ω : Type} (N : NativeHost A) (c : Codec)
    (env : A → ω → Option A) {p q q' : Pool ℕ (World A) Input Label Err Unit}
    (hidle : ∀ i, p.threads i = none) (hnew : ∀ h, p.shared.journal.rows h = [])
    (hq : (compactSystem N c env).Reach FindsEntered p q)
    (hq' : (compactSystem N c env).Reach FindsEntered q q') :
    (∀ h project repository d, q.shared.journal.record h = some (project, repository, d) →
      d.mode ≠ some .review → ∃ d', q'.shared.journal.record h = some (project, repository, d') ∧
        NotBackwards d.phase d'.phase) ∧
    ∀ project repository, (q.shared.journal.active project repository).length ≤ 1 := by
  have hsound := compactSystem_ordered N c env
  have hsafe := poolSafe_reach hsound (poolSafe_of_idle (orderInv_of_new hnew) hidle) hq
  have hstep : OrderStep q.shared q'.shared := reach_related hsound OrderStep.refl
    (fun _ _ _ => OrderStep.trans) (fun _ _ _ h => h) (fun _ _ h => orderStep_of_journal h)
    hsafe hq'
  refine ⟨fun h project repository d hd hm => ?_, fun project repository =>
    active_length_le_one hsafe.1 project repository⟩
  obtain ⟨d', hd', -, ho⟩ := hstep h project repository d hd
  exact ⟨d', hd', ho hm⟩

section Runs

/-- The phase that the journal holds for a handle. -/
def World.phase {A : Type} (s : World A) (h : Handle) : Option Phase :=
  (s.journal.record h).bind (fun row => row.2.2.phase)

def claimCall : ToolCall := .nextTask false "atlas" "main" {}

/-- One call selects work, a second one takes it to `active` while the first still
waits for its workspace. -/
def overtaken : List (Action ℕ Input ToolCall Empty) :=
  .start 0 claimCall :: List.replicate 6 (.act 0 (served "wf")) ++
    .start 1 claimCall :: List.replicate 12 (.act 1 (served "other"))

/-- One call alone, up to its selection. -/
def selected : List (Action ℕ Input ToolCall Empty) :=
  .start 0 claimCall :: List.replicate 3 (.act 0 (served "wf"))

theorem active_moves_backwards :
    ∃ q q', (compactSystem anyHost .small (fun _ (e : Empty) => nomatch e)).Reach
        System.anyStep newPool q ∧
      (compactSystem anyHost .small (fun _ (e : Empty) => nomatch e)).Reach System.anyStep q q' ∧
      (q.shared.phase "wf", q'.shared.phase "wf") =
        (some .active, some .dispatchPending) :=
  System.exists_reach_pair _ System.anyStep overtaken [.act 0 (served "wf")] (by decide +kernel)

theorem authoring_phases_advance_alone :
    ∃ q q', (compactSystem anyHost .small (fun _ (e : Empty) => nomatch e)).Reach
        FindsEntered newPool q ∧
      (compactSystem anyHost .small (fun _ (e : Empty) => nomatch e)).Reach FindsEntered q q' ∧
      (q.shared.phase "wf", q'.shared.phase "wf") =
        (some .workspacePending, some .active) ∧
      (q.shared.journal.active "atlas" "main").length ≤ 1 := by
  obtain ⟨q, q', hq, hq', hf⟩ := System.exists_reach_pair
    (compactSystem anyHost .small (fun _ (e : Empty) => nomatch e)) FindsEntered selected
    (List.replicate 12 (.act 0 (served "wf"))) (p := newPool)
    (f := fun q q' => (q.shared.phase "wf", q'.shared.phase "wf"))
    (b := (some .workspacePending, some .active)) (by decide +kernel)
  exact ⟨q, q', hq, hq', hf, (authoring_phases_advance anyHost .small _ (fun _ => rfl)
    (fun _ => rfl) hq hq').2 "atlas" "main"⟩

end Runs

end ProjectControl.Compact
