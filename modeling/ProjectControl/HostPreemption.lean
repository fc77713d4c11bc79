import Mathlib.Data.Prod.Lex
import Mathlib.Data.List.Lex
import Mathlib.Data.String.Basic
import ProjectControl.HostReclaim
import ProjectControl.HostRows

/-! What the signals of a refused reservation are good for: whether the request is granted
once the owners that were signalled are released. -/

set_option autoImplicit false

namespace ProjectControl.HostResources

open Sql

section Least

variable {α β : Type} [LinearOrder β]

/-- The fold that keeps the first least element. -/
theorem foldl_least (key : α → β) (first : α) (rest : List α) :
    let least := rest.foldl (fun best c => if key c < key best then c else best) first
    least ∈ first :: rest ∧ ∀ c ∈ first :: rest, key least ≤ key c := by
  induction rest generalizing first with
  | nil => simp
  | cons next rest ih =>
    obtain ⟨hmem, hleast⟩ := ih (if key next < key first then next else first)
    rw [List.foldl_cons]
    by_cases hlt : key next < key first
    · rw [if_pos hlt] at hmem hleast ⊢
      refine ⟨List.mem_cons_of_mem _ hmem, fun c hc => ?_⟩
      rcases List.mem_cons.mp hc with rfl | hc
      · exact (hleast next List.mem_cons_self).trans hlt.le
      · exact hleast c hc
    · rw [if_neg hlt] at hmem hleast ⊢
      refine ⟨?_, fun c hc => ?_⟩
      · rcases List.mem_cons.mp hmem with h | h
        · exact List.mem_cons.mpr (.inl h)
        · exact List.mem_cons_of_mem _ (List.mem_cons_of_mem _ h)
      · rcases List.mem_cons.mp hc with rfl | hc
        · exact hleast c List.mem_cons_self
        · rcases List.mem_cons.mp hc with rfl | hc
          · exact (hleast first List.mem_cons_self).trans (not_lt.mp hlt)
          · exact hleast c (List.mem_cons_of_mem _ hc)

end Least

variable {env : Env} {db db' db₁ : Registry} {request : Request} {new : Owner} {ids : List OwnerId}
  {p : PriorityClass} {c : Candidate} {r : ResourceId}

section Choice

/-- The order of `Candidate.before`. -/
def Candidate.key (c : Candidate) : ℕ ×ₗ ℕ ×ₗ List ResourceId :=
  toLex (c.owners.length, toLex (c.weight, c.resources))

theorem before_iff {a b : Candidate} : a.before b = true ↔ a.key < b.key := by
  simp only [Candidate.before, Candidate.key, Prod.Lex.toLex_lt_toLex, Bool.or_eq_true,
    Bool.and_eq_true, decide_eq_true_eq]

/-- The bundles whose holders are all preemptible and of lower priority. -/
def preemptable (db : Registry) (p : PriorityClass) (found : List (List ResourceId)) :
    List Candidate :=
  (found.map (fun resources => (⟨resources, conflictingOwnersLocked db resources⟩ : Candidate))).filter
    (fun c => !c.owners.isEmpty &&
      c.owners.all (fun o => o.preemptible && o.priorityClass.value < p.value))

theorem choice_eq {found : List (List ResourceId)}
    (hfound : candidateResourcesLocked db request = .ok found) :
    preemptionChoice db request p = .ok (leastCandidate (preemptable db p found)) := by
  unfold preemptionChoice
  rw [hfound]
  rfl

/-- A preemptable bundle that no other comes before is the one that is chosen. -/
theorem leastCandidate_eq_some {found : List (List ResourceId)} :
    leastCandidate (preemptable db p found) = some c ↔
      c ∈ preemptable db p found ∧ ∀ d ∈ preemptable db p found, d.before c = false := by
  have hunique : ∀ a ∈ preemptable db p found, ∀ b ∈ preemptable db p found,
      a.key = b.key → a = b := by
    intro a ha b hb hkey
    obtain ⟨ra, -, rfl⟩ := List.mem_map.mp (List.mem_filter.mp ha).1
    obtain ⟨rb, -, rfl⟩ := List.mem_map.mp (List.mem_filter.mp hb).1
    have hresources : ra = rb := congrArg (fun k => (ofLex (ofLex k).2).2) hkey
    rw [hresources]
  have hbefore : ∀ a b : Candidate, a.before b = false ↔ b.key ≤ a.key := by
    intro a b
    rw [← Bool.not_eq_true, before_iff, not_lt]
  cases hlist : preemptable db p found with
  | nil => simp [leastCandidate]
  | cons first rest =>
    rw [hlist] at hunique
    have hfold : leastCandidate (first :: rest) = some (rest.foldl
        (fun best c => if c.key < best.key then c else best) first) := by
      unfold leastCandidate
      simp only [before_iff]
    obtain ⟨hmem, hleast⟩ := foldl_least Candidate.key first rest
    rw [hfold, Option.some_inj]
    constructor
    · rintro rfl
      exact ⟨hmem, fun d hd => (hbefore _ _).mpr (hleast d hd)⟩
    · rintro ⟨hc, hfirst⟩
      refine hunique _ hmem c hc (le_antisymm (hleast c hc) ?_)
      exact (hbefore _ _).mp (hfirst _ hmem)

end Choice

section Freed

/-- What the release of some owners leaves, with nothing else changed. -/
def freed (db : Registry) (ids : List OwnerId) : Registry where
  resources := db.resources
  owners := db.owners.update (fun o => o.id ∈ ids)
    (ownerChange (fun o => { o with state := .released }) (fun _ => rfl))
  reservations := db.reservations.update (fun x => x.ownerId ∈ ids)
    (reservationChange (fun x => { x with state := .released })
      (fun _ => ⟨rfl, rfl, fun h => (by cases h)⟩))
  intents := db.intents.update (fun i => i.ownerId ∈ ids)
    (intentChange (fun i => { i with state := .released }) (fun _ => rfl))

/-- The live owners apart from some. -/
def remaining (db : Registry) (ids : List OwnerId) : List Owner :=
  db.owners.rows.filter (fun o => o.state.live && o.id ∉ ids)

/-- Their charges leave room for a request. -/
def Room (env : Env) (db : Registry) (request : Request) (ids : List OwnerId) : Prop :=
  ((remaining db ids).map (·.cpuThreads)).sum + cpuThreads env request ≤ cpuLimit env ∧
    ((remaining db ids).map (·.ramBytes)).sum + request.ramBytes ≤ ramLimit env

instance : Decidable (Room env db request ids) := inferInstanceAs (Decidable (_ ∧ _))

/-- No other owner holds one of the resources or has an active intent on it. -/
def Unblocked (db : Registry) (ids : List OwnerId) (resources : List ResourceId) : Prop :=
  ∀ r ∈ resources,
    (∀ x ∈ db.reservations.rows, x.resourceId = r → x.state = .active → x.ownerId ∈ ids) ∧
    (∀ i ∈ db.intents.rows, i.state = .active → r ∈ i.resources → i.ownerId ∈ ids)

instance {resources : List ResourceId} : Decidable (Unblocked db ids resources) :=
  inferInstanceAs (Decidable (∀ r ∈ resources, _ ∧ _))

/-- What selection looks at is the same: a signal changes none of it. -/
structure SameLoad (db db' : Registry) : Prop where
  resources : db'.resources = db.resources
  owners : db'.owners.rows.map (fun o => (o.id, o.state, o.cpuThreads, o.ramBytes)) =
    db.owners.rows.map (fun o => (o.id, o.state, o.cpuThreads, o.ramBytes))
  reservations : db'.reservations = db.reservations
  intents : db'.intents = db.intents

theorem SameLoad.refl : SameLoad db db := ⟨rfl, rfl, rfl, rfl⟩

theorem sameLoad_preemptAll {victims : List Owner} :
    Ensures (preemptAll env db victims) (SameLoad db) := by
  refine Ensures.foldlM SameLoad.refl (fun db₁ o _ h₁ db₂ h₂ => ?_)
  cases h₂
  refine ⟨h₁.resources, ?_, h₁.reservations, h₁.intents⟩
  rw [← h₁.owners]
  show (List.map _ (List.map _ db₁.owners.rows)) = _
  rw [List.map_map]
  refine List.map_congr_left (fun o₁ _ => ?_)
  show _ = _
  simp only [Function.comp_apply]
  split <;> rfl

theorem SameLoad.sum (h : SameLoad db db₁) (ids : List OwnerId) (f : ℤ × ℤ → ℤ) :
    ((remaining db₁ ids).map (fun o => f (o.cpuThreads, o.ramBytes))).sum =
      ((remaining db ids).map (fun o => f (o.cpuThreads, o.ramBytes))).sum := by
  have hloads : ∀ rows : List Owner,
      ((rows.filter (fun o => o.state.live && o.id ∉ ids)).map
        (fun o => f (o.cpuThreads, o.ramBytes))) =
      ((rows.map (fun o => (o.id, o.state, o.cpuThreads, o.ramBytes))).filter
        (fun l => l.2.1.live && l.1 ∉ ids)).map (fun l => f l.2.2) := by
    intro rows
    rw [List.filter_map, List.map_map]
    rfl
  unfold remaining
  rw [hloads, hloads, h.owners]

/-- The rows of a kind that an update takes out of it. -/
theorem filter_update {α : Type} {kind selected : α → Bool} {f : α → α} {rows : List α}
    (h : ∀ x ∈ rows, selected x = true → kind (f x) = false) :
    (rows.map (fun x => if selected x then f x else x)).filter kind =
      rows.filter (fun x => kind x && !selected x) := by
  induction rows with
  | nil => rfl
  | cons x rest ih =>
    have hrest := ih (fun y hy => h y (List.mem_cons_of_mem _ hy))
    cases hsel : selected x with
    | false => cases hkind : kind x <;> simp [hsel, hkind, hrest]
    | true => simp [hsel, h x List.mem_cons_self hsel, hrest]

theorem live_freed : (freed db ids).owners.rows.filter (fun o => o.state.live) =
    remaining db ids := by
  refine (filter_update (fun _ _ _ => rfl)).trans ?_
  simp [remaining]

theorem active_freed (h : SameLoad db db₁) : r ∈ activeResourceIds (freed db₁ ids) ↔
    (∃ x ∈ db.reservations.rows, x.resourceId = r ∧ x.state = .active ∧ x.ownerId ∉ ids) ∨
    ∃ i ∈ db.intents.rows, i.state = .active ∧ r ∈ i.resources ∧ i.ownerId ∉ ids := by
  rw [mem_activeResourceIds]
  refine or_congr ⟨?_, ?_⟩ ⟨?_, ?_⟩
  · rintro ⟨n, y, hy, rfl, -, hs⟩
    obtain ⟨x, hx, rfl⟩ := (Table.mem_update y).mp hy
    split at hs
    · cases hs
    · rename_i hid
      rw [if_neg hid]
      exact ⟨x, h.reservations ▸ hx, rfl, hs, by simpa using hid⟩
  · rintro ⟨x, hx, rfl, hs, hid⟩
    refine ⟨x.ownerId, x, (Table.mem_update x).mpr ⟨x, h.reservations ▸ hx, ?_⟩, rfl, rfl, hs⟩
    simp [hid]
  · rintro ⟨j, hj, hs, hr⟩
    obtain ⟨i, hi, rfl⟩ := (Table.mem_update j).mp hj
    split at hs
    · cases hs
    · rename_i hid
      rw [if_neg hid] at hr
      exact ⟨i, h.intents ▸ hi, hs, hr, by simpa using hid⟩
  · rintro ⟨i, hi, hs, hr, hid⟩
    refine ⟨i, (Table.mem_update i).mpr ⟨i, h.intents ▸ hi, ?_⟩, hs, hr⟩
    simp [hid]

theorem unblocked_iff (h : SameLoad db db₁) {resources : List ResourceId} :
    resources.all (fun r => r ∉ activeResourceIds (freed db₁ ids)) = true ↔
      Unblocked db ids resources := by
  rw [List.all_eq_true]
  refine forall_congr' (fun r => imp_congr_right (fun _ => ?_))
  rw [decide_eq_true_eq, active_freed h, not_or]
  constructor
  · rintro ⟨hreserved, hclaimed⟩
    exact ⟨fun x hx hr hs => by_contra (fun hid => hreserved ⟨x, hx, hr, hs, hid⟩),
      fun i hi hs hr => by_contra (fun hid => hclaimed ⟨i, hi, hs, hr, hid⟩)⟩
  · rintro ⟨hreserved, hclaimed⟩
    exact ⟨fun ⟨x, hx, hr, hs, hid⟩ => hid (hreserved x hx hr hs),
      fun ⟨i, hi, hs, hr, hid⟩ => hid (hclaimed i hi hs hr)⟩

theorem room_iff (h : SameLoad db db₁) :
    pressureAvailable env (freed db₁ ids) request = true ↔ Room env db request ids := by
  unfold pressureAvailable Room
  rw [Bool.and_eq_true, decide_eq_true_eq, decide_eq_true_eq, live_freed]
  have hcpu := h.sum ids Prod.fst
  have hram := h.sum ids Prod.snd
  rw [hcpu, hram]

theorem bundles_congr (h : db'.resources = db.resources) :
    bundles db' request = bundles db request := by
  unfold bundles eligible
  rw [h]

/-- The request is selected for once some owners are released exactly if the others leave room
for it and one of its bundles is not blocked. -/
theorem select_freed (h : SameLoad db db₁) {found : List (List ResourceId)}
    (hfound : candidateResourcesLocked db request = .ok found) :
    ∃ out, selectLocked env (freed db₁ ids) request = .ok out ∧
      (out ≠ none ↔ Room env db request ids ∧ ∃ b ∈ found, Unblocked db ids b) := by
  cases hbundles : bundles db request with
  | error e =>
    unfold candidateResourcesLocked at hfound
    rw [hbundles] at hfound
    cases hfound
  | ok bs =>
    have hexpanded : bs.map (expanded request) = found := by
      unfold candidateResourcesLocked at hfound
      rw [hbundles] at hfound
      exact Except.ok.inj hfound
    have hsame : bundles (freed db₁ ids) request = .ok bs :=
      (bundles_congr h.resources).trans hbundles
    unfold selectLocked
    cases hroom : pressureAvailable env (freed db₁ ids) request with
    | false =>
      refine ⟨none, rfl, iff_of_false (fun h => h rfl) (fun hr => ?_)⟩
      rw [(room_iff h).mpr hr.1] at hroom
      cases hroom
    | true =>
      rw [hsame]
      refine ⟨_, rfl, ?_⟩
      rw [hexpanded, ne_eq, List.find?_eq_none, and_iff_right ((room_iff h).mp hroom)]
      push Not
      simp only [unblocked_iff h]

theorem select_congr (hresources : db'.resources = db.resources)
    (hlive : db'.owners.rows.filter (fun o => o.state.live) =
      db.owners.rows.filter (fun o => o.state.live))
    (hactive : activeResourceIds db' = activeResourceIds db) :
    selectLocked env db' request = selectLocked env db request := by
  unfold selectLocked pressureAvailable
  rw [hlive, bundles_congr hresources, hactive]

/-- The three statements of a release, each as selection sees it. -/
theorem releaseReservations_live {id : OwnerId} {now : ℚ} (hp : db.protects id = false)
    (h : db.exec (.releaseReservations now id) = .ok db') :
    db'.reservations.rows.filter (fun x => x.state = .active) =
      (freed db [id]).reservations.rows.filter (fun x => x.state = .active) := by
  cases h
  refine (filter_update (fun _ _ _ => rfl)).trans
    (Eq.trans (List.filter_congr (fun x _ => ?_)) (filter_update (fun _ _ _ => rfl)).symm)
  by_cases hid : x.ownerId = id
  · have hguard : ∀ y, (reservationUpdateGuard db x y).holds = false := by
      intro y
      apply Bool.eq_false_iff.mpr
      intro hholds
      have huse := (inUse_holds.mp (Truth.holds_and.mp hholds).1).2
      rw [hid, hp] at huse
      cases huse
    simp [hid, hguard]
  · simp [hid]

theorem releaseIntents_live {id : OwnerId} {now : ℚ} (hp : db.protects id = false)
    (h : db.exec (.releaseIntents now id) = .ok db') :
    db'.intents.rows.filter (fun i => i.state = .active) =
      (freed db [id]).intents.rows.filter (fun i => i.state = .active) := by
  cases h
  refine (filter_update (fun _ _ _ => rfl)).trans
    (Eq.trans (List.filter_congr (fun i _ => ?_)) (filter_update (fun _ _ _ => rfl)).symm)
  by_cases hid : i.ownerId = id
  · have hguard : ∀ j, (intentUpdateGuard db i j).holds = false := by
      intro j
      apply Bool.eq_false_iff.mpr
      intro hholds
      have huse := (inUse_holds.mp (Truth.holds_and.mp hholds).1).2
      rw [hid, hp] at huse
      cases huse
    simp [hid, hguard]
  · simp [hid]

theorem releaseOwner_live {id : OwnerId} {now : ℚ}
    (hplain : ∀ o, db.owner? id = some o → o.residencyProtected = false)
    (h : db.exec (.releaseOwner now id .released) = .ok db') :
    db'.owners.rows.filter (fun o => o.state.live) =
      (freed db [id]).owners.rows.filter (fun o => o.state.live) := by
  cases h
  rw [live_freed]
  refine (filter_update (fun _ _ _ => rfl)).trans (List.filter_congr (fun o ho => ?_))
  by_cases hid : o.id = id
  · have hguard : ∀ o', (ownerUpdateGuard o o').holds = false := by
      intro o'
      apply Bool.eq_false_iff.mpr
      intro hholds
      have hp : o.residencyProtected = true :=
        (Truth.holds_of _).mp (Truth.holds_all.mp hholds _ List.mem_cons_self)
      rw [hplain o (owner?_eq_some.mpr ⟨ho, hid⟩)] at hp
      cases hp
    simp [hid, hguard]
  · simp [hid]

theorem protects_of_plain {id : OwnerId}
    (hplain : ∀ o, db.owner? id = some o → o.residencyProtected = false) :
    db.protects id = false := by
  apply Bool.eq_false_iff.mpr
  intro h
  obtain ⟨o, ho, hp, -⟩ := protects_iff.mp h
  rw [hplain o ho] at hp
  cases hp

/-- For selection, the release of an owner that is not protected frees it and changes nothing
else. -/
theorem release_is_freed {hashes : Hashes} {id : OwnerId} {proof : Option Quiescence}
    {capability generation : Option String}
    (hplain : ∀ o, db.owner? id = some o → o.residencyProtected = false) :
    Ensures (release hashes env db id proof capability generation) (fun db' =>
      ∀ env' request, selectLocked env' db' request = selectLocked env' (freed db [id]) request) := by
  refine ensures_release (fun _ => ?_) (fun o _ ho hp => ?_)
  · refine Ensures.bind Ensures.of_eq (fun db₁ h₁ => ?_)
    refine Ensures.bind Ensures.of_eq (fun db₂ h₂ db₃ h₃ env' request => ?_)
    have hreservations := releaseReservations_live (protects_of_plain hplain) h₁
    have howners := releaseOwner_live (fun o ho => hplain o (by cases h₁; exact ho)) h₂
    have hplain₂ : ∀ o, db₂.owner? id = some o → o.residencyProtected = false := by
      intro o₂ ho₂
      cases ho : db₁.owner? id with
      | none =>
        rcases exec_fresh h₂ ho with hnone | ⟨_, hnew, -⟩
        · rw [hnone] at ho₂
          cases ho₂
        · cases hnew
      | some o =>
        have hp : o.residencyProtected = false := hplain o (by cases h₁; exact ho)
        rcases exec_owner h₂ ho with hsame | ⟨o', ho', hwrite, -⟩ | ⟨_, hdelete, -⟩
        · rw [hsame] at ho₂
          cases ho₂
          exact hp
        · rw [ho'] at ho₂
          cases ho₂
          cases hwrite
          exact hp
        · cases hdelete
    have hintents := releaseIntents_live (protects_of_plain hplain₂) h₃
    cases h₁
    cases h₂
    cases h₃
    exact select_congr rfl howners (congrArg₂ (fun xs is => xs ++ is)
      (congrArg (List.map Reservation.resourceId) hreservations)
      (congrArg (List.flatMap Intent.resources) hintents))
  · rw [hplain o ho] at hp
    cases hp

end Freed

section Outcome

/-- The reservation finds nothing and signals. -/
def Refuses (env : Env) (db : Registry) (request : Request) (new : Owner) : Prop :=
  ∃ db', reserveLocked env db request new = .ok (db', none)

/-- It inserts its rows. -/
def Grants (env : Env) (db : Registry) (request : Request) (new : Owner) : Prop :=
  ∃ db' reply, reserveLocked env db request new = .ok (db', some reply)

theorem refuses_of_select {found : List (List ResourceId)}
    (hfound : candidateResourcesLocked db request = .ok found)
    (h : selectLocked env db request = .ok none) : Refuses env db request new := by
  have hpreempt : Commits (requestPreemptionLocked env db request new.priorityClass)
      (fun _ => True) := by
    refine Commits.bind (P := fun _ => True) ⟨_, choice_eq hfound, trivial⟩ (fun choice _ => ?_)
    cases choice with
    | none => exact Commits.pure trivial
    | some c => exact Commits.bind preemptAll_commits (fun _ _ => Commits.pure trivial)
  obtain ⟨⟨db', resources⟩, hout, -⟩ := hpreempt
  refine ⟨db', ?_⟩
  unfold reserveLocked
  rw [h]
  change (requestPreemptionLocked env db request new.priorityClass >>=
    fun out => pure (out.1, none)) = _
  rw [hout]
  rfl

/-- An owner that is new gets what is selected. -/
theorem grants_of_select {resources : List ResourceId} (hfresh : Fresh db new.id)
    (h : selectLocked env db request = .ok (some resources)) : Grants env db request new := by
  obtain ⟨hnodup, hfree⟩ := select_free _ h resources rfl
  obtain ⟨owned, howned, hsame, -⟩ := insertOwner_commits hfresh.1
  obtain ⟨db', hdb', -⟩ : Commits (insertReservations env owned new.id resources)
      (fun _ => True) := by
    refine insertReservations_commits hnodup (fun x hx ho => ?_) (fun r hr n hactive => ?_)
    · exact absurd ho (hfresh.2 x (hsame ▸ hx))
    · exact hfree r hr (mem_activeResourceIds.mpr (.inl ⟨n, (active_congr hsame).mp hactive⟩))
  have howned' : db.insertOwner new = .ok owned := howned
  refine ⟨db', (new.id, resources.filter isAccelerator), ?_⟩
  unfold reserveLocked
  rw [h]
  show (do
    let db ← db.insertOwner new
    let db ← insertReservations env db new.id resources
    pure (db, some (new.id, resources.filter isAccelerator))) = _
  rw [howned']
  show (do
    let db ← insertReservations env owned new.id resources
    pure (db, some (new.id, resources.filter isAccelerator))) = _
  rw [hdb']
  rfl

theorem SameLoad.fresh (h : SameLoad db db₁) {id : OwnerId} (hfresh : Fresh db id) :
    Fresh (freed db₁ ids) id := by
  refine ⟨owner?_eq_none.mpr (fun o ho hid => ?_), fun y hy ho => ?_⟩
  · obtain ⟨o₁, ho₁, rfl⟩ := (Table.mem_update o).mp ho
    have hsame : o₁.id = id := by
      rw [← hid]
      split <;> rfl
    have hmem := List.mem_map_of_mem (f := fun o : Owner => (o.id, o.state, o.cpuThreads, o.ramBytes))
      ho₁
    rw [h.owners] at hmem
    obtain ⟨o₂, ho₂, hload⟩ := List.mem_map.mp hmem
    exact owner?_eq_none.mp hfresh.1 o₂ ho₂ ((congrArg Prod.fst hload).trans hsame)
  · obtain ⟨x, hx, rfl⟩ := (Table.mem_update y).mp hy
    refine hfresh.2 x (h.reservations ▸ hx) ?_
    rw [← ho]
    split <;> rfl

/-- Once the owners are released the request is not refused any more, and granted if its owner
is new, exactly if the others leave room and a bundle. -/
theorem relieved_iff (h : SameLoad db db₁) {found : List (List ResourceId)}
    (hfound : candidateResourcesLocked db request = .ok found) :
    (¬ Refuses env (freed db₁ ids) request new ∧
      (Fresh db new.id → Grants env (freed db₁ ids) request new)) ↔
    Room env db request ids ∧ ∃ b ∈ found, Unblocked db ids b := by
  obtain ⟨out, hout, hiff⟩ := select_freed h hfound
  have hfound' : candidateResourcesLocked (freed db₁ ids) request = .ok found := by
    unfold candidateResourcesLocked at hfound ⊢
    have hsame : bundles (freed db₁ ids) request = bundles db request := bundles_congr h.resources
    rw [hsame]
    exact hfound
  rw [← hiff]
  cases out with
  | none => exact iff_of_false (fun hr => hr.1 (refuses_of_select hfound' hout)) (fun h => h rfl)
  | some resources =>
    refine iff_of_true ⟨?_, fun hfresh => grants_of_select (h.fresh hfresh) hout⟩ (by simp)
    rintro ⟨db₂, hrefuse⟩
    rw [(reserve_refused hrefuse).1] at hout
    cases hout

end Outcome

section Signals

/-- The row of an owner that is asked to give way. -/
def Owner.asked (env : Env) (o : Owner) : Owner :=
  { o with preemptRequested := true, heartbeatAt := env.clock }

/-- No guard keeps a signal from a row. -/
theorem owner?_preempt {n id : OwnerId} (h : db.exec (.preempt env.clock n) = .ok db') :
    db'.owner? id = (db.owner? id).map (fun o => if id = n then o.asked env else o) := by
  cases h
  show (Registry.updateOwners _ _ _).owner? id = _
  rw [owner?_updateOwners]
  refine Option.map_congr (fun o ho => ?_)
  have hid : o.id = id := id_of_owner? ho
  have hguard : (ownerUpdateGuard o (o.asked env)).holds = false := by
    apply Bool.eq_false_iff.mpr
    intro hholds
    -- a signal changes no column that the guard looks at
    simp only [ownerUpdateGuard, Owner.asked, Truth.holds_all, List.forall_mem_cons,
      Truth.holds_any, List.exists_mem_cons_iff, Truth.holds_and, Truth.holds_of,
      Truth.holds_isNot, Truth.holds_or, ne_eq, not_true_eq_false, or_false,
      false_and, and_false, exists_false, List.not_mem_nil] at hholds
    obtain ⟨hp, -, ⟨hplain, -⟩, -⟩ := hholds
    have hopen : (!o.residencyProtected) = true := (Truth.holds_of _).mp hplain
    rw [hp] at hopen
    cases hopen
  show (if (o.id = n && !(ownerUpdateGuard o (o.asked env)).holds) then o.asked env else o) = _
  rw [hguard, hid]
  simp

/-- Exactly the victims are signalled. -/
theorem owner?_preemptAll {victims : List Owner} {id : OwnerId} :
    Ensures (preemptAll env db victims) (fun db' => db'.owner? id = (db.owner? id).map
      (fun o => if id ∈ victims.map (·.id) then o.asked env else o)) := by
  induction victims generalizing db with
  | nil => exact Ensures.pure (by simp)
  | cons o rest ih =>
    refine Ensures.bind (P := fun db₁ => db.exec (.preempt env.clock o.id) = .ok db₁)
      Ensures.of_eq (fun db₁ h₁ => ?_)
    refine Ensures.mono ih (fun db₂ h₂ => ?_)
    rw [h₂, owner?_preempt h₁, Option.map_map]
    refine Option.map_congr (fun o₁ _ => ?_)
    by_cases hid : id = o.id <;> by_cases hrest : id ∈ rest.map (·.id) <;>
      simp [hid, hrest, Owner.asked]

/-- An owner that has to give way to a priority. -/
def Yields (db : Registry) (p : PriorityClass) (id : OwnerId) : Prop :=
  ∃ o, db.owner? id = some o ∧ o.preemptible = true ∧ o.priorityClass.value < p.value

/-- The signals of a request that was refused are useful: they go to owners that yield, their
release is what the request needs, and there are none if no release would help. -/
structure Useful (env : Env) (db db' : Registry) (request : Request) (new : Owner)
    (signalled : List OwnerId) : Prop where
  yields : ∀ n ∈ signalled, Yields db new.priorityClass n
  granted : signalled ≠ [] → ¬ Refuses env (freed db' signalled) request new ∧
    (Fresh db new.id → Grants env (freed db' signalled) request new)
  needed : (∀ ids : List OwnerId, (∀ n ∈ ids, Yields db new.priorityClass n) →
    Refuses env (freed db ids) request new) → signalled = []

/-- The holders of the bundle that comes first among those whose holders all yield are what the
request waits for: the other live owners leave room for it and leave one of its bundles. -/
def Relieves (env : Env) (db : Registry) (request : Request) (p : PriorityClass)
    (found : List (List ResourceId)) : Prop :=
  ∀ c ∈ preemptable db p found, (∀ d ∈ preemptable db p found, d.before c = false) →
    Room env db request (c.owners.map (·.id)) ∧
      ∃ b ∈ found, Unblocked db (c.owners.map (·.id)) b

instance {found : List (List ResourceId)} : Decidable (Relieves env db request p found) :=
  inferInstanceAs (Decidable (∀ c ∈ preemptable db p found, _ → _ ∧ _))

theorem yields_of_preemptable {found : List (List ResourceId)} (hc : c ∈ preemptable db p found) :
    c.owners ≠ [] ∧ ∀ n ∈ c.owners.map (·.id), Yields db p n := by
  obtain ⟨hmem, hsel⟩ := List.mem_filter.mp hc
  obtain ⟨resources, -, rfl⟩ := List.mem_map.mp hmem
  simp only [Bool.and_eq_true, Bool.not_eq_true', List.isEmpty_eq_false_iff, List.all_eq_true,
    decide_eq_true_eq] at hsel
  refine ⟨hsel.1, fun n hn => ?_⟩
  obtain ⟨o, ho, rfl⟩ := List.mem_map.mp hn
  have hrow : o ∈ db.owners.rows := (List.mem_filter.mp ho).1
  exact ⟨o, owner?_eq_some.mpr ⟨hrow, rfl⟩, hsel.2 o ho⟩

/-- A refused reservation signals exactly the owners that `bumpedOwners` names, and its signals
are useful exactly if the first bundle whose holders yield is what it waits for. -/
theorem preemption_is_useful_iff (env : Env) (db db' : Registry) (request : Request) (new : Owner)
    (found : List (List ResourceId)) (hfound : candidateResourcesLocked db request = .ok found)
    (hrefused : reserveLocked env db request new = .ok (db', none)) :
    let signalled := bumpedOwners env db request new.priorityClass
    (∀ n, db'.owner? n = (db.owner? n).map (fun o => if n ∈ signalled then o.asked env else o)) ∧
    (Useful env db db' request new signalled ↔
      Relieves env db request new.priorityClass found) := by
  intro signalled
  obtain ⟨hselect, resources, hrequest⟩ := reserve_refused hrefused
  have hchoice := choice_eq (p := new.priorityClass) hfound
  unfold requestPreemptionLocked at hrequest
  rw [hchoice] at hrequest
  cases hleast : leastCandidate (preemptable db new.priorityClass found) with
  | none =>
    have hsignalled : signalled = [] := by
      simp only [signalled, bumpedOwners, hselect, hchoice, hleast]
    rw [hleast] at hrequest
    cases hrequest
    rw [hsignalled]
    refine ⟨fun n => by simp, iff_of_true ⟨?_, fun h => absurd rfl h, fun _ => rfl⟩ ?_⟩
    · exact fun n hn => (by cases hn)
    · intro c hc hfirst
      rw [leastCandidate_eq_some.mpr ⟨hc, hfirst⟩] at hleast
      cases hleast
  | some c =>
    have hsignalled : signalled = c.owners.map (·.id) := by
      simp only [signalled, bumpedOwners, hselect, hchoice, hleast]
    obtain ⟨hc, hfirst⟩ := leastCandidate_eq_some.mp hleast
    obtain ⟨howners, hyields⟩ := yields_of_preemptable hc
    rw [hleast] at hrequest
    have hpreempt : preemptAll env db c.owners = .ok db' := by
      have hcommit : (preemptAll env db c.owners >>= fun db => pure (db, c.resources)) =
          .ok (db', resources) := hrequest
      cases hall : preemptAll env db c.owners with
      | error e =>
        rw [hall] at hcommit
        cases hcommit
      | ok db₁ =>
        rw [hall] at hcommit
        cases hcommit
        rfl
    have hload := sameLoad_preemptAll db' hpreempt
    rw [hsignalled]
    refine ⟨fun n => owner?_preemptAll db' hpreempt, fun h => ?_, fun h => ?_⟩
    · intro d hd hdfirst
      have hsame : d = c := by
        have hd' := leastCandidate_eq_some.mpr ⟨hd, hdfirst⟩
        rw [hleast] at hd'
        exact (Option.some.inj hd').symm
      rw [hsame]
      exact (relieved_iff hload hfound).mp (h.granted (by simpa using howners))
    · have hrelieved := h c hc hfirst
      refine ⟨hyields, fun _ => (relieved_iff hload hfound).mpr hrelieved, fun hnone => ?_⟩
      have hhelps : ¬ Refuses env (freed db (c.owners.map (·.id))) request new ∧ _ :=
        (relieved_iff SameLoad.refl hfound).mpr hrelieved
      exact absurd (hnone _ hyields) hhelps.1

end Signals

section Runs

/-- A service that asks for the device of the job, and for threads. -/
def modelRequest (threads : ℤ) : Request := { ids := ["accelerator:a"], cpuThreads := threads }

def modelOwner (threads : ℤ) : Owner :=
  reservedOwner (hostAt 2) "service:p:model:u2" .service "/p" (modelRequest threads) 7
    .activeLocalDelegation none none (some "model")

/-- A job holds the device. -/
def jobRuns : Registry := reservedRun.foldl (step plainHashes) {}

/-- The job gives way to a service that needs no more than its device. -/
theorem job_gives_way : ∃ db', reserveLocked (hostAt 2) jobRuns (modelRequest 1) (modelOwner 1) =
      .ok (db', none) ∧
    Useful (hostAt 2) jobRuns db' (modelRequest 1) (modelOwner 1) [ghost] := by
  have hrefused : (reserveLocked (hostAt 2) jobRuns (modelRequest 1) (modelOwner 1)).toOption.map
      (fun out => out.2.isNone) = some true := by
    decide +kernel
  obtain ⟨⟨db', reply⟩, hout, hnone⟩ := Option.map_eq_some_iff.mp hrefused
  obtain rfl := Option.isNone_iff_eq_none.mp hnone
  have hreserve := Ensures.ok_of_toOption hout
  have hfound : candidateResourcesLocked jobRuns (modelRequest 1) = .ok [["accelerator:a"]] :=
    Ensures.ok_of_toOption (by decide +kernel)
  have hsignalled : bumpedOwners (hostAt 2) jobRuns (modelRequest 1)
      (modelOwner 1).priorityClass = [ghost] := by
    decide +kernel
  have huseful := (preemption_is_useful_iff (hostAt 2) jobRuns db' (modelRequest 1) (modelOwner 1)
    [["accelerator:a"]] hfound hreserve).2.mpr (by decide +kernel)
  rw [hsignalled] at huseful
  exact ⟨db', hreserve, huseful⟩

/-- A foreground request charges all the threads that there are. -/
def hostIsBusy : Registry :=
  step plainHashes jobRuns ⟨hostAt 1, .beginForeground "/p" { cpuThreads := 6 } 7 .foregroundGpu⟩

/-- The job is signalled, but its release leaves the service without threads. -/
theorem job_is_drained_for_nothing : ∃ db',
    reserveLocked (hostAt 2) hostIsBusy (modelRequest 1) (modelOwner 1) = .ok (db', none) ∧
    ¬ Useful (hostAt 2) hostIsBusy db' (modelRequest 1) (modelOwner 1) (bumpedOwners (hostAt 2)
      hostIsBusy (modelRequest 1) (modelOwner 1).priorityClass) := by
  have hsignalled : bumpedOwners (hostAt 2) hostIsBusy (modelRequest 1)
      (modelOwner 1).priorityClass = [ghost] := by
    decide +kernel
  have hrefused : (reserveLocked (hostAt 2) hostIsBusy (modelRequest 1) (modelOwner 1)).toOption.map
      (fun out => (out.2.isNone, (reserveLocked (hostAt 2) (freed out.1 [ghost]) (modelRequest 1)
        (modelOwner 1)).toOption.map (fun out => out.2.isNone))) = some (true, some true) := by
    decide +kernel
  obtain ⟨⟨db', reply⟩, hout, hfacts⟩ := Option.map_eq_some_iff.mp hrefused
  simp only [Prod.mk.injEq] at hfacts
  obtain ⟨hnone, hagain⟩ := hfacts
  obtain rfl := Option.isNone_iff_eq_none.mp hnone
  obtain ⟨⟨db₂, reply⟩, hout₂, hnone₂⟩ := Option.map_eq_some_iff.mp hagain
  obtain rfl := Option.isNone_iff_eq_none.mp hnone₂
  refine ⟨db', Ensures.ok_of_toOption hout, fun h => ?_⟩
  rw [hsignalled] at h
  exact (h.granted (List.cons_ne_nil _ _)).1 ⟨db₂, Ensures.ok_of_toOption hout₂⟩

end Runs

end ProjectControl.HostResources
