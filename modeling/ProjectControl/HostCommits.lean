import Mathlib.Data.List.Dedup
import ProjectControl.HostTransactions

/-! When the transactions that sweep commit: nothing that they insert is there already. -/

set_option autoImplicit false

namespace ProjectControl.HostResources

open Sql

variable {hashes : Hashes} {env : Env} {db db' : Registry} {id n : OwnerId}

section Keys

/-- No row of `db'` has a key that no row of `db` has. -/
structure SameKeys (db db' : Registry) : Prop where
  owners : ∀ n, db.owner? n = none → db'.owner? n = none
  reservations : ∀ y ∈ db'.reservations, ∃ x ∈ db.reservations,
    x.resourceId = y.resourceId ∧ x.ownerId = y.ownerId
  intents : ∀ j ∈ db'.intents, ∃ i ∈ db.intents, i.id = j.id

theorem SameKeys.refl : SameKeys db db :=
  ⟨fun _ h => h, fun y hy => ⟨y, hy, rfl, rfl⟩, fun j hj => ⟨j, hj, rfl⟩⟩

theorem SameKeys.trans {db'' : Registry} (h : SameKeys db db') (h' : SameKeys db' db'') :
    SameKeys db db'' := by
  refine ⟨fun n hn => h'.owners n (h.owners n hn), fun z hz => ?_, fun k hk => ?_⟩
  · obtain ⟨y, hy, hyr, hyo⟩ := h'.reservations z hz
    obtain ⟨x, hx, hxr, hxo⟩ := h.reservations y hy
    exact ⟨x, hx, hxr.trans hyr, hxo.trans hyo⟩
  · obtain ⟨j, hj, hjk⟩ := h'.intents k hk
    obtain ⟨i, hi, hij⟩ := h.intents j hj
    exact ⟨i, hi, hij.trans hjk⟩

theorem sameKeys_updateOwners (selected : Owner → Bool) (c : Change Owner.Distinct) :
    SameKeys db (db.updateOwners selected c) := by
  refine ⟨fun n hn => ?_, SameKeys.refl.reservations, SameKeys.refl.intents⟩
  rw [owner?_updateOwners, hn]
  rfl

theorem sameKeys_updateReservations {f : Reservation → Reservation}
    {hf : ∀ r, (f r).resourceId = r.resourceId ∧ (f r).ownerId = r.ownerId ∧
      ((f r).state = .active → r.state = .active)} (selected : Reservation → Bool) :
    SameKeys db (db.updateReservations selected (reservationChange f hf)) := by
  refine ⟨SameKeys.refl.owners, fun y hy => ?_, SameKeys.refl.intents⟩
  obtain ⟨x, hx, rfl⟩ := (Table.mem_update y).mp hy
  obtain ⟨hresource, howner, -⟩ := hf x
  refine ⟨x, hx, ?_⟩
  split
  · exact ⟨hresource.symm, howner.symm⟩
  · exact ⟨rfl, rfl⟩

theorem sameKeys_updateIntents {f : Intent → Intent} {hf : ∀ i, (f i).id = i.id}
    (selected : Intent → Bool) :
    SameKeys db (db.updateIntents selected (intentChange f hf)) := by
  refine ⟨SameKeys.refl.owners, SameKeys.refl.reservations, fun j hj => ?_⟩
  obtain ⟨i, hi, rfl⟩ := (Table.mem_update j).mp hj
  refine ⟨i, hi, ?_⟩
  split
  · exact (hf i).symm
  · rfl

theorem release_commits {state : OwnerState} :
    Commits (releaseLocked env db n state) (SameKeys db) := by
  refine ⟨_, rfl, ?_⟩
  exact ((sameKeys_updateReservations _).trans (sameKeys_updateOwners _ _)).trans
    (sameKeys_updateIntents _)

theorem sweep_commits {staleSeconds : ℚ} :
    Commits (sweepLocked env db staleSeconds) (SameKeys db) := by
  refine Commits.bind (P := SameKeys db) (Commits.foldlM SameKeys.refl (fun db₁ o _ h₁ => ?_)) ?_
  · unfold sweepOwner
    split
    · exact Commits.pure h₁
    · split
      · exact Commits.pure h₁
      · exact release_commits.mono (fun _ h => h₁.trans h)
  · exact fun db₁ h₁ => ⟨_, rfl, h₁.trans (sameKeys_updateIntents _)⟩

end Keys

section Inserts

theorem insertOwner_commits {new : Owner} (hfresh : db.owner? new.id = none) :
    Commits (db.exec (.insertOwner new)) (fun db' => db'.reservations = db.reservations ∧
      db'.intents = db.intents) := by
  show Commits (db.insertOwner new) _
  unfold Registry.insertOwner
  split
  · exact ⟨db, rfl, rfl, rfl⟩
  · cases hinsert : db.owners.insert? new with
    | some owners => exact ⟨_, rfl, rfl, rfl⟩
    | none =>
      obtain ⟨a, ha, hne⟩ := Table.insert?_eq_none.mp hinsert
      exact absurd (not_not.mp hne) (owner?_eq_none.mp hfresh a ha)

theorem insertIntent_commits {new : Intent} (hfresh : ∀ i ∈ db.intents, i.id ≠ new.id) :
    Commits (db.exec (.insertIntent new)) (fun _ => True) := by
  show Commits (db.insertIntent new) _
  unfold Registry.insertIntent
  split
  · exact ⟨db, rfl, trivial⟩
  · cases hinsert : db.intents.insert? new with
    | some intents => exact ⟨_, rfl, trivial⟩
    | none =>
      obtain ⟨a, ha, hne⟩ := Table.insert?_eq_none.mp hinsert
      exact absurd (not_not.mp hne) (hfresh a ha)

theorem insertReservation_commits {new : Reservation}
    (hkey : ∀ x ∈ db.reservations, x.ownerId = new.ownerId → x.resourceId ≠ new.resourceId)
    (hfree : ∀ n, ¬ db.active new.resourceId n) :
    Commits (db.exec (.insertReservation new))
      (fun db' => ∀ x ∈ db'.reservations, x ∈ db.reservations ∨ x = new) := by
  show Commits (db.insertReservation new) _
  unfold Registry.insertReservation
  split
  · exact ⟨db, rfl, fun x hx => .inl hx⟩
  · cases hinsert : db.reservations.insert? new with
    | some reservations => exact ⟨_, rfl, fun x hx => (Table.mem_insert? hinsert x).mp hx⟩
    | none =>
      obtain ⟨x, hx, hne⟩ := Table.insert?_eq_none.mp hinsert
      refine absurd (fun hr => ?_) hne
      refine ⟨fun ho => hkey x hx ho hr, fun ⟨hs, _⟩ => ?_⟩
      exact hfree x.ownerId ⟨x, hx, hr, rfl, hs⟩

/-- Distinct resources that are free and that the owner never held can be reserved. -/
theorem insertReservations_commits {resources : List ResourceId} (hnodup : resources.Nodup)
    (hkey : ∀ x ∈ db.reservations, x.ownerId = id → x.resourceId ∉ resources)
    (hfree : ∀ r ∈ resources, ∀ n, ¬ db.active r n) :
    Commits (insertReservations env db id resources) (fun _ => True) := by
  induction resources generalizing db with
  | nil => exact ⟨db, rfl, trivial⟩
  | cons r rest ih =>
    obtain ⟨hr, hrest⟩ := List.nodup_cons.mp hnodup
    refine Commits.bind (insertReservation_commits (fun x hx ho hxr => ?_)
      (hfree r List.mem_cons_self)) (fun db' hdb' => ih hrest (fun x hx ho => ?_) ?_)
    · exact hkey x hx ho (hxr ▸ List.mem_cons_self)
    · rcases hdb' x hx with hx | rfl
      · exact fun h => hkey x hx ho (List.mem_cons_of_mem _ h)
      · exact hr
    · rintro r' hr' n ⟨x, hx, hxr, hxn, hxs⟩
      rcases hdb' x hx with hx | rfl
      · exact hfree r' (List.mem_cons_of_mem _ hr') n ⟨x, hx, hxr, hxn, hxs⟩
      · have hsame : r = r' := hxr
        exact hr (hsame ▸ hr')

end Inserts

section Requests

variable {request : Request} {priorityClass : PriorityClass}

theorem bundles_commits (hcount : 0 ≤ request.count) :
    Commits (bundles db request) (fun _ => True) := by
  unfold bundles
  split
  · exact Commits.pure trivial
  · rw [if_neg (not_lt.mpr hcount)]
    exact Commits.pure trivial

theorem candidates_commits (hcount : 0 ≤ request.count) :
    Commits (candidateResourcesLocked db request) (fun _ => True) :=
  Commits.bind (bundles_commits hcount) (fun _ _ => Commits.pure trivial)

theorem sortedSet_nodup (texts : List String) : (sortedSet texts).Nodup :=
  (List.perm_insertionSort _ _).nodup_iff.mpr (List.nodup_dedup texts)

/-- A bundle that is selected has distinct and free resources. -/
theorem select_commits (hcount : 0 ≤ request.count) :
    Commits (selectLocked env db request) (fun out => ∀ resources, out = some resources →
      resources.Nodup ∧ ∀ r ∈ resources, ∀ n, ¬ db.active r n) := by
  unfold selectLocked
  split
  · exact Commits.pure (fun _ h => by cases h)
  · refine Commits.bind (bundles_commits hcount) (fun found _ => Commits.pure ?_)
    intro resources hfind
    obtain ⟨bundle, -, rfl⟩ := List.mem_map.mp (List.mem_of_find?_eq_some hfind)
    refine ⟨sortedSet_nodup _, fun r hr n hactive => ?_⟩
    obtain ⟨x, hx, hxr, -, hxs⟩ := hactive
    have hsel := List.find?_some hfind
    have hfree := List.all_eq_true.mp hsel r hr
    refine of_decide_eq_true hfree (List.mem_append_left _ ?_)
    exact List.mem_map.mpr ⟨x, List.mem_filter.mpr ⟨hx, by simp [hxs]⟩, hxr⟩

theorem preemptAll_commits {victims : List Owner} :
    Commits (preemptAll env db victims) (SameKeys db) :=
  Commits.foldlM SameKeys.refl (fun _ _ _ h => ⟨_, rfl, h.trans (sameKeys_updateOwners _ _)⟩)

theorem requestPreemption_commits (hcount : 0 ≤ request.count) :
    Commits (requestPreemptionLocked env db request priorityClass) (fun r => SameKeys db r.1) := by
  refine Commits.bind (P := fun _ => True) ?_ (fun choice _ => ?_)
  · exact Commits.bind (candidates_commits hcount) (fun _ _ => Commits.pure trivial)
  · cases choice with
    | none => exact Commits.pure SameKeys.refl
    | some c => exact Commits.bind preemptAll_commits (fun _ h => Commits.pure h)

theorem reserve_commits (hcount : 0 ≤ request.count) {new : Owner}
    (hfresh : db.owner? new.id = none) (hkey : ∀ x ∈ db.reservations, x.ownerId ≠ new.id) :
    Commits (reserveLocked env db request new) (fun _ => True) := by
  refine Commits.bind (select_commits hcount) (fun selected hselected => ?_)
  cases selected with
  | none =>
    exact Commits.bind (requestPreemption_commits hcount) (fun _ _ => Commits.pure trivial)
  | some resources =>
    obtain ⟨hnodup, hfree⟩ := hselected resources rfl
    refine Commits.bind (insertOwner_commits hfresh) (fun db₁ ⟨hsame, _⟩ => ?_)
    refine Commits.bind (insertReservations_commits hnodup (fun x hx ho => ?_) (fun r hr n => ?_))
      (fun _ _ => Commits.pure trivial)
    · exact absurd ho (hkey x (hsame ▸ hx))
    · rw [active_congr hsame]
      exact hfree r hr n

theorem foregroundResources_commits (hcount : 0 ≤ request.count) :
    Commits (foregroundResources env db request priorityClass) (fun r => SameKeys db r.1) := by
  refine Commits.bind (select_commits hcount) (fun selected _ => ?_)
  cases selected with
  | some resources => exact Commits.pure SameKeys.refl
  | none =>
    refine Commits.bind (requestPreemption_commits hcount) (fun r hr => ?_)
    dsimp only
    split
    · exact Commits.pure hr
    · exact Commits.bind (candidates_commits hcount) (fun _ _ => Commits.pure hr)

end Requests

/-- No row of an owner or of its reservations is there. -/
def Fresh (db : Registry) (id : OwnerId) : Prop :=
  db.owner? id = none ∧ ∀ x ∈ db.reservations, x.ownerId ≠ id

/-- The call sweeps, and what it inserts collides with no row. -/
def Undisturbed (hashes : Hashes) (db : Registry) (a : Action) : Prop :=
  match a.call with
  | .sweepStale _ => True
  | .reserveBackground projectRoot jobId attemptId request _ =>
    0 ≤ request.count ∧ Fresh db (backgroundOwnerId hashes projectRoot jobId attemptId)
  | .reserveService projectRoot serviceId request _ _ =>
    0 ≤ request.count ∧ Fresh db (serviceOwnerId hashes a.env projectRoot serviceId)
  | .beginForeground _ request _ _ =>
    0 ≤ request.count ∧ db.owner? (foregroundOwnerId a.env) = none ∧
      ∀ i ∈ db.intents, i.id ≠ a.env.intentUuid
  | .activateForeground id resources =>
    resources.Nodup ∧ ∀ x ∈ db.reservations, x.ownerId = id → x.resourceId ∉ resources
  | _ => False

theorem SameKeys.fresh (h : SameKeys db db') (hfresh : Fresh db id) : Fresh db' id := by
  refine ⟨h.owners id hfresh.1, fun y hy ho => ?_⟩
  obtain ⟨x, hx, -, hxo⟩ := h.reservations y hy
  exact hfresh.2 x hx (hxo.trans ho)

theorem transact_commits {a : Action} (h : Undisturbed hashes db a) :
    Commits (transact hashes a.env db a.call) (fun _ => True) := by
  obtain ⟨env, call⟩ := a
  cases call with
  | sweepStale staleSeconds =>
    exact Commits.map (Commits.bind sweep_commits (fun _ _ => Commits.pure trivial))
  | reserveBackground projectRoot jobId attemptId request pid =>
    refine Commits.map (Commits.bind sweep_commits (fun swept hkeys => ?_))
    exact reserve_commits h.1 (hkeys.fresh h.2).1 (hkeys.fresh h.2).2
  | reserveService projectRoot serviceId request pid priorityClass =>
    refine Commits.map (Commits.bind sweep_commits (fun swept hkeys => ?_))
    exact reserve_commits h.1 (hkeys.fresh h.2).1 (hkeys.fresh h.2).2
  | beginForeground projectRoot request pid priorityClass =>
    obtain ⟨hcount, howner, hintent⟩ := h
    refine Commits.map (Commits.bind sweep_commits (fun swept hkeys => ?_))
    refine Commits.bind (foregroundResources_commits hcount) (fun r hr => ?_)
    have hr := hkeys.trans hr
    refine Commits.bind (insertOwner_commits (hr.owners _ howner)) (fun db₂ ⟨_, hsame⟩ => ?_)
    refine Commits.bind (insertIntent_commits (fun j hj hid => ?_)) (fun db₃ _ => ?_)
    · obtain ⟨i, hi, hij⟩ := hr.intents j (hsame ▸ hj)
      exact hintent i hi (hij.trans hid)
    · exact Commits.bind preemptAll_commits (fun _ _ => Commits.pure trivial)
  | activateForeground id resources =>
    obtain ⟨hnodup, hkey⟩ := h
    refine Commits.map (Commits.bind sweep_commits (fun swept hkeys => ?_))
    split
    · exact Commits.pure trivial
    · rename_i htaken
      refine Commits.bind (insertReservations_commits hnodup (fun y hy ho => ?_)
        (fun r hr n hactive => ?_)) (fun _ _ => ⟨_, rfl, trivial⟩)
      · obtain ⟨x, hx, hxr, hxo⟩ := hkeys.reservations y hy
        exact hxr ▸ hkey x hx (hxo.trans ho)
      · exact htaken (List.any_eq_true.mpr ⟨r, hr, taken_iff.mpr ⟨n, hactive⟩⟩)
  | upsertResources | replaceResources | reconcileCurrentServiceOwners | setPriority
  | requestPreemption | heartbeat | protectResidency | recordResidencyProcess | release =>
    exact h.elim

end ProjectControl.HostResources
