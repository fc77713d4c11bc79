import ProjectControl.HostRegistry
import ProjectControl.Transaction

/-! What each statement does to the rows of the registry once the guards had their say. -/

set_option autoImplicit false

namespace ProjectControl.HostResources

open Sql

variable {db db' : Registry} {id : OwnerId} {o o' : Owner} {r : ResourceId} {s : Statement}

section Rows

/-- A change that cannot break the primary key leaves the key alone. -/
theorem id_of_change (c : Change Owner.Distinct) (o : Owner) : (c.apply o).id = o.id := by
  by_contra h
  have hne : (c.apply o).id ≠ (c.apply o).id := c.left o (c.apply o) (Ne.symm h)
  exact hne rfl

theorem owner?_eq_some : db.owner? id = some o ↔ o ∈ db.owners ∧ o.id = id := by
  constructor
  · intro h
    exact ⟨List.mem_of_find?_eq_some h, by simpa using List.find?_some h⟩
  · rintro ⟨hmem, rfl⟩
    cases hfind : db.owner? o.id with
    | none =>
      have hnone := List.find?_eq_none.mp hfind o hmem
      exact absurd (decide_eq_true rfl) hnone
    | some found =>
      have hid : found.id = o.id := by simpa using List.find?_some hfind
      have hsame : found = o := db.owners.eq_of_mem (fun _ _ => Ne.symm)
        (List.mem_of_find?_eq_some hfind) hmem (fun hne => hne hid)
      rw [hsame]

theorem id_of_owner? (h : db.owner? id = some o) : o.id = id := (owner?_eq_some.mp h).2

theorem owner?_eq_none : db.owner? id = none ↔ ∀ o ∈ db.owners, o.id ≠ id := by
  refine List.find?_eq_none.trans (forall₂_congr (fun o _ => ?_))
  simp

theorem protects_iff : db.protects id = true ↔
    ∃ o, db.owner? id = some o ∧ o.residencyProtected = true ∧ o.state = .active := by
  constructor
  · intro h
    obtain ⟨o, hmem, hcond⟩ := List.any_eq_true.mp h
    simp only [Bool.and_eq_true, decide_eq_true_eq] at hcond
    exact ⟨o, owner?_eq_some.mpr ⟨hmem, hcond.1.1⟩, hcond.1.2, hcond.2⟩
  · rintro ⟨o, ho, hprotected, hactive⟩
    obtain ⟨hmem, hid⟩ := owner?_eq_some.mp ho
    apply List.any_eq_true.mpr
    exact ⟨o, hmem, by simp [hid, hprotected, hactive]⟩

theorem owner?_updateOwners (selected : Owner → Bool) (c : Change Owner.Distinct) :
    (db.updateOwners selected c).owner? id = (db.owner? id).map (fun o =>
      if selected o && !(ownerUpdateGuard o (c.apply o)).holds then c.apply o else o) := by
  show (List.map _ db.owners.rows).find? _ = _
  rw [List.find?_map]
  congr 1
  apply congrArg (fun p => List.find? p db.owners.rows)
  funext o
  show decide (Owner.id (if _ then _ else _) = id) = decide (o.id = id)
  split
  · rw [id_of_change]
  · rfl

theorem owner?_insertOwner {new : Owner} (h : db.insertOwner new = .ok db') :
    (db.protects new.id = true ∧ db' = db) ∨
    (db.owner? new.id = none ∧ (∀ id, db'.owner? id =
      if id = new.id then some new else db.owner? id) ∧ db'.reservations = db.reservations ∧
      db'.intents = db.intents) := by
  unfold Registry.insertOwner at h
  split at h
  · rename_i hguard
    cases h
    exact .inl ⟨(Truth.holds_of _).mp hguard, rfl⟩
  · split at h
    · rename_i owners hinsert
      cases h
      have hfresh : db.owner? new.id = none := by
        rw [owner?_eq_none]
        intro o hmem hid
        have hsome : ¬ ∃ a ∈ db.owners, ¬ Owner.Distinct a new := by
          rw [← Table.insert?_eq_none, hinsert]
          simp
        exact hsome ⟨o, hmem, fun hne => hne hid⟩
      refine .inr ⟨hfresh, fun id => ?_, rfl, rfl⟩
      have hmem := Table.mem_insert? hinsert
      ext o
      rw [owner?_eq_some]
      show o ∈ owners ∧ o.id = id ↔ _
      rw [hmem]
      split
      · rename_i hid
        subst hid
        constructor
        · rintro ⟨ho | ho, hid⟩
          · exact absurd hid (owner?_eq_none.mp hfresh o ho)
          · rw [ho]
        · intro ho
          cases ho
          exact ⟨.inr rfl, rfl⟩
      · rename_i hid
        rw [owner?_eq_some]
        constructor
        · rintro ⟨ho | ho, hid'⟩
          · exact ⟨ho, hid'⟩
          · subst ho
            exact absurd hid'.symm hid
        · exact fun ⟨ho, hid'⟩ => ⟨.inl ho, hid'⟩
    · cases h

end Rows

section Owners

/-- What a statement that updates an owner makes of its row. -/
inductive OwnerWrite : Statement → Owner → Owner → Prop where
  | preempt (now : ℚ) (o : Owner) : OwnerWrite (.preempt now o.id) o
      { o with preemptRequested := true, heartbeatAt := now }
  | preemptActive (now : ℚ) (o : Owner) (hactive : o.state = .active) :
      OwnerWrite (.preemptActive now o.id) o
        { o with preemptRequested := true, heartbeatAt := now }
  | setPriority (now : ℚ) (o : Owner) (p : PriorityClass) : OwnerWrite (.setPriority now o.id p) o
      { o with priorityClass := p, heartbeatAt := now }
  | activate (now : ℚ) (o : Owner) : OwnerWrite (.activate now o.id) o
      { o with state := .active, heartbeatAt := now }
  | beat (now : ℚ) (o : Owner) (pid : Option ℕ) (start : Option String) :
      OwnerWrite (.beat now o.id pid start) o
        { o with
          heartbeatAt := now
          pid := pid.orElse (fun _ => o.pid)
          processStart := start.orElse (fun _ => o.processStart) }
  | releaseOwner (now : ℚ) (o : Owner) (state : OwnerState) :
      OwnerWrite (.releaseOwner now o.id state) o { o with state := state, heartbeatAt := now }
  | protect (o : Owner) (metadata : ResidencyMetadata) : OwnerWrite (.protect o.id metadata) o
      { o with residencyProtected := true, residencyMetadata := some metadata }
  | recordProcess (now : ℚ) (o : Owner) (pid : ℕ) (start : String)
      (metadata : ResidencyMetadata) : OwnerWrite (.recordProcess now o.id pid start metadata) o
      { o with
        pid := some pid
        processStart := some start
        residencyMetadata := some metadata
        heartbeatAt := now }
  | unprotect (o : Owner) : OwnerWrite (.unprotect o.id) o
      { o with residencyProtected := false, residencyReleaseVerified := true }

theorem owner?_of_update (selected : Owner → Bool) (c : Change Owner.Distinct)
    (ho : db.owner? id = some o) (hwrite : selected o = true → OwnerWrite s o (c.apply o)) :
    (db.updateOwners selected c).owner? id = some o ∨
    ∃ o', (db.updateOwners selected c).owner? id = some o' ∧ OwnerWrite s o o' ∧
      (ownerUpdateGuard o o').holds = false := by
  rw [owner?_updateOwners, ho]
  by_cases hsel : selected o = true
  · cases hguard : (ownerUpdateGuard o (c.apply o)).holds with
    | true => exact .inl (by simp [hguard])
    | false => exact .inr ⟨c.apply o, by simp [hsel, hguard], hwrite hsel, hguard⟩
  · exact .inl (by simp [hsel])

/-- The row of an owner after a statement. -/
theorem exec_owner (h : db.exec s = .ok db') (ho : db.owner? id = some o) :
    db'.owner? id = some o ∨
    (∃ o', db'.owner? id = some o' ∧ OwnerWrite s o o' ∧
      (ownerUpdateGuard o o').holds = false) ∨
    (∃ selected, s = .deleteOwners selected ∧ (ownerDeleteGuard o).holds = false) := by
  have hid : id = o.id := (id_of_owner? ho).symm
  have hnamed {n : OwnerId} (f : Owner → Owner) (hf : ∀ o, (f o).id = o.id) {s : Statement}
      (hwrite : n = o.id → OwnerWrite s o (f o)) :
      (db.updateOwner n f hf).owner? id = some o ∨
      (∃ o', (db.updateOwner n f hf).owner? id = some o' ∧ OwnerWrite s o o' ∧
        (ownerUpdateGuard o o').holds = false) ∨
      (∃ selected, s = .deleteOwners selected ∧ (ownerDeleteGuard o).holds = false) := by
    refine (owner?_of_update _ (ownerChange f hf) ho (fun hsel => ?_)).imp_right Or.inl
    exact hwrite (of_decide_eq_true hsel).symm
  cases s with
  | setResources resources =>
    cases h
    exact .inl ho
  | insertOwner new =>
    rcases owner?_insertOwner h with ⟨-, rfl⟩ | ⟨hfresh, hlookup, -⟩
    · exact .inl ho
    · rw [hlookup, if_neg (fun heq => by rw [← heq, ho] at hfresh; cases hfresh)]
      exact .inl ho
  | insertReservation new =>
    change db.insertReservation new = .ok db' at h
    unfold Registry.insertReservation at h
    split at h
    · cases h
      exact .inl ho
    · split at h <;> cases h
      exact .inl ho
  | insertIntent new =>
    change db.insertIntent new = .ok db' at h
    unfold Registry.insertIntent at h
    split at h
    · cases h
      exact .inl ho
    · split at h <;> cases h
      exact .inl ho
  | deleteOwners selected =>
    cases h
    cases hguard : (ownerDeleteGuard o).holds with
    | false => exact .inr (.inr ⟨selected, rfl, rfl⟩)
    | true =>
      refine .inl (owner?_eq_some.mpr ⟨?_, hid.symm⟩)
      exact (Table.mem_delete o).mpr ⟨(owner?_eq_some.mp ho).1, by simp [hguard]⟩
  | deleteReservations selected =>
    cases h
    exact .inl ho
  | deleteIntents selected =>
    cases h
    exact .inl ho
  | preempt now n =>
    cases h
    exact hnamed _ _ (fun hn => hn ▸ .preempt now o)
  | preemptActive now n =>
    cases h
    refine (owner?_of_update _ _ ho (fun hsel => ?_)).imp_right Or.inl
    simp only [Bool.and_eq_true, decide_eq_true_eq] at hsel
    obtain ⟨⟨hn, hactive⟩, -⟩ := hsel
    exact hn ▸ .preemptActive now o hactive
  | setPriority now n p =>
    cases h
    exact hnamed _ _ (fun hn => hn ▸ .setPriority now o p)
  | activate now n =>
    cases h
    exact hnamed _ _ (fun hn => hn ▸ .activate now o)
  | beat now n pid start =>
    cases h
    exact hnamed _ _ (fun hn => hn ▸ .beat now o pid start)
  | beatReservations now n =>
    cases h
    exact .inl ho
  | releaseReservations now n =>
    cases h
    exact .inl ho
  | releaseOwner now n state =>
    cases h
    exact hnamed _ _ (fun hn => hn ▸ .releaseOwner now o state)
  | releaseIntents now n =>
    cases h
    exact .inl ho
  | releaseOrphanIntents now =>
    cases h
    exact .inl ho
  | protect n metadata =>
    cases h
    exact hnamed _ _ (fun hn => hn ▸ .protect o metadata)
  | recordProcess now n pid start metadata =>
    cases h
    exact hnamed _ _ (fun hn => hn ▸ .recordProcess now o pid start metadata)
  | unprotect n =>
    cases h
    exact hnamed _ _ (fun hn => hn ▸ .unprotect o)

/-- The owner whose row a statement updates. -/
def Statement.target : Statement → Option OwnerId
  | .preempt _ id | .preemptActive _ id | .setPriority _ id _ | .activate _ id | .beat _ id _ _
  | .releaseOwner _ id _ | .protect id _ | .recordProcess _ id _ _ _ | .unprotect id => some id
  | _ => none

theorem exec_other (hs : s.target ≠ some id) (hdelete : ∀ selected, s ≠ .deleteOwners selected)
    (h : db.exec s = .ok db') (ho : db.owner? id = some o) : db'.owner? id = some o := by
  rcases exec_owner h ho with h | ⟨o', -, hwrite, -⟩ | ⟨selected, hs', -⟩
  · exact h
  · refine absurd ?_ hs
    rw [← id_of_owner? ho]
    cases hwrite <;> rfl
  · exact absurd hs' (hdelete selected)

/-- A row that appears was inserted. -/
theorem exec_fresh (h : db.exec s = .ok db') (hn : db.owner? id = none) :
    db'.owner? id = none ∨
    ∃ new, s = .insertOwner new ∧ new.id = id ∧ db'.owner? id = some new := by
  have hupdate (selected : Owner → Bool) (c : Change Owner.Distinct) :
      (db.updateOwners selected c).owner? id = none := by
    rw [owner?_updateOwners, hn]
    rfl
  cases s with
  | insertOwner new =>
    rcases owner?_insertOwner h with ⟨-, rfl⟩ | ⟨-, hlookup, -⟩
    · exact .inl hn
    · by_cases hid : id = new.id
      · exact .inr ⟨new, rfl, hid.symm, by rw [hlookup, if_pos hid]⟩
      · exact .inl (by rw [hlookup, if_neg hid, hn])
  | insertReservation new =>
    change db.insertReservation new = .ok db' at h
    unfold Registry.insertReservation at h
    split at h
    · cases h
      exact .inl hn
    · split at h <;> cases h
      exact .inl hn
  | insertIntent new =>
    change db.insertIntent new = .ok db' at h
    unfold Registry.insertIntent at h
    split at h
    · cases h
      exact .inl hn
    · split at h <;> cases h
      exact .inl hn
  | deleteOwners selected =>
    cases h
    refine .inl (owner?_eq_none.mpr (fun o ho => ?_))
    exact owner?_eq_none.mp hn o ((Table.mem_delete o).mp ho).1
  | setResources _ | deleteReservations _ | deleteIntents _ | beatReservations _ _
  | releaseReservations _ _ | releaseIntents _ _ | releaseOrphanIntents _ =>
    cases h
    exact .inl hn
  | preempt _ _ | preemptActive _ _ | setPriority _ _ _ | activate _ _ | beat _ _ _ _
  | releaseOwner _ _ _ | protect _ _ | recordProcess _ _ _ _ _ | unprotect _ =>
    cases h
    exact .inl (hupdate _ _)

end Owners

section Reservations

/-- An owner holds a resource. -/
def Registry.active (db : Registry) (r : ResourceId) (id : OwnerId) : Prop :=
  ∃ x ∈ db.reservations, x.resourceId = r ∧ x.ownerId = id ∧ x.state = .active

/-- The unique index: a resource has one active reservation. -/
theorem reservation_unique {x y : Reservation} (hx : x ∈ db.reservations)
    (hy : y ∈ db.reservations) (hr : x.resourceId = y.resourceId) (hxs : x.state = .active)
    (hys : y.state = .active) : x = y := by
  have hsymm : ∀ x y, Reservation.Distinct x y → Reservation.Distinct y x := by
    intro x y h heq
    obtain ⟨hne, hactive⟩ := h heq.symm
    exact ⟨hne.symm, fun ⟨hy, hx⟩ => hactive ⟨hx, hy⟩⟩
  exact db.reservations.eq_of_mem hsymm hx hy (fun h => (h hr).2 ⟨hxs, hys⟩)

theorem active_unique {a b : OwnerId} (ha : db.active r a) (hb : db.active r b) : a = b := by
  obtain ⟨x, hx, hxr, rfl, hxs⟩ := ha
  obtain ⟨y, hy, hyr, rfl, hys⟩ := hb
  rw [reservation_unique hx hy (hxr.trans hyr.symm) hxs hys]

theorem inUse_holds {state : RowState} : (db.inUse state id).holds = true ↔
    state = .active ∧ db.protects id = true := by
  simp [Registry.inUse]

theorem taken_iff : (db.reservations.rows.any (fun x => x.resourceId = r && x.state = .active)) =
    true ↔ ∃ id, db.active r id := by
  rw [List.any_eq_true]
  constructor
  · rintro ⟨x, hx, hcond⟩
    simp only [Bool.and_eq_true, decide_eq_true_eq] at hcond
    exact ⟨x.ownerId, x, hx, hcond.1, rfl, hcond.2⟩
  · rintro ⟨id, x, hx, hr, -, hs⟩
    exact ⟨x, hx, by simp [hr, hs]⟩

theorem insertReservation_cases {new : Reservation} (h : db.insertReservation new = .ok db') :
    db'.owners = db.owners ∧ db'.intents = db.intents ∧
    (((reservationInsertGuard db new).holds = true ∧ db' = db) ∨
      ∀ x, x ∈ db'.reservations ↔ x ∈ db.reservations ∨ x = new) := by
  unfold Registry.insertReservation at h
  split at h
  · rename_i hguard
    cases h
    exact ⟨rfl, rfl, .inl ⟨hguard, rfl⟩⟩
  · split at h
    · rename_i reservations hinsert
      cases h
      exact ⟨rfl, rfl, .inr (Table.mem_insert? hinsert)⟩
    · cases h

section Update

variable {f : Reservation → Reservation} {selected : Reservation → Bool}
variable {hf : ∀ r, (f r).resourceId = r.resourceId ∧ (f r).ownerId = r.ownerId ∧
  ((f r).state = .active → r.state = .active)}

/-- An update activates no reservation. -/
theorem active_of_update
    (h : (db.updateReservations selected (reservationChange f hf)).active r id) :
    db.active r id := by
  obtain ⟨y, hy, hr, hid, hs⟩ := h
  obtain ⟨x, hx, hxy⟩ := (Table.mem_update y).mp hy
  split at hxy
  · subst hxy
    obtain ⟨hresource, howner, hstate⟩ := hf x
    exact ⟨x, hx, hresource.symm.trans hr, howner.symm.trans hid, hstate hs⟩
  · subst hxy
    exact ⟨x, hx, hr, hid, hs⟩

/-- It deactivates those that it selects and that no guard keeps. -/
theorem active_update (h : db.active r id) :
    (db.updateReservations selected (reservationChange f hf)).active r id ∨
    ∃ x, x.ownerId = id ∧ selected x = true ∧
      (reservationUpdateGuard db x (f x)).holds = false ∧ x.state = .active ∧
      (f x).state ≠ .active := by
  obtain ⟨x, hx, hr, hid, hs⟩ := h
  obtain ⟨hresource, howner, -⟩ := hf x
  let y := if selected x && !(reservationUpdateGuard db x (f x)).holds then f x else x
  have hy : y ∈ (db.updateReservations selected (reservationChange f hf)).reservations :=
    (Table.mem_update y).mpr ⟨x, hx, rfl⟩
  by_cases hwritten : (selected x && !(reservationUpdateGuard db x (f x)).holds) = true
  · have hval : y = f x := if_pos hwritten
    by_cases hactive : (f x).state = .active
    · refine .inl ⟨y, hy, ?_⟩
      rw [hval]
      exact ⟨hresource.trans hr, howner.trans hid, hactive⟩
    · simp only [Bool.and_eq_true, Bool.not_eq_true'] at hwritten
      exact .inr ⟨x, hid, hwritten.1, hwritten.2, hs, hactive⟩
  · have hval : y = x := if_neg hwritten
    refine .inl ⟨y, hy, ?_⟩
    rw [hval]
    exact ⟨hr, hid, hs⟩

end Update

/-- What a statement does to the table of reservations, if anything. -/
theorem exec_reservations (h : db.exec s = .ok db') :
    db'.reservations = db.reservations ∨ (∃ new, s = .insertReservation new) ∨
    (∃ selected, s = .deleteReservations selected) ∨ (∃ now id, s = .beatReservations now id) ∨
    (∃ now id, s = .releaseReservations now id) := by
  cases s with
  | insertOwner new =>
    rcases owner?_insertOwner h with ⟨-, rfl⟩ | ⟨-, -, heq, -⟩
    · exact .inl rfl
    · exact .inl heq
  | insertIntent new =>
    change db.insertIntent new = .ok db' at h
    unfold Registry.insertIntent at h
    split at h
    · cases h
      exact .inl rfl
    · split at h <;> cases h
      exact .inl rfl
  | insertReservation new => exact .inr (.inl ⟨new, rfl⟩)
  | deleteReservations selected => exact .inr (.inr (.inl ⟨selected, rfl⟩))
  | beatReservations now id => exact .inr (.inr (.inr (.inl ⟨now, id, rfl⟩)))
  | releaseReservations now id => exact .inr (.inr (.inr (.inr ⟨now, id, rfl⟩)))
  | setResources _ | deleteOwners _ | deleteIntents _ | preempt _ _ | preemptActive _ _
  | setPriority _ _ _ | activate _ _ | beat _ _ _ _ | releaseOwner _ _ _ | releaseIntents _ _
  | releaseOrphanIntents _ | protect _ _ | recordProcess _ _ _ _ _ | unprotect _ =>
    cases h
    exact .inl rfl

theorem active_congr (h : db'.reservations = db.reservations) :
    db'.active r id ↔ db.active r id := by
  unfold Registry.active
  rw [h]

/-- A reservation becomes active by an insert only. -/
theorem exec_active_of (h : db.exec s = .ok db') (hactive : db'.active r id) :
    db.active r id ∨
    ∃ new, s = .insertReservation new ∧ new.resourceId = r ∧ new.ownerId = id := by
  rcases exec_reservations h with heq | ⟨new, rfl⟩ | ⟨selected, rfl⟩ | ⟨now, n, rfl⟩ | ⟨now, n, rfl⟩
  · exact .inl ((active_congr heq).mp hactive)
  · obtain ⟨-, -, hsame | hmem⟩ := insertReservation_cases h
    · rw [hsame.2] at hactive
      exact .inl hactive
    · obtain ⟨x, hx, hr, hid, hs⟩ := hactive
      rcases (hmem x).mp hx with hx | rfl
      · exact .inl ⟨x, hx, hr, hid, hs⟩
      · exact .inr ⟨x, rfl, hr, hid⟩
  · cases h
    obtain ⟨x, hx, hrest⟩ := hactive
    exact .inl ⟨x, ((Table.mem_delete x).mp hx).1, hrest⟩
  · cases h
    exact .inl (active_of_update hactive)
  · cases h
    exact .inl (active_of_update hactive)

/-- It is lost when its owner is released or its row is deleted, unless the owner is
protected. -/
theorem exec_active (h : db.exec s = .ok db') (hactive : db.active r id) :
    db'.active r id ∨ db.protects id = false ∧
      ((∃ selected, s = .deleteReservations selected) ∨ ∃ now, s = .releaseReservations now id) := by
  rcases exec_reservations h with heq | ⟨new, rfl⟩ | ⟨selected, rfl⟩ | ⟨now, n, rfl⟩ | ⟨now, n, rfl⟩
  · exact .inl ((active_congr heq).mpr hactive)
  · obtain ⟨-, -, hsame | hmem⟩ := insertReservation_cases h
    · rw [hsame.2]
      exact .inl hactive
    · obtain ⟨x, hx, hrest⟩ := hactive
      exact .inl ⟨x, (hmem x).mpr (.inl hx), hrest⟩
  · cases h
    obtain ⟨x, hx, hr, rfl, hs⟩ := hactive
    cases hp : db.protects x.ownerId with
    | false => exact .inr ⟨rfl, .inl ⟨selected, rfl⟩⟩
    | true =>
      have hguard : (reservationDeleteGuard db x).holds = true := inUse_holds.mpr ⟨hs, hp⟩
      exact .inl ⟨x, (Table.mem_delete x).mpr ⟨hx, by simp [hguard]⟩, hr, rfl, hs⟩
  · cases h
    rcases active_update hactive with h | ⟨x, -, -, -, hs, hne⟩
    · exact .inl h
    · exact absurd hs hne
  · cases h
    rcases active_update hactive with h | ⟨x, hid, hsel, hguard, hs, -⟩
    · exact .inl h
    · refine .inr ⟨?_, .inr ⟨now, ?_⟩⟩
      · cases hp : db.protects id with
        | false => rfl
        | true =>
          have hholds : (reservationUpdateGuard db x
              { x with state := .released, heartbeatAt := now }).holds = true := by
            refine Truth.holds_and.mpr ⟨inUse_holds.mpr ⟨hs, hid ▸ hp⟩, ?_⟩
            simp [hs]
          rw [hholds] at hguard
          cases hguard
      · simp only [Bool.and_eq_true, decide_eq_true_eq] at hsel
        rw [← hid, hsel.1]

/-- The release of an owner that is not protected leaves it without a reservation. -/
theorem releaseReservations_frees {now : ℚ} (h : db.exec (.releaseReservations now id) = .ok db')
    (hp : db.protects id = false) : ¬ db'.active r id := by
  cases h
  rintro ⟨y, hy, hr, hid, hs⟩
  obtain ⟨x, hx, hxy⟩ := (Table.mem_update y).mp hy
  split at hxy
  · subst hxy
    cases hs
  · rename_i hkept
    subst hxy
    apply hkept
    have hguard : (reservationUpdateGuard db x
        { x with state := .released, heartbeatAt := now }).holds = false := by
      cases hholds : (reservationUpdateGuard db x
          { x with state := .released, heartbeatAt := now }).holds with
      | false => rfl
      | true =>
        have huse := inUse_holds.mp (Truth.holds_and.mp hholds).1
        rw [hid, hp] at huse
        cases huse.2
    show (decide (x.ownerId = id) && decide (x.state = .active) && !_) = true
    rw [hid, hs]
    simp [reservationChange, hguard]

end Reservations

section Intents

/-- An owner has an active foreground intent. -/
def Registry.intends (db : Registry) (id : OwnerId) : Prop :=
  ∃ i ∈ db.intents, i.ownerId = id ∧ i.state = .active

theorem insertIntent_cases {new : Intent} (h : db.insertIntent new = .ok db') :
    db'.owners = db.owners ∧ db'.reservations = db.reservations ∧
    (db' = db ∨ ∀ i, i ∈ db'.intents ↔ i ∈ db.intents ∨ i = new) := by
  unfold Registry.insertIntent at h
  split at h
  · cases h
    exact ⟨rfl, rfl, .inl rfl⟩
  · split at h
    · rename_i intents hinsert
      cases h
      exact ⟨rfl, rfl, .inr (Table.mem_insert? hinsert)⟩
    · cases h

/-- The updates of intents release them. -/
theorem intends_of_update {selected : Intent → Bool} {now : ℚ} {hf : ∀ i : Intent,
    ({ i with state := .released, heartbeatAt := now } : Intent).id = i.id}
    (h : (db.updateIntents selected (intentChange
      (fun i => { i with state := .released, heartbeatAt := now }) hf)).intends id) :
    ∃ i ∈ db.intents, i.ownerId = id ∧ i.state = .active ∧
      (selected i && !(intentUpdateGuard db i
        { i with state := .released, heartbeatAt := now }).holds) = false := by
  obtain ⟨j, hj, hid, hs⟩ := h
  obtain ⟨i, hi, hij⟩ := (Table.mem_update j).mp hj
  split at hij
  · subst hij
    cases hs
  · rename_i hkept
    subst hij
    exact ⟨i, hi, hid, hs, Bool.eq_false_iff.mpr hkept⟩

theorem intends_update {selected : Intent → Bool} {c : Change Intent.Distinct}
    (hkept : ∀ i : Intent, i.ownerId = id → selected i = false) (h : db.intends id) :
    (db.updateIntents selected c).intends id := by
  obtain ⟨i, hi, hid, hs⟩ := h
  refine ⟨i, (Table.mem_update i).mpr ⟨i, hi, ?_⟩, hid, hs⟩
  rw [hkept i hid]
  rfl

/-- An intent becomes active by an insert only. -/
theorem exec_intends_of (h : db.exec s = .ok db') (hintends : db'.intends id) :
    db.intends id ∨ ∃ new, s = .insertIntent new ∧ new.ownerId = id := by
  cases s with
  | insertOwner new =>
    rcases owner?_insertOwner h with ⟨-, rfl⟩ | ⟨-, -, -, hsame⟩
    · exact .inl hintends
    · unfold Registry.intends at hintends
      rw [hsame] at hintends
      exact .inl hintends
  | insertReservation new =>
    obtain ⟨-, hsame, -⟩ := insertReservation_cases h
    unfold Registry.intends at hintends
    rw [hsame] at hintends
    exact .inl hintends
  | insertIntent new =>
    obtain ⟨-, -, rfl | hmem⟩ := insertIntent_cases h
    · exact .inl hintends
    · obtain ⟨i, hi, hid, hs⟩ := hintends
      rcases (hmem i).mp hi with hi | rfl
      · exact .inl ⟨i, hi, hid, hs⟩
      · exact .inr ⟨i, rfl, hid⟩
  | deleteIntents selected =>
    cases h
    obtain ⟨i, hi, hrest⟩ := hintends
    exact .inl ⟨i, ((Table.mem_delete i).mp hi).1, hrest⟩
  | releaseIntents now n =>
    cases h
    obtain ⟨i, hi, hid, hs, -⟩ := intends_of_update hintends
    exact .inl ⟨i, hi, hid, hs⟩
  | releaseOrphanIntents now =>
    cases h
    obtain ⟨i, hi, hid, hs, -⟩ := intends_of_update hintends
    exact .inl ⟨i, hi, hid, hs⟩
  | setResources _ | deleteOwners _ | deleteReservations _ | beatReservations _ _
  | releaseReservations _ _ | preempt _ _ | preemptActive _ _ | setPriority _ _ _ | activate _ _
  | beat _ _ _ _ | releaseOwner _ _ _ | protect _ _ | recordProcess _ _ _ _ _ | unprotect _ =>
    cases h
    exact .inl hintends

theorem releaseIntents_frees {now : ℚ} (h : db.exec (.releaseIntents now id) = .ok db')
    (hp : db.protects id = false) : ¬ db'.intends id := by
  cases h
  intro hintends
  obtain ⟨i, -, hid, hs, hkept⟩ := intends_of_update hintends
  have hguard : (intentUpdateGuard db i
      { i with state := .released, heartbeatAt := now }).holds = false := by
    cases hholds : (intentUpdateGuard db i
        { i with state := .released, heartbeatAt := now }).holds with
    | false => rfl
    | true =>
      have huse := inUse_holds.mp (Truth.holds_and.mp hholds).1
      rw [hid, hp] at huse
      cases huse.2
  rw [hguard, hid, hs] at hkept
  simp at hkept

end Intents

end ProjectControl.HostResources
