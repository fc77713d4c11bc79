import Mathlib.Data.List.Induction
import ProjectControl.HostReclaim
import ProjectControl.HostRows

/-! The owners of an attempt as evidence: what a handoff and a producer attestation ask the
registry or the Device Scheduler, and when ownership keeps them from going on. -/

set_option autoImplicit false

namespace ProjectControl.HostResources

open Sql

section Consumers

variable {α : Type}

/-- What the `owners_for_attempt` of a host facade does. -/
inductive OwnersReply (α : Type) where
  /-- The facade has no such method. -/
  | missing
  | raises (message : String)
  /-- The answer is no list of rows. -/
  | malformed
  | rows (rows : List α)

/-- `_require_quiescent_host`, by what it finds in the command journal, from the facade and
from the observer of child processes. -/
def requireQuiescentHost (journalClear : Bool) (owners : OwnersReply α) (childless : Bool) :
    Except String Unit :=
  if !journalClear then throw "unresolved authored command effects prevent handoff"
  else match owners with
  | .missing => throw "host resource ownership is unavailable for handoff"
  | .raises message => throw message
  | .malformed => throw "active or unknown host resource ownership prevents handoff"
  | .rows rows =>
    if !rows.isEmpty then throw "active or unknown host resource ownership prevents handoff"
    else if !childless then throw "active or unknown child execution prevents handoff"
    else pure ()

/-- `TrackedProcessObserver.owners_for_id`. -/
def ownersForId : OwnersReply α → Option (List α)
  | .rows rows => some rows
  | .missing | .raises _ | .malformed => none

/-- The check of the owners before a producer attestation. -/
def attestOwners (owners : OwnersReply α) : Except String Unit :=
  match ownersForId owners with
  | some [] => pure ()
  | none | some (_ :: _) =>
    throw "registered physical process owners remain or are unavailable"

/-- Ownership alone stops the handoff or the attestation. -/
def OwnershipBlocks (owners : OwnersReply α) : Prop :=
  requireQuiescentHost true owners true ≠ .ok () ∨ attestOwners owners ≠ .ok ()

/-- Both consumers test for emptiness. -/
theorem ownershipBlocks_rows {rows : List α} : OwnershipBlocks (.rows rows) ↔ rows ≠ [] := by
  cases rows with
  | nil => exact iff_of_false (fun h => h.elim (fun h => h rfl) (fun h => h rfl)) (fun h => h rfl)
  | cons first rest => exact iff_of_true (.inl (fun h => by cases h)) (List.cons_ne_nil _ _)

end Consumers

section Registry

/-- A row of `owners_for_attempt`. -/
structure OwnerRow where
  owner : Owner
  resources : List ResourceId

/-- The rows of an attempt. -/
def Owner.attached (projectRoot attemptId : String) (o : Owner) : Bool :=
  o.projectRoot = some projectRoot && o.attemptId = some attemptId

/-- `ORDER BY acquired_at,id`. -/
def Owner.older (a b : Owner) : Prop :=
  a.acquiredAt < b.acquiredAt ∨ a.acquiredAt = b.acquiredAt ∧ a.id ≤ b.id

instance : DecidableRel Owner.older := fun a b =>
  inferInstanceAs (Decidable (a.acquiredAt < b.acquiredAt ∨ a.acquiredAt = b.acquiredAt ∧ a.id ≤ b.id))

/-- `owners_for_attempt`. -/
def ownersForAttempt (db : Registry) (projectRoot attemptId : String) : List OwnerRow :=
  ((db.owners.rows.filter (Owner.attached projectRoot attemptId)).insertionSort Owner.older).map
    (fun o => ⟨o, (db.reserved o.id).insertionSort (· ≤ ·)⟩)

theorem ownersForAttempt_ne_nil {db : Registry} {projectRoot attemptId : String} :
    ownersForAttempt db projectRoot attemptId ≠ [] ↔
      ∃ o ∈ db.owners, o.attached projectRoot attemptId = true := by
  have hmem (o : Owner) : o ∈ (db.owners.rows.filter
      (Owner.attached projectRoot attemptId)).insertionSort Owner.older ↔
      o ∈ db.owners ∧ o.attached projectRoot attemptId = true :=
    (List.mem_insertionSort _).trans List.mem_filter
  constructor
  · intro h
    obtain ⟨row, hrow⟩ := List.exists_mem_of_ne_nil _ h
    obtain ⟨o, ho, -⟩ := List.mem_map.mp hrow
    exact ⟨o, (hmem o).mp ho⟩
  · rintro ⟨o, ho⟩
    exact List.ne_nil_of_mem (List.mem_map_of_mem ((hmem o).mpr ho))

end Registry

section Leases

/-- The `owner_context` of a lease. -/
structure LeaseContext where
  issuer : Option String
  ownerId : Option String
  projectRoot : Option String
  attemptId : Option String

/-- A lease as `leases.list` of the Device Scheduler reports it. -/
structure Lease where
  ownerId : String
  state : String
  expiresAt : String
  ownerContext : Option LeaseContext

/-- `_ACTIVE_LEASE_STATES`. -/
def activeLeaseStates : List String :=
  ["active", "release_requested", "reclaiming", "unknown", "expired"]

/-- Whether `_matching_leases` takes a lease for one of Project Control. -/
def Lease.matching (lease : Lease) : Bool :=
  startsWith lease.ownerId "pc:" && (match lease.ownerContext with
    | none => false
    | some context => context.issuer = some "project-control" &&
        context.ownerId = some lease.ownerId)

/-- The leases of an attempt. -/
def Lease.attached (projectRoot attemptId : String) (lease : Lease) : Bool :=
  (lease.ownerContext.map (fun context =>
    decide (context.projectRoot = some projectRoot ∧ context.attemptId = some attemptId))).getD false

variable (leases : List Lease) (view : Lease → Except String OwnerRow)

/-- `_current_lease`. -/
def currentLease (ownerId : String) : Except String (Option Lease) :=
  let found := leases.filter (fun lease => lease.matching && lease.ownerId = ownerId)
  let active := found.filter (fun lease => lease.state ∈ activeLeaseStates)
  if 1 < active.length then
    throw "multiple active DS leases match one Project Control owner"
  else pure (active.head?.orElse (fun _ => found.head?))

/-- `owner`; `view` is what it makes of a lease and of the inventory. -/
def leaseOwner (ownerId : String) : Except String (Option OwnerRow) := do
  match ← currentLease leases ownerId with
  | none => pure none
  | some lease =>
    match lease.ownerContext with
    | none => pure none
    | some context =>
      if context.issuer ≠ some "project-control" ∨ context.ownerId ≠ some ownerId then pure none
      else some <$> view lease

/-- The body of the loop of `owners_for_attempt`. -/
def addLeaseOwner (projectRoot attemptId : String) (values : List (String × OwnerRow))
    (lease : Lease) : Except String (List (String × OwnerRow)) :=
  if lease.attached projectRoot attemptId then do
    match ← leaseOwner leases view lease.ownerId with
    | none => pure values
    | some owner => pure (values ++ [(lease.expiresAt, owner)])
  else pure values

/-- `DeviceSchedulerHostResourceFacade.owners_for_attempt`. -/
def leaseOwnersForAttempt (projectRoot attemptId : String) : Except String (List OwnerRow) := do
  let values ← (leases.filter Lease.matching).foldlM
    (addLeaseOwner leases view projectRoot attemptId) []
  pure ((values.insertionSort (fun a b => a.1 ≤ b.1)).map Prod.snd)

variable {leases view}

/-- A lease of Project Control has an owner, if the scheduler can be read. -/
theorem ensures_leaseOwner {lease : Lease} (hmem : lease ∈ leases)
    (hmatching : lease.matching = true) :
    Ensures (leaseOwner leases view lease.ownerId) (fun out => ∃ owner, out = some owner) := by
  have hfound : ∀ l ∈ leases.filter (fun l => l.matching && l.ownerId = lease.ownerId),
      l.matching = true ∧ l.ownerId = lease.ownerId := by
    intro l hl
    simpa using (List.mem_filter.mp hl).2
  have hcurrent : Ensures (currentLease leases lease.ownerId) (fun out =>
      ∃ l, out = some l ∧ l.matching = true ∧ l.ownerId = lease.ownerId) := by
    refine Ensures.ite (fun _ => Ensures.throw) (fun _ => Ensures.pure ?_)
    cases hactive : ((leases.filter (fun l => l.matching && l.ownerId = lease.ownerId)).filter
        (fun l => l.state ∈ activeLeaseStates)).head? with
    | some l =>
      have hl := List.mem_of_mem_head? (Option.mem_def.mpr hactive)
      exact ⟨l, rfl, hfound l (List.mem_filter.mp hl).1⟩
    | none =>
      have hself : lease ∈ leases.filter (fun l => l.matching && l.ownerId = lease.ownerId) :=
        List.mem_filter.mpr ⟨hmem, by simp [hmatching]⟩
      cases hhead : (leases.filter (fun l => l.matching && l.ownerId = lease.ownerId)).head? with
      | none =>
        rw [List.head?_eq_none_iff.mp hhead] at hself
        cases hself
      | some l => exact ⟨l, rfl, hfound l (List.mem_of_mem_head? (Option.mem_def.mpr hhead))⟩
  refine Ensures.bind hcurrent ?_
  rintro _ ⟨l, rfl, hl, hid⟩
  unfold Lease.matching at hl
  simp only [Bool.and_eq_true] at hl
  cases hcontext : l.ownerContext with
  | none =>
    rw [hcontext] at hl
    cases hl.2
  | some context =>
    rw [hcontext] at hl
    simp only [Bool.and_eq_true, decide_eq_true_eq] at hl
    have hsame : ¬ (context.issuer ≠ some "project-control" ∨
        context.ownerId ≠ some lease.ownerId) := by
      rw [hl.2.1, hl.2.2, hid]
      simp
    simp only [hcontext, if_neg hsame]
    exact Ensures.map (fun owner _ => ⟨owner, rfl⟩)

/-- The rows of the facade are there exactly if the scheduler lists a lease of the attempt,
whatever its state. -/
theorem ensures_leaseOwners {projectRoot attemptId : String} :
    Ensures (leaseOwnersForAttempt leases view projectRoot attemptId) (fun rows => rows ≠ [] ↔
      ∃ lease ∈ leases, lease.matching = true ∧ lease.attached projectRoot attemptId = true) := by
  have hround : ∀ values, ∀ lease ∈ leases.filter Lease.matching,
      Ensures (addLeaseOwner leases view projectRoot attemptId values lease) (fun out =>
        out ≠ [] ↔ values ≠ [] ∨ lease.attached projectRoot attemptId = true) := by
    intro values lease hlease
    obtain ⟨hmem, hmatching⟩ := List.mem_filter.mp hlease
    refine Ensures.ite (fun hattached => ?_) (fun hattached => Ensures.pure (by simp [hattached]))
    refine Ensures.bind (ensures_leaseOwner hmem hmatching) ?_
    rintro _ ⟨owner, rfl⟩
    exact Ensures.pure (by simp [hattached])
  have hloop : ∀ (items : List Lease) (values : List (String × OwnerRow)),
      (∀ lease ∈ items, lease ∈ leases.filter Lease.matching) →
      Ensures (items.foldlM (addLeaseOwner leases view projectRoot attemptId) values) (fun out =>
        out ≠ [] ↔ values ≠ [] ∨ ∃ lease ∈ items, lease.attached projectRoot attemptId = true) := by
    intro items
    induction items with
    | nil => exact fun values _ => Ensures.pure (by simp)
    | cons lease rest ih =>
      intro values hitems
      refine Ensures.bind (hround values lease (hitems lease List.mem_cons_self)) (fun out hout => ?_)
      refine (ih out (fun l hl => hitems l (List.mem_cons_of_mem _ hl))).mono (fun final hfinal => ?_)
      rw [hfinal, hout, or_assoc, List.exists_mem_cons_iff]
  refine Ensures.bind (hloop _ [] (fun _ h => h)) (fun values hvalues => Ensures.pure ?_)
  have hsorted : ((values.insertionSort (fun a b => a.1 ≤ b.1)).map Prod.snd ≠ [] ↔ values ≠ []) := by
    rw [ne_eq, List.map_eq_nil_iff, ← List.length_eq_zero_iff, List.length_insertionSort,
      List.length_eq_zero_iff]
  rw [hsorted, hvalues]
  simp [List.mem_filter, and_assoc]

end Leases

section Runs

variable {hashes : Hashes} {env : Env} {db db' : Registry} {call : Call} {a : Action}
  {projectRoot attemptId : String}

/-- The attempt has an owner row. -/
def Named (projectRoot attemptId : String) (db : Registry) : Prop :=
  ∃ id o, db.owner? id = some o ∧ o.attached projectRoot attemptId = true

/-- A background reservation of the attempt is granted. -/
def Granted (hashes : Hashes) (projectRoot attemptId : String) (db : Registry) (a : Action) : Prop :=
  ∃ jobId request pid db' reply, a.call = .reserveBackground projectRoot jobId attemptId request pid ∧
    reserveBackground hashes a.env db projectRoot jobId attemptId request pid = .ok (db', some reply)

theorem attached_of_write {s : Statement} {o o' : Owner} (h : OwnerWrite s o o') :
    o'.attached projectRoot attemptId = o.attached projectRoot attemptId := by
  cases h <;> rfl

/-- A statement neither takes the rows of the attempt away nor brings one, but by an insert. -/
theorem named_exec {s : Statement} (hs : s.issuedBy hashes env call db)
    (h : db.exec s = .ok db') : Named projectRoot attemptId db' ↔ Named projectRoot attemptId db ∨
      ∃ new, s = .insertOwner new ∧ db'.owner? new.id = some new ∧
        new.attached projectRoot attemptId = true := by
  constructor
  · rintro ⟨id, o', ho', hattached⟩
    cases ho : db.owner? id with
    | none =>
      rcases exec_fresh h ho with hnone | ⟨new, rfl, rfl, hnew⟩
      · rw [hnone] at ho'
        cases ho'
      · rw [hnew] at ho'
        cases ho'
        exact .inr ⟨o', rfl, hnew, hattached⟩
    | some o =>
      rcases exec_owner h ho with hsame | ⟨o₁, ho₁, hwrite, -⟩ | ⟨selected, rfl, -⟩
      · rw [hsame] at ho'
        cases ho'
        exact .inl ⟨id, o', ho, hattached⟩
      · rw [ho₁] at ho'
        cases ho'
        exact .inl ⟨id, o, ho, (attached_of_write hwrite).symm.trans hattached⟩
      · exact hs.elim
  · rintro (⟨id, o, ho, hattached⟩ | ⟨new, -, hnew, hattached⟩)
    · rcases exec_owner h ho with hsame | ⟨o₁, ho₁, hwrite, -⟩ | ⟨selected, rfl, -⟩
      · exact ⟨id, o, hsame, hattached⟩
      · exact ⟨id, o₁, ho₁, (attached_of_write hwrite).trans hattached⟩
      · exact hs.elim
    · exact ⟨new.id, new, hnew, hattached⟩

theorem keeps_named : Keeps hashes env call (Named projectRoot attemptId) :=
  fun _ _ hs h _ hdb' => (named_exec hs hdb').mpr (.inl h)

/-- A call that inserts no owner of the attempt brings no row of it. -/
theorem keeps_unnamed (hnew : ∀ new, call.newOwner hashes env = some new →
    new.attached projectRoot attemptId = false) :
    Keeps hashes env call (fun db => ¬ Named projectRoot attemptId db) := by
  intro db s hs h db' hdb' hnamed
  rcases (named_exec hs hdb').mp hnamed with hold | ⟨new, rfl, -, hattached⟩
  · exact h hold
  · rw [hnew new hs] at hattached
    cases hattached

/-- The signals of a reservation that is refused bring no row. -/
theorem unnamed_refused {priorityClass : PriorityClass} {request : Request}
    (h : ¬ Named projectRoot attemptId db) :
    Ensures (requestPreemptionLocked env db request priorityClass)
      (fun r => ¬ Named projectRoot attemptId r.1) := by
  have hkeeps : Keeps ⟨id, id⟩ env (.sweepStale 0) (fun db => ¬ Named projectRoot attemptId db) :=
    keeps_unnamed (fun _ hnew => by cases hnew)
  exact hkeeps.requestPreemption h

theorem background_not_service (projectRoot jobId attemptId : String) :
    startsWith (backgroundOwnerId hashes projectRoot jobId attemptId) "service:" = false := by
  simp only [backgroundOwnerId, startsWith, String.toList_append]
  rfl

/-- The attempt gets an owner row by a granted reservation and never loses it. -/
theorem named_step (hlabelled : Labelled db) (a : Action) :
    Named projectRoot attemptId (step hashes db a) ↔
      Named projectRoot attemptId db ∨ Granted hashes projectRoot attemptId db a := by
  constructor
  · intro hnamed
    by_contra hno
    obtain ⟨hold, hgrant⟩ := not_or.mp hno
    refine step_of_ensures (I := fun db => ¬ Named projectRoot attemptId db) hold ?_ hnamed
    obtain ⟨env, call⟩ := a
    by_cases hmine : ∃ jobId request pid,
        call = .reserveBackground projectRoot jobId attemptId request pid
    · obtain ⟨jobId, request, pid, rfl⟩ := hmine
      refine Ensures.map (fun out hout => ?_)
      obtain ⟨db', _ | reply⟩ := out
      · have hkeeps : Keeps hashes env (.sweepStale 0)
            (fun db => ¬ Named projectRoot attemptId db) :=
          keeps_unnamed (fun _ hnew => by cases hnew)
        have hsweep : Ensures (sweepLocked env db staleSeconds)
            (fun db => ¬ Named projectRoot attemptId db) := hkeeps.sweep hold
        have hrefused : Ensures (reserveBackground hashes env db projectRoot jobId attemptId request
            pid) (fun out => out.2 = none → ¬ Named projectRoot attemptId out.1) := by
          refine Ensures.bind hsweep (fun swept hswept => ?_)
          rintro ⟨db₁, granted⟩ hreserve hnone
          cases hnone
          obtain ⟨-, resources, hrequest⟩ := reserve_refused hreserve
          exact unnamed_refused hswept _ hrequest
        exact hrefused _ hout rfl
      · exact absurd ⟨jobId, request, pid, db', reply, rfl, hout⟩ hgrant
    · refine (keeps_unnamed (fun new hnew => ?_)).transact hold
      apply Bool.eq_false_iff.mpr
      intro hattached
      unfold Owner.attached at hattached
      simp only [Bool.and_eq_true, decide_eq_true_eq] at hattached
      cases call with
      | reserveBackground root jobId attempt request pid =>
        cases hnew
        obtain ⟨hroot, hattempt⟩ := hattached
        cases hroot
        cases hattempt
        exact hmine ⟨jobId, request, pid, rfl⟩
      | reserveService =>
        cases hnew
        cases hattached.2
      | beginForeground =>
        cases hnew
        cases hattached.2
      | upsertResources | replaceResources | sweepStale | reconcileCurrentServiceOwners
      | setPriority | requestPreemption | activateForeground | heartbeat | protectResidency
      | recordResidencyProcess | release => cases hnew
  · rintro (hold | ⟨jobId, request, pid, db', reply, hcall, hreserve⟩)
    · exact step_of_ensures hold (keeps_named.transact hold)
    · obtain ⟨env, call⟩ := a
      cases hcall
      have hstep : step hashes db ⟨env, .reserveBackground projectRoot jobId attemptId request pid⟩ =
          db' := by
        simp only [step, transact, hreserve]
        rfl
      rw [hstep]
      have hlabels : Keeps hashes env (.sweepStale 0) Labelled := keeps_labelled
      have hswept : Ensures (sweepLocked env db staleSeconds) Labelled := hlabels.sweep hlabelled
      have hgranted : Ensures (reserveBackground hashes env db projectRoot jobId attemptId request
          pid) (fun out => ∀ reply, out.2 = some reply → Named projectRoot attemptId out.1) := by
        refine Ensures.bind hswept (fun swept hlabels => ?_)
        rintro ⟨db₁, granted⟩ hgrant reply rfl
        obtain ⟨resources, db₂, -, hinsert, hloop, -⟩ := reserve_granted hgrant
        -- no guard is in the way of an id that is not a service's
        have hnew : Named projectRoot attemptId db₂ := by
          rcases owner?_insertOwner hinsert with ⟨hprotects, -⟩ | ⟨-, hlookup, -⟩
          · have hprotects' : swept.protects (backgroundOwnerId hashes projectRoot jobId attemptId) =
              true := hprotects
            rw [hlabels.not_protects (background_not_service _ _ _)] at hprotects'
            cases hprotects'
          · refine ⟨_, _, by rw [hlookup, if_pos rfl], ?_⟩
            simp [Owner.attached, reservedOwner]
        have hkeeps : Keeps hashes env (.reserveBackground projectRoot jobId attemptId request pid)
            (Named projectRoot attemptId) := keeps_named
        exact hkeeps.insertReservations rfl hnew _ hloop
      exact hgranted _ hreserve reply rfl

/-- A background reservation of the attempt was granted in the run. -/
def GrantedIn (hashes : Hashes) (projectRoot attemptId : String) (actions : List Action) : Prop :=
  ∃ before a after, actions = before ++ a :: after ∧
    Granted hashes projectRoot attemptId (before.foldl (step hashes) {}) a

theorem named_run (actions : List Action) :
    Named projectRoot attemptId (actions.foldl (step hashes) {}) ↔
      GrantedIn hashes projectRoot attemptId actions := by
  induction actions using List.reverseRecOn with
  | nil =>
    refine iff_of_false (fun ⟨_, _, h, _⟩ => (nomatch h)) ?_
    rintro ⟨before, a, after, heq, -⟩
    exact List.cons_ne_nil a after (List.append_eq_nil_iff.mp heq.symm).2
  | append_singleton actions a ih =>
    rw [List.foldl_append, List.foldl_cons, List.foldl_nil, named_step (labelled_run actions), ih]
    constructor
    · rintro (⟨before, b, after, rfl, hgrant⟩ | hgrant)
      · exact ⟨before, b, after ++ [a], by simp, hgrant⟩
      · exact ⟨actions, a, [], rfl, hgrant⟩
    · rintro ⟨before, b, after, heq, hgrant⟩
      rcases List.eq_nil_or_concat after with rfl | ⟨rest, c, rfl⟩
      · obtain ⟨rfl, hsame⟩ := List.append_inj' heq rfl
        cases hsame
        exact .inr hgrant
      · left
        refine ⟨before, b, rest, ?_, hgrant⟩
        have hsplit : actions ++ [a] = (before ++ b :: rest) ++ [c] := by simpa using heq
        exact (List.append_inj' hsplit rfl).1

/-- An attached owner is live. -/
def LiveOwner (projectRoot attemptId : String) (db : Registry) : Prop :=
  ∃ o ∈ db.owners, o.attached projectRoot attemptId = true ∧ o.state.live = true

/-- How ownership and handoff should compose: an attempt whose owners have all ended and hold
nothing is not blocked, and one that is blocked has a live owner. -/
structure Composes {α : Type} (owners : OwnersReply α) (ended live : Prop) : Prop where
  free : ended → ¬ OwnershipBlocks owners
  held : OwnershipBlocks owners → live

theorem composes_iff {α : Type} {rows : List α} {ended live : Prop} (h : ended → ¬ live) :
    Composes (.rows rows) ended live ↔ rows = [] ∨ live := by
  constructor
  · intro hcomposes
    by_cases hrows : rows = []
    · exact .inl hrows
    · exact .inr (hcomposes.held (ownershipBlocks_rows.mpr hrows))
  · rintro (rfl | hlive)
    · exact ⟨fun _ hblocks => ownershipBlocks_rows.mp hblocks rfl,
        fun hblocks => absurd rfl (ownershipBlocks_rows.mp hblocks)⟩
    · exact ⟨fun hended => absurd hlive (h hended), fun _ => hlive⟩

theorem mem_iff_named : (∃ o ∈ db.owners, o.attached projectRoot attemptId = true) ↔
    Named projectRoot attemptId db := by
  constructor
  · rintro ⟨o, ho, hattached⟩
    exact ⟨o.id, o, owner?_eq_some.mpr ⟨ho, rfl⟩, hattached⟩
  · rintro ⟨id, o, ho, hattached⟩
    exact ⟨o, (owner?_eq_some.mp ho).1, hattached⟩

/-- In every run of the registry, the handoff and the attestation of an attempt compose with
its ownership exactly if no background reservation of it was granted so far or one of its
owners is live. With the Device Scheduler they do exactly if it lists no lease of the attempt
or one that is not released. -/
theorem ended_owners_block_handoff (hashes : Hashes) (actions : List Action)
    (leases : List Lease) (view : Lease → Except String OwnerRow) (rows : List OwnerRow)
    (projectRoot attemptId : String)
    (hrows : leaseOwnersForAttempt leases view projectRoot attemptId = .ok rows) :
    let db := actions.foldl (step hashes) {}
    let mine := leases.filter (fun lease => lease.matching && lease.attached projectRoot attemptId)
    (Composes (.rows (ownersForAttempt db projectRoot attemptId))
        (∀ o ∈ db.owners, o.attached projectRoot attemptId = true →
          o.state.live = false ∧ ∀ r, ¬ db.active r o.id)
        (LiveOwner projectRoot attemptId db) ↔
      ¬ GrantedIn hashes projectRoot attemptId actions ∨ LiveOwner projectRoot attemptId db) ∧
    (Composes (.rows rows) (∀ lease ∈ mine, lease.state = "released")
        (∃ lease ∈ mine, lease.state ≠ "released") ↔
      mine = [] ∨ ∃ lease ∈ mine, lease.state ≠ "released") := by
  intro db mine
  constructor
  · rw [composes_iff ?_, ← named_run, ← mem_iff_named, ← ownersForAttempt_ne_nil, not_not]
    rintro hended ⟨o, ho, hattached, hlive⟩
    rw [(hended o ho hattached).1] at hlive
    cases hlive
  · have hempty : rows = [] ↔ mine = [] := by
      have hlisted := ensures_leaseOwners rows hrows
      rw [← not_iff_not]
      refine hlisted.trans ⟨fun ⟨lease, hl, hmine⟩ => ?_, fun hne => ?_⟩
      · exact List.ne_nil_of_mem (List.mem_filter.mpr ⟨hl, by simp [hmine]⟩)
      · obtain ⟨lease, hlease⟩ := List.exists_mem_of_ne_nil _ hne
        obtain ⟨hl, hmine⟩ := List.mem_filter.mp hlease
        exact ⟨lease, hl, by simpa using hmine⟩
    rw [composes_iff ?_, hempty]
    rintro hended ⟨lease, hl, hne⟩
    exact hne (hended lease hl)

/-- A released lease of the attempt that the scheduler still lists. -/
def releasedLease : Lease where
  ownerId := "pc:background:1"
  state := "released"
  expiresAt := "t"
  ownerContext := some ⟨some "project-control", some "pc:background:1", some "/p", some "attempt"⟩

/-- An owner row without resources, as the facade makes it of a released lease. -/
def plainRow (lease : Lease) : OwnerRow :=
  ⟨{ (foregroundOwner (hostAt 1) "/p" {} 7 .foregroundGpu) with id := lease.ownerId }, []⟩

/-- While its owner is active, an attempt is blocked by right. -/
theorem active_owner_blocks_handoff :
    let db := reservedRun.foldl (step plainHashes) {}
    Composes (.rows (ownersForAttempt db "/p" "attempt"))
      (∀ o ∈ db.owners, o.attached "/p" "attempt" = true →
        o.state.live = false ∧ ∀ r, ¬ db.active r o.id)
      (LiveOwner "/p" "attempt" db) := by
  refine (ended_owners_block_handoff plainHashes reservedRun [] (fun l => .ok (plainRow l)) []
    "/p" "attempt" rfl).1.mpr (.inr ?_)
  have hrow : ((reservedRun.foldl (step plainHashes) {}).owner? ghost).map
      (fun o => (o.attached "/p" "attempt", o.state.live)) = some (true, true) := by
    decide +kernel
  obtain ⟨o, ho, hprops⟩ := Option.map_eq_some_iff.mp hrow
  exact ⟨o, (owner?_eq_some.mp ho).1, congrArg Prod.fst hprops, congrArg Prod.snd hprops⟩

/-- Once its owner has been released, the attempt stays blocked, by either facade. -/
theorem released_owner_blocks_handoff :
    let db := (reservedRun ++ [(⟨hostAt 2, .release ghost none none none⟩ : Action)]).foldl
      (step plainHashes) {}
    db.owners.rows.map (·.state) = [.released] ∧ db.reserved ghost = [] ∧
    requireQuiescentHost true (.rows (ownersForAttempt db "/p" "attempt")) true =
      .error "active or unknown host resource ownership prevents handoff" ∧
    attestOwners (.rows (ownersForAttempt db "/p" "attempt")) =
      .error "registered physical process owners remain or are unavailable" ∧
    ((leaseOwnersForAttempt [releasedLease] (fun l => .ok (plainRow l)) "/p" "attempt").toOption.map
      List.length) = some 1 := by
  decide +kernel

end Runs

end ProjectControl.HostResources
