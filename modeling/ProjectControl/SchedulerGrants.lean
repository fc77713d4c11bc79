import Mathlib
import ProjectControl.SchedulerRequirements

/-! A background lease of the Device Scheduler: what is asked for, how the reply is compared with
it, and what becomes of a grant that does not match. -/

set_option autoImplicit false

namespace ProjectControl.Scheduler

open Values

section Asking

/-- Who asks, with the root resolved; `pid` is that of the caller where none is given. -/
structure Owner where
  projectRoot : String
  jobId : String
  attemptId : String
  pid : ℤ
  processStart : Option String

/-- `_background_owner_id`; `digest` is `_digest`. -/
def backgroundOwnerId (digest : Value → String) (o : Owner) : String :=
  let named : Value := .obj [("project_root", .str o.projectRoot), ("job_id", .str o.jobId),
    ("attempt_id", .str o.attemptId)]
  "pc:background:" ++ ((digest named).take 32).toString

/-- `_owner_context` of a background owner. -/
def ownerContext (ownerId : String) (o : Owner) : Except Error (List (String × String)) :=
  if o.pid ≤ 0 then throw (.scheduler "owner process pid must be positive")
  else
    let start := (o.processStart.filter (· ≠ "")).map (fun s => ("process_start", s))
    pure ([("issuer", "project-control"), ("owner_id", ownerId), ("owner_kind", "background"),
      ("project_root", o.projectRoot), ("pid", toString o.pid), ("job_id", o.jobId),
      ("attempt_id", o.attemptId)] ++ start.toList)

/-- What is asked of the scheduler. -/
structure Asked where
  ownerId : String
  context : List (String × String)
  requirements : List Requirement
  payload : Value

/-- The facade: what Python and the digest do, and how long a lease lives. -/
structure Facade where
  py : Python
  digest : Value → String
  ttl : Double

/-- The answers of the client to the calls of one reservation, in their order. -/
structure Client where
  resources : Answer
  request : Value → Answer
  release : String → ℤ → Answer
  resourcesAfter : Answer

variable (f : Facade)

/-- `reserve_background` up to the call of `leases.request`. -/
def ask (o : Owner) (request : Value) (resources : Answer) : Except Error Asked := do
  if o.jobId = "" ∨ o.attemptId = "" then
    throw (.scheduler "background owner requires non-empty job and attempt IDs")
  let ownerId := backgroundOwnerId f.digest o
  let context ← ownerContext ownerId o
  let requirements ← requirementsOf f.py request resources
  let key := f.digest (.obj [("owner", .str ownerId), ("request", request)])
  pure ⟨ownerId, context, requirements, .obj [("request_id", .str ownerId),
    ("owner_id", .str ownerId), ("owner_context", .obj (Fields.ofTexts context)),
    ("requirements", .arr (requirements.map Requirement.value)),
    ("lease_ttl_seconds", .float f.ttl),
    ("idempotency_key", .str ("pc-bg-" ++ (key.take 40).toString))]⟩

/-- `result.get("lease", result)`, if it is a mapping. -/
def leaseOf (result : Fields) : Option Fields :=
  match result.lookup "lease" with
  | none => some result
  | some (.obj lease) => some lease
  | some _ => none

/-- `_request` on the answer of `leases.request`. -/
def requestedLease (py : Python) (ownerId : String) (reply : Answer) :
    Except Error (Option Fields) :=
  match call py "leases.request" reply with
  | .error (.noGrant _) => pure none
  | .error e => throw e
  | .ok result =>
    match leaseOf result with
    | none => throw (.scheduler "leases.request returned an invalid owner")
    | some lease =>
      if (lease.get "owner_id").isStr ownerId = false then
        throw (.scheduler "leases.request returned an invalid owner")
      else if (lease.get "state").isStr "active" then pure (some lease)
      else pure none

end Asking

section Comparing

variable (py : Python) (rs : List Requirement)

/-- `expected.get`: of two requirements for one resource the last one counts. -/
def expectedMemory (id : String) : Option ℚ :=
  (rs.reverse.find? (fun r => r.resourceId = id)).map Requirement.memoryBytes

def memoryAgrees (v : Value) : Option ℚ → Bool
  | none => v.isNull
  | some q => v.number? = some (.finite q)

def wrongAllocation (allocation : Fields) : Bool :=
  !(allocation.get "mode").isStr "exclusive" ||
    !memoryAgrees ((allocation.mapping "quantities").get "memory_bytes")
      (expectedMemory rs (py.str (allocation.get "resource_id")))

def allocationsOf (lease : Fields) : List Value :=
  match lease.lookup "allocations" with
  | some (.arr items) => items
  | _ => []

def wrongItem : Value → Bool
  | .obj allocation => wrongAllocation py rs allocation
  | _ => false

/-- What an allocation adds to `actual`; one that is no mapping adds `""`. -/
def allocatedId : Value → String
  | .obj allocation => textOf py allocation "resource_id"
  | _ => ""

def sameContext (context : List (String × String)) (lease : Fields) : Bool :=
  match lease.lookup "owner_context" with
  | some (.obj fields) => Value.same (.obj fields) (.obj (Fields.ofTexts context))
  | _ => false

def sameIds (xs ys : List String) : Bool := xs.all (· ∈ ys) && ys.all (· ∈ xs)

/-- The reason why `reserve_background` rejects a lease; `none` if it takes the lease. -/
def mismatch (context : List (String × String)) (lease : Fields) : Option String :=
  if (allocationsOf lease).any (wrongItem py rs) then
    some "Device Scheduler grant did not match the verified exclusive GPU request"
  else if sameIds ((allocationsOf lease).map (allocatedId py)) (rs.map Requirement.resourceId) &&
      sameContext context lease then none
  else some "Device Scheduler grant did not match the Project Control owner request"

/-- What an allocation adds to the ids of a reservation. -/
def shownIds (resources : List Fields) (foreground : Bool) : Value → Except Error (List String)
  | .obj allocation =>
    let rid := textOf py allocation "resource_id"
    match resources.reverse.find? (fun item => py.str (item.get "resource_id") = rid) with
    | none =>
      if "gpu:".toList.isPrefixOf rid.toList then
        match (rid.toList.drop 4).dropWhile (· ≠ ':') with
        | _ :: rest => pure ["accelerator:" ++ String.ofList rest]
        | [] => pure []
      else pure (if foreground then [rid] else [])
    | some resource =>
      if isGpu py resource then pure [legacyId py resource]
      else pure (if foreground && !(py.casefold (kindOf py resource) ∈ ["cpu", "memory"])
        then [rid] else [])
  | _ => throw (.scheduler "lease allocation is invalid")

/-- `_resources_for_lease` with the answer of `resources.list`. -/
def resourcesForLease (lease : Fields) (answer : Answer) : Except Error (List String) := do
  let resources ← resourcesOf py answer
  let foreground := ((lease.mapping "owner_context").get "owner_kind").isStr "foreground"
  match lease.lookup "allocations" with
  | none => pure []
  | some (.arr items) => do
    let found ← items.mapM (shownIds py resources foreground)
    pure (found.flatten.dedup.insertionSort (· ≤ ·))
  | some _ => throw (.scheduler "lease allocations are invalid")

structure Reservation where
  ownerId : String
  resourceIds : List String

/-- The releases that were attempted, and what comes back. -/
structure Outcome where
  releases : List (String × ℤ)
  result : Except Error (Option Reservation)

/-- The lease id and the fencing token, if `_reject_grant` can use them. -/
def releaseKey (lease : Fields) : Option (String × ℤ) :=
  match lease.get "lease_id", lease.get "fencing_token" with
  | .str id, .int token => if id = "" then none else some (id, token)
  | _, _ => none

/-- What `_reject_grant` raises after the answer of `leases.release`. -/
def afterRelease (reason : String) (answer : Answer) : Error :=
  match call py "leases.release" answer with
  | .error e => e
  | .ok result =>
    match leaseOf result with
    | none => .pending "mismatched scheduler grant remains unknown"
    | some released =>
      if (released.get "state").isStr "released" then .scheduler reason
      else .pending ("mismatched scheduler grant remains " ++
        py.str ((released.lookup "state").getD (.str "unknown")))

/-- `_reject_grant`. -/
def rejectGrant (client : Client) (lease : Fields) (reason : String) : Outcome :=
  match releaseKey lease with
  | none => ⟨[], .error (.pending "mismatched scheduler grant cannot be safely released")⟩
  | some (id, token) => ⟨[(id, token)], .error (afterRelease py reason (client.release id token))⟩

/-- `reserve_background` from the lease on. -/
def settle (client : Client) (asked : Asked) (lease : Fields) : Outcome :=
  match mismatch py asked.requirements asked.context lease with
  | some reason => rejectGrant py client lease reason
  | none => ⟨[], (resourcesForLease py lease client.resourcesAfter).map fun ids =>
      some ⟨py.str (lease.get "owner_id"), ids⟩⟩

/-- `reserve_background`. -/
def reserveBackground (f : Facade) (client : Client) (o : Owner) (request : Value) : Outcome :=
  match ask f o request client.resources with
  | .error e => ⟨[], .error e⟩
  | .ok asked =>
    match requestedLease f.py asked.ownerId (client.request asked.payload) with
    | .error e => ⟨[], .error e⟩
    | .ok none => ⟨[], .ok none⟩
    | .ok (some lease) => settle f.py client asked lease

end Comparing

section Matching

/-- The reply is an active lease of the owner. -/
def Leased (ownerId : String) (reply : Answer) (lease : Fields) : Prop :=
  ∃ result, reply.Replies result ∧ leaseOf result = some lease ∧
    lease.lookup "owner_id" = some (.str ownerId) ∧ lease.lookup "state" = some (.str "active")

variable (rs : List Requirement)

/-- An allocation of one required resource, exclusive and with the memory that was asked for. -/
def Gives (id : String) (item : Value) : Prop :=
  ∃ allocation quantities amount, item = .obj allocation ∧
    allocation.lookup "resource_id" = some (.str id) ∧
    allocation.lookup "mode" = some (.str "exclusive") ∧
    allocation.lookup "quantities" = some (.obj quantities) ∧
    quantities.lookup "memory_bytes" = some amount ∧
    (∃ r ∈ rs, r.resourceId = id) ∧
    ∀ r ∈ rs, r.resourceId = id → amount.amount? = some r.memoryBytes

/-- The lease is for the context, and its allocations give what is required and nothing else. -/
structure Matches (context : List (String × String)) (lease : Fields) : Prop where
  context : ∃ fields, lease.lookup "owner_context" = some (.obj fields) ∧
    ∀ key, fields.lookup key = (context.lookup key).map Value.str
  allocations : ∃ items, lease.lookup "allocations" = some (.arr items) ∧
    (∀ item ∈ items, ∃ id, Gives rs id item) ∧ ∀ r ∈ rs, ∃ item ∈ items, Gives rs r.resourceId item

/-- The allocations name their resources by texts and their memory by numbers, and no resource is
required with two budgets. -/
structure Readable (lease : Fields) : Prop where
  items : ∀ item ∈ allocationsOf lease, ∃ (allocation : Fields) (id : String),
    item = .obj allocation ∧ allocation.lookup "resource_id" = some (.str id) ∧
    ∀ b, (allocation.mapping "quantities").get "memory_bytes" ≠ .bool b
  budgets : ∀ r ∈ rs, ∀ r' ∈ rs, r.resourceId = r'.resourceId → r.memoryBytes = r'.memoryBytes

variable {rs} {py : Python} {context : List (String × String)} {lease : Fields}

theorem expectedMemory_eq_none {id : String} (h : expectedMemory rs id = none) :
    ∀ r ∈ rs, r.resourceId ≠ id := by
  intro r hr hid
  rw [expectedMemory, Option.map_eq_none_iff, List.find?_eq_none] at h
  exact h r (List.mem_reverse.mpr hr) (by simpa using hid)

theorem expectedMemory_eq_some {id : String} {q : ℚ} (h : expectedMemory rs id = some q) :
    ∃ r ∈ rs, r.resourceId = id ∧ r.memoryBytes = q := by
  obtain ⟨r, hr, hq⟩ := Option.map_eq_some_iff.mp h
  refine ⟨r, List.mem_reverse.mp (List.mem_of_find?_eq_some hr), ?_, hq⟩
  simpa using List.find?_some hr

theorem sameIds_iff {xs ys : List String} :
    sameIds xs ys = true ↔ (∀ x ∈ xs, x ∈ ys) ∧ ∀ y ∈ ys, y ∈ xs := by
  simp [sameIds]

theorem sameContext_iff : sameContext context lease = true ↔
    ∃ fields, lease.lookup "owner_context" = some (.obj fields) ∧
      ∀ key, fields.lookup key = (context.lookup key).map Value.str := by
  unfold sameContext
  split
  · rename_i fields hfields
    rw [Fields.same_ofTexts, hfields]
    constructor
    · exact fun h => ⟨fields, rfl, h⟩
    · rintro ⟨other, hother, h⟩
      cases hother
      exact h
  · rename_i hnone
    constructor
    · intro h
      cases h
    · rintro ⟨fields, hfields, _⟩
      exact absurd hfields (hnone fields)

theorem mismatch_eq_none : mismatch py rs context lease = none ↔
    (∀ item ∈ allocationsOf lease, wrongItem py rs item = false) ∧
      sameIds ((allocationsOf lease).map (allocatedId py)) (rs.map Requirement.resourceId) = true ∧
      sameContext context lease = true := by
  unfold mismatch
  split
  · rename_i hany
    obtain ⟨item, hitem, hwrong⟩ := List.any_eq_true.mp hany
    constructor
    · intro h
      cases h
    · rintro ⟨hall, _⟩
      rw [hall item hitem] at hwrong
      cases hwrong
  · rename_i hany
    have hall : ∀ item ∈ allocationsOf lease, wrongItem py rs item = false := by
      intro item hitem
      by_contra hwrong
      exact hany (List.any_eq_true.mpr ⟨item, hitem, by simpa using hwrong⟩)
    split
    · rename_i hsame
      exact iff_of_true rfl ⟨hall, by simpa using hsame⟩
    · rename_i hsame
      refine iff_of_false (by simp) (fun h => hsame ?_)
      rw [h.2.1, h.2.2]
      rfl

theorem textOf_str {allocation : Fields} {key s : String}
    (h : allocation.lookup key = some (.str s)) : textOf py allocation key = s := by
  rw [textOf, h, Option.map_some, Option.getD_some, py.str_text]

/-- What a right allocation with a text for its id and no boolean for its memory gives. -/
theorem gives_of_right {allocation : Fields} {id : String}
    (hid : allocation.lookup "resource_id" = some (.str id))
    (hbool : ∀ b, (allocation.mapping "quantities").get "memory_bytes" ≠ .bool b)
    (hright : wrongAllocation py rs allocation = false) (hmem : ∃ r ∈ rs, r.resourceId = id)
    (hbudgets : ∀ r ∈ rs, ∀ r' ∈ rs, r.resourceId = r'.resourceId →
      r.memoryBytes = r'.memoryBytes) :
    Gives rs id (.obj allocation) := by
  rw [wrongAllocation, Bool.or_eq_false_iff, Bool.not_eq_false', Bool.not_eq_false',
    Value.isStr_iff, Fields.get_eq_str, Fields.get_eq_str.mpr hid, py.str_text] at hright
  obtain ⟨hmode, hmemory⟩ := hright
  cases hexpected : expectedMemory rs id with
  | none =>
    obtain ⟨r, hr, hrid⟩ := hmem
    exact absurd hrid (expectedMemory_eq_none hexpected r hr)
  | some q =>
    obtain ⟨s, hs, hsid, hsq⟩ := expectedMemory_eq_some hexpected
    have hnumber : ((allocation.mapping "quantities").get "memory_bytes").number? =
        some (.finite q) := by
      rw [hexpected] at hmemory
      simpa [memoryAgrees] using hmemory
    have hamount := Value.amount?_of_number? hnumber hbool
    obtain ⟨quantities, hquantities, hamount⟩ : ∃ quantities : Fields,
        allocation.lookup "quantities" = some (.obj quantities) ∧
        (quantities.get "memory_bytes").amount? = some q := by
      unfold Fields.mapping at hamount
      split at hamount
      · rename_i quantities hq
        exact ⟨quantities, hq, hamount⟩
      · cases hamount
    obtain ⟨amount, hlookup, hamount⟩ : ∃ amount,
        quantities.lookup "memory_bytes" = some amount ∧ amount.amount? = some q := by
      unfold Fields.get at hamount
      cases hlookup : quantities.lookup "memory_bytes" with
      | none =>
        rw [hlookup] at hamount
        cases hamount
      | some amount =>
        rw [hlookup] at hamount
        exact ⟨amount, rfl, hamount⟩
    refine ⟨allocation, quantities, amount, rfl, hid, hmode, hquantities, hlookup, hmem, ?_⟩
    intro r hr hrid
    rw [hamount, ← hsq, hbudgets s hs r hr (hsid.trans hrid.symm)]

theorem right_of_gives {id : String} {item : Value} (h : Gives rs id item) :
    wrongItem py rs item = false ∧ allocatedId py item = id := by
  obtain ⟨allocation, quantities, amount, rfl, hid, hmode, hquantities, hlookup, ⟨r, hr, hrid⟩,
    hamount⟩ := h
  refine ⟨?_, textOf_str hid⟩
  rw [wrongItem, wrongAllocation, Bool.or_eq_false_iff, Bool.not_eq_false', Bool.not_eq_false',
    Value.isStr_iff, Fields.get_eq_str, Fields.get_eq_str.mpr hid, py.str_text]
  refine ⟨hmode, ?_⟩
  have hget : (Fields.mapping allocation "quantities").get "memory_bytes" = amount := by
    rw [Fields.mapping, hquantities, Fields.get, hlookup]
    rfl
  cases hexpected : expectedMemory rs id with
  | none => exact absurd hrid (expectedMemory_eq_none hexpected r hr)
  | some q =>
    obtain ⟨s, hs, hsid, hsq⟩ := expectedMemory_eq_some hexpected
    have hnumber := Value.number?_of_amount? (hamount s hs hsid)
    rw [hget, memoryAgrees, hnumber, hsq]
    simp

/-- The comparisons let a lease pass that matches. -/
theorem mismatch_of_matches (h : Matches rs context lease) :
    mismatch py rs context lease = none := by
  obtain ⟨items, hitems, hgiven, hcovered⟩ := h.allocations
  have hallocations : allocationsOf lease = items := by rw [allocationsOf, hitems]
  rw [mismatch_eq_none, hallocations, sameIds_iff]
  refine ⟨?_, ⟨?_, ?_⟩, sameContext_iff.mpr h.context⟩
  · intro item hitem
    obtain ⟨id, hid⟩ := hgiven item hitem
    exact (right_of_gives hid).1
  · intro id hid
    obtain ⟨item, hitem, rfl⟩ := List.mem_map.mp hid
    obtain ⟨id, hid⟩ := hgiven item hitem
    rw [(right_of_gives hid).2]
    obtain ⟨_, _, _, _, _, _, _, _, ⟨r, hr, hrid⟩, _⟩ := hid
    exact List.mem_map.mpr ⟨r, hr, hrid⟩
  · intro id hid
    obtain ⟨r, hr, rfl⟩ := List.mem_map.mp hid
    obtain ⟨item, hitem, hid⟩ := hcovered r hr
    exact List.mem_map.mpr ⟨item, hitem, (right_of_gives hid).2⟩

/-- A lease that matches is readable. -/
theorem readable_of_matches (h : Matches rs context lease) : Readable rs lease := by
  obtain ⟨items, hitems, hgiven, hcovered⟩ := h.allocations
  have hallocations : allocationsOf lease = items := by rw [allocationsOf, hitems]
  constructor
  · intro item hitem
    rw [hallocations] at hitem
    obtain ⟨id, allocation, quantities, amount, rfl, hid, _, hquantities, hlookup, ⟨r, hr, hrid⟩,
      hamount⟩ := hgiven item hitem
    refine ⟨allocation, id, rfl, hid, fun b hb => ?_⟩
    rw [Fields.mapping, hquantities, Fields.get, hlookup] at hb
    have hr := hamount r hr hrid
    rw [show amount = .bool b from hb] at hr
    cases hr
  · intro r hr r' hr' hid
    obtain ⟨item, _, _, _, _, _, _, _, _, _, _, hamount⟩ := hcovered r hr
    exact Option.some.inj ((hamount r hr rfl).symm.trans (hamount r' hr' hid.symm))

/-- A readable lease that the comparisons let pass matches. -/
theorem matches_of_readable (hrs : rs ≠ []) (h : mismatch py rs context lease = none)
    (hreadable : Readable rs lease) : Matches rs context lease := by
  obtain ⟨hright, hids, hcontext⟩ := mismatch_eq_none.mp h
  obtain ⟨hactual, hexpected⟩ := sameIds_iff.mp hids
  have hgives : ∀ item ∈ allocationsOf lease, Gives rs (allocatedId py item) item := by
    intro item hitem
    obtain ⟨allocation, id, rfl, hid, hbool⟩ := hreadable.items item hitem
    have hmem := hactual _ (List.mem_map_of_mem hitem)
    rw [allocatedId, textOf_str hid] at hmem ⊢
    exact gives_of_right hid hbool (hright _ hitem) (List.mem_map.mp hmem) hreadable.budgets
  refine ⟨sameContext_iff.mp hcontext, ?_⟩
  obtain ⟨items, hitems⟩ : ∃ items, lease.lookup "allocations" = some (.arr items) := by
    obtain ⟨r, hr⟩ := List.exists_mem_of_ne_nil rs hrs
    obtain ⟨item, hitem, _⟩ := List.mem_map.mp (hexpected _ (List.mem_map_of_mem hr))
    unfold allocationsOf at hitem
    split at hitem
    · rename_i items hitems
      exact ⟨items, hitems⟩
    · cases hitem
  have hallocations : allocationsOf lease = items := by rw [allocationsOf, hitems]
  rw [hallocations] at hgives hexpected
  refine ⟨items, hitems, fun item hitem => ⟨_, hgives item hitem⟩, fun r hr => ?_⟩
  obtain ⟨item, hitem, hid⟩ := List.mem_map.mp (hexpected _ (List.mem_map_of_mem hr))
  refine ⟨item, hitem, ?_⟩
  rw [← hid]
  exact hgives item hitem

end Matching

section Soundness

variable (f : Facade) (client : Client) (o : Owner) (request : Value)

/-- The scheduler answers that a lease is released. -/
def ReleaseConfirmed (answer : Answer) : Prop :=
  ∃ result lease, answer.Replies result ∧ leaseOf result = some lease ∧
    lease.lookup "state" = some (.str "released")

/-- The lease id and the fencing token of a lease. -/
def Identified (lease : Fields) (id : String) (token : ℤ) : Prop :=
  lease.lookup "lease_id" = some (.str id) ∧ lease.lookup "fencing_token" = some (.int token)

/-- A reservation is for a lease that matches. One that does not is released, or its reclamation
is pending; a plain error says that the scheduler has confirmed the release. -/
structure Sound (outcome : Outcome) : Prop where
  reservation : ∀ r, outcome.result = .ok (some r) →
    ∃ asked lease, ask f o request client.resources = .ok asked ∧
      Leased asked.ownerId (client.request asked.payload) lease ∧
      Matches asked.requirements asked.context lease
  rejected : ∀ asked lease, ask f o request client.resources = .ok asked →
    Leased asked.ownerId (client.request asked.payload) lease →
    ¬ Matches asked.requirements asked.context lease →
    ∃ e, outcome.result = .error e ∧
      ((∃ id token, Identified lease id token ∧ (id, token) ∈ outcome.releases) ∨
        ∃ code, e = .pending code)
  confirmed : ∀ asked lease, ask f o request client.resources = .ok asked →
    Leased asked.ownerId (client.request asked.payload) lease →
    ¬ Matches asked.requirements asked.context lease →
    ∀ code, outcome.result = .error (.scheduler code) →
      ∃ id token, Identified lease id token ∧ ReleaseConfirmed (client.release id token)

variable {f client o request} {py : Python} {asked : Asked} {lease : Fields}

theorem requestedLease_eq_some {ownerId : String} {reply : Answer} :
    requestedLease py ownerId reply = .ok (some lease) ↔ Leased ownerId reply lease := by
  unfold requestedLease Leased
  constructor
  · intro h
    split at h
    · cases h
    · cases h
    · rename_i result hcall
      split at h
      · cases h
      · rename_i found hfound
        split at h
        · cases h
        · rename_i howner
          split at h
          · rename_i hactive
            cases h
            rw [Bool.not_eq_false, Value.isStr_iff, Fields.get_eq_str] at howner
            rw [Value.isStr_iff, Fields.get_eq_str] at hactive
            exact ⟨result, call_eq_ok.mp hcall, hfound, howner, hactive⟩
          · cases h
  · rintro ⟨result, hreply, hlease, howner, hactive⟩
    have howner' := Value.isStr_iff.mpr (Fields.get_eq_str.mpr howner)
    have hactive' := Value.isStr_iff.mpr (Fields.get_eq_str.mpr hactive)
    rw [call_eq_ok.mpr hreply]
    dsimp only
    rw [hlease]
    dsimp only
    rw [howner', hactive']
    rfl

theorem reserveBackground_leased (hask : ask f o request client.resources = .ok asked)
    (hlease : Leased asked.ownerId (client.request asked.payload) lease) :
    reserveBackground f client o request = settle f.py client asked lease := by
  have hrequested : requestedLease f.py asked.ownerId (client.request asked.payload) =
      .ok (some lease) := requestedLease_eq_some.mpr hlease
  unfold reserveBackground
  rw [hask]
  dsimp only
  rw [hrequested]

/-- A reservation comes from a lease. -/
theorem leased_of_reservation {r : Reservation}
    (h : (reserveBackground f client o request).result = .ok (some r)) :
    ∃ asked lease, ask f o request client.resources = .ok asked ∧
      Leased asked.ownerId (client.request asked.payload) lease := by
  unfold reserveBackground at h
  split at h
  · cases h
  · rename_i asked hask
    split at h
    · cases h
    · cases h
    · rename_i lease hlease
      exact ⟨asked, lease, hask, requestedLease_eq_some.mp hlease⟩

theorem ask_requirements (h : ask f o request client.resources = .ok asked) :
    asked.requirements ≠ [] := by
  have hask : Ensures (ask f o request client.resources)
      (fun asked => asked.requirements ≠ []) := by
    refine Ensures.ite (fun _ => Ensures.throw) (fun _ => ?_)
    refine Ensures.bind (P := fun _ => True) (fun _ _ => trivial) (fun context _ => ?_)
    exact Ensures.bind (requirementsOf_ne_nil _ _ _) (fun rs hrs => Ensures.pure hrs)
  exact hask asked h

theorem releaseKey_eq_some {id : String} {token : ℤ} (h : releaseKey lease = some (id, token)) :
    Identified lease id token := by
  unfold releaseKey at h
  split at h
  · rename_i id' token' hid htoken
    split at h
    · cases h
    · cases h
      refine ⟨Fields.get_eq_str.mp hid, ?_⟩
      unfold Fields.get at htoken
      cases hlookup : lease.lookup "fencing_token" with
      | none =>
        rw [hlookup] at htoken
        cases htoken
      | some v =>
        rw [hlookup] at htoken
        exact congrArg some htoken
  · cases h

/-- Listing the resources of a lease raises a conflict or a plain error. -/
theorem resourcesForLease_error {answer : Answer} :
    Raises (resourcesForLease py lease answer) (fun e => (∃ code, e = .noGrant code) ∨
      ∃ code, e = .scheduler code) := by
  refine Raises.bind (resourcesOf_error py) (fun resources _ => ?_)
  dsimp only
  split
  · exact Raises.pure
  · refine Raises.bind (Raises.mapM (fun item _ => ?_)) (fun _ _ => Raises.pure)
    unfold shownIds
    split
    · dsimp only
      split
      · split
        · split <;> exact Raises.pure
        · exact Raises.pure
      · split <;> exact Raises.pure
    · exact Raises.throw (.inr ⟨_, rfl⟩)
  · exact Raises.throw (.inr ⟨_, rfl⟩)

/-- A plain error after a release that did not fail plainly says that the release is confirmed. -/
theorem afterRelease_confirmed {reason code : String} {answer : Answer}
    (hplain : ∀ code, call py "leases.release" answer ≠ .error (.scheduler code))
    (h : afterRelease py reason answer = .scheduler code) : ReleaseConfirmed answer := by
  unfold afterRelease at h
  split at h
  · rename_i e hcall
    subst h
    exact absurd hcall (hplain code)
  · rename_i result hcall
    split at h
    · cases h
    · rename_i released hreleased
      split at h
      · rename_i hstate
        exact ⟨result, released, call_eq_ok.mp hcall, hreleased,
          Fields.get_eq_str.mp (Value.isStr_iff.mp hstate)⟩
      · cases h

/-- What keeps a reply from going wrong: if the comparisons let the lease pass, it is readable; if
they do not, the release does not fail plainly. -/
def Settles (f : Facade) (client : Client) (asked : Asked) (lease : Fields) : Prop :=
  (mismatch f.py asked.requirements asked.context lease = none →
    Readable asked.requirements lease) ∧
  (mismatch f.py asked.requirements asked.context lease ≠ none → ∀ id token code,
    releaseKey lease = some (id, token) →
    call f.py "leases.release" (client.release id token) ≠ .error (.scheduler code))

theorem settles_of_sound (h : Sound f client o request (reserveBackground f client o request))
    (hask : ask f o request client.resources = .ok asked)
    (hlease : Leased asked.ownerId (client.request asked.payload) lease) :
    Settles f client asked lease := by
  have hsettle := reserveBackground_leased hask hlease
  constructor
  · intro hpasses
    by_contra hreadable
    obtain ⟨e, he, hends⟩ := h.rejected asked lease hask hlease
      (fun hmatches => hreadable (readable_of_matches hmatches))
    rw [hsettle, settle, hpasses] at he hends
    rcases hends with ⟨id, token, _, hreleased⟩ | ⟨code, rfl⟩
    · cases hreleased
    · have hraised : resourcesForLease f.py lease client.resourcesAfter =
          .error (.pending code) := by
        cases hids : resourcesForLease f.py lease client.resourcesAfter with
        | error e =>
          rw [hids] at he
          cases he
          rfl
        | ok ids =>
          rw [hids] at he
          cases he
      rcases resourcesForLease_error _ hraised with ⟨code', hcode⟩ | ⟨code', hcode⟩
      · cases hcode
      · cases hcode
  · intro hrejected id token code hkey hcall
    have hmismatch : ¬ Matches asked.requirements asked.context lease :=
      fun hmatches => hrejected (mismatch_of_matches hmatches)
    obtain ⟨reason, hreason⟩ := Option.ne_none_iff_exists'.mp hrejected
    have hresult : (reserveBackground f client o request).result = .error (.scheduler code) := by
      rw [hsettle, settle, hreason]
      dsimp only
      rw [rejectGrant, hkey]
      dsimp only
      rw [afterRelease, hcall]
    obtain ⟨id', token', ⟨hid', htoken'⟩, result, _, hreply, _⟩ :=
      h.confirmed asked lease hask hlease hmismatch code hresult
    obtain ⟨hid, htoken⟩ := releaseKey_eq_some hkey
    rw [hid] at hid'
    rw [htoken] at htoken'
    cases hid'
    cases htoken'
    rw [call_eq_ok.mpr hreply] at hcall
    cases hcall

theorem sound_of_settles (h : ∀ asked lease, ask f o request client.resources = .ok asked →
      Leased asked.ownerId (client.request asked.payload) lease → Settles f client asked lease) :
    Sound f client o request (reserveBackground f client o request) := by
  have hpasses : ∀ asked lease, ask f o request client.resources = .ok asked →
      Leased asked.ownerId (client.request asked.payload) lease →
      mismatch f.py asked.requirements asked.context lease = none →
      Matches asked.requirements asked.context lease :=
    fun asked lease hask hlease hnone =>
      matches_of_readable (ask_requirements hask) hnone ((h asked lease hask hlease).1 hnone)
  constructor
  · intro r hr
    obtain ⟨asked, lease, hask, hlease⟩ := leased_of_reservation hr
    refine ⟨asked, lease, hask, hlease, hpasses asked lease hask hlease ?_⟩
    rw [reserveBackground_leased hask hlease, settle] at hr
    split at hr
    · rename_i reason _
      rw [rejectGrant] at hr
      split at hr <;> cases hr
    · assumption
  · intro asked lease hask hlease hmismatch
    rw [reserveBackground_leased hask hlease, settle]
    split
    · rename_i reason _
      rw [rejectGrant]
      split
      · exact ⟨_, rfl, .inr ⟨_, rfl⟩⟩
      · rename_i id token hkey
        exact ⟨_, rfl, .inl ⟨id, token, releaseKey_eq_some hkey, List.mem_singleton_self _⟩⟩
    · rename_i hnone
      exact absurd (hpasses asked lease hask hlease hnone) hmismatch
  · intro asked lease hask hlease hmismatch code hcode
    rw [reserveBackground_leased hask hlease, settle] at hcode
    split at hcode
    · rename_i reason hreason
      rw [rejectGrant] at hcode
      split at hcode
      · cases hcode
      · rename_i id token hkey
        have hsome : mismatch f.py asked.requirements asked.context lease ≠ none := by
          rw [hreason]
          exact Option.some_ne_none reason
        refine ⟨id, token, releaseKey_eq_some hkey, ?_⟩
        exact afterRelease_confirmed
          (fun code => (h asked lease hask hlease).2 hsome id token code hkey)
          (Except.error.inj hcode)
    · rename_i hnone
      exact absurd (hpasses asked lease hask hlease hnone) hmismatch

/-- For every request, inventory and reply, `reserve_background` is sound exactly if a lease that
its comparisons let pass names its resources by texts and their memory by numbers, no resource is
required with two budgets, and the release of a lease that they reject does not fail plainly. -/
theorem reserve_background_iff (f : Facade) (client : Client) (o : Owner) (request : Value) :
    Sound f client o request (reserveBackground f client o request) ↔
      ∀ asked lease, ask f o request client.resources = .ok asked →
        Leased asked.ownerId (client.request asked.payload) lease →
        Settles f client asked lease :=
  ⟨fun h _ _ hask hlease => settles_of_sound h hask hlease, sound_of_settles⟩

/-- The texts of values without floats, arrays and objects. -/
def plainText : Value → String
  | .null => "None"
  | .bool true => "True"
  | .bool false => "False"
  | .int n => toString n
  | .str s => s
  | _ => ""

theorem plainText_str (s : String) : plainText (.str s) = s := rfl

def plainFacade : Facade :=
  ⟨⟨plainText, plainText_str, id, fun _ => some "0"⟩, fun _ => "0", .finite 60⟩

/-- One GPU with eight bytes that can be reclaimed. -/
def gpuInventory : Answer :=
  .value (.obj [("resources", .arr [.obj [("kind", .str "gpu"), ("resource_id", .str "gpu-0"),
    ("capacities", .obj [("memory_bytes", .int 8)]), ("source_adapter_id", .str "adapter"),
    ("external_lease", .obj [("supported", .bool true), ("mode", .str "exclusive_gpu_quiescence"),
      ("required_allocation_mode", .str "exclusive"),
      ("release_method", .str "repeatable_read_only_observation")])]])])

def gpuRequest : Value := .obj [("schema_version", .int 1), ("ids", .arr [.str "gpu-0"])]

def gpuOwner : Owner := ⟨"/work", "job", "attempt", 7, none⟩

/-- A grant without an allocation, and a release that is not answered. -/
def silentClient : Client where
  resources := gpuInventory
  request := fun _ => .value (.obj [
    ("owner_id", .str (backgroundOwnerId plainFacade.digest gpuOwner)), ("state", .str "active"),
    ("lease_id", .str "lease-1"), ("fencing_token", .int 1), ("allocations", .arr [])])
  release := fun _ _ => .exception none "TimeoutError"
  resourcesAfter := gpuInventory

/-- A grant without the required GPU is rejected with a plain error, although its release was
never answered. -/
theorem unconfirmed_release_is_reported :
    ¬ Sound plainFacade silentClient gpuOwner gpuRequest
      (reserveBackground plainFacade silentClient gpuOwner gpuRequest) := by
  intro h
  obtain ⟨asked, hask⟩ : ∃ asked, ask plainFacade gpuOwner gpuRequest gpuInventory = .ok asked :=
    ⟨_, rfl⟩
  have howner : asked.ownerId = backgroundOwnerId plainFacade.digest gpuOwner := by
    cases hask
    rfl
  have hrequired : asked.requirements = [⟨"gpu-0", 8⟩] := by
    cases hask
    rfl
  have hlease : Leased asked.ownerId (silentClient.request asked.payload)
      [("owner_id", .str (backgroundOwnerId plainFacade.digest gpuOwner)),
        ("state", .str "active"), ("lease_id", .str "lease-1"), ("fencing_token", .int 1),
        ("allocations", .arr [])] := by
    rw [howner]
    refine ⟨_, ⟨rfl, fun error herror => ?_⟩, rfl, rfl, rfl⟩
    cases herror
  refine (settles_of_sound h hask hlease).2 (fun hnone => ?_) "lease-1" 1 _ rfl rfl
  rw [hrequired] at hnone
  cases hnone

end Soundness

end ProjectControl.Scheduler
