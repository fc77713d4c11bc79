import ProjectControl.HostReclaim
import ProjectControl.HostRows

/-! The pressure that reservations are admitted under: what each creation path records for
its owner, and the limits that hold after a reservation was granted. -/

set_option autoImplicit false

namespace ProjectControl.HostResources

open Sql

variable {hashes : Hashes} {env host : Env} {db db' : Registry} {call : Call} {a : Action}

section Charges

/-- A foreground request that is heavy says how many threads it is charged. -/
def Call.declares : Call → Prop
  | .beginForeground _ request _ _ => request.cpuThreads ≠ 0 ∨ request.cpuHeavy = false
  | _ => True

/-- The owner of a call is recorded with the charge that admission computes for its request
exactly if the call declares it. -/
theorem newOwner_charge {new : Owner} {request : Request}
    (hnew : call.newOwner hashes env = some new) (hrequest : call.request? = some request) :
    (new.cpuThreads = cpuThreads env request ∧ new.ramBytes = request.ramBytes) ↔
      call.declares := by
  cases call with
  | reserveBackground =>
    cases hnew
    cases hrequest
    exact iff_of_true ⟨rfl, rfl⟩ trivial
  | reserveService =>
    cases hnew
    cases hrequest
    exact iff_of_true ⟨rfl, rfl⟩ trivial
  | beginForeground projectRoot r pid priorityClass =>
    cases hnew
    cases hrequest
    have hlimit : 1 ≤ cpuLimit env := Nat.le_max_left _ _
    show request.cpuThreads = cpuThreads env request ∧ request.ramBytes = request.ramBytes ↔
      request.cpuThreads ≠ 0 ∨ request.cpuHeavy = false
    unfold cpuThreads
    by_cases hdeclared : request.cpuThreads = 0
    · cases hheavy : request.cpuHeavy with
      | false => simp [hdeclared]
      | true =>
        -- the implied charge is positive
        simp only [hdeclared, ne_eq, not_true_eq_false, if_false, if_true]
        constructor
        · rintro ⟨h, -⟩
          omega
        · rintro (h | h)
          · exact h.elim
          · cases h
    · simp [hdeclared]
  | upsertResources | replaceResources | sweepStale | reconcileCurrentServiceOwners | setPriority
  | requestPreemption | activateForeground | heartbeat | protectResidency
  | recordResidencyProcess | release => cases hnew

/-- A transaction takes no owner away and changes the charges of none, and a new owner has
those that its call records. -/
structure Recorded (hashes : Hashes) (env : Env) (call : Call) (db db' : Registry) : Prop where
  kept : ∀ id o, db.owner? id = some o → ∃ o', db'.owner? id = some o'
  rows : ∀ id o', db'.owner? id = some o' →
    (∃ o, db.owner? id = some o ∧ o'.cpuThreads = o.cpuThreads ∧ o'.ramBytes = o.ramBytes) ∨
    (db.owner? id = none ∧ ∃ new, call.newOwner hashes env = some new ∧
      o'.cpuThreads = new.cpuThreads ∧ o'.ramBytes = new.ramBytes)

theorem charge_of_write {s : Statement} {o o' : Owner} (h : OwnerWrite s o o') :
    o'.cpuThreads = o.cpuThreads ∧ o'.ramBytes = o.ramBytes := by
  cases h <;> exact ⟨rfl, rfl⟩

theorem keeps_recorded : Keeps hashes env call (Recorded hashes env call db) := by
  intro db₁ s hs h db₂ hdb₂
  refine ⟨fun id o ho => ?_, fun id o₂ ho₂ => ?_⟩
  · obtain ⟨o₁, ho₁⟩ := h.kept id o ho
    rcases exec_owner hdb₂ ho₁ with hsame | ⟨o₂, ho₂, -⟩ | ⟨selected, rfl, -⟩
    · exact ⟨o₁, hsame⟩
    · exact ⟨o₂, ho₂⟩
    · exact hs.elim
  · cases ho₁ : db₁.owner? id with
    | none =>
      have hfresh : db.owner? id = none := by
        cases ho : db.owner? id with
        | none => rfl
        | some o =>
          obtain ⟨o₁, hsome⟩ := h.kept id o ho
          rw [ho₁] at hsome
          cases hsome
      rcases exec_fresh hdb₂ ho₁ with hnone | ⟨new, rfl, -, hnew⟩
      · rw [hnone] at ho₂
        cases ho₂
      · rw [hnew] at ho₂
        cases ho₂
        exact .inr ⟨hfresh, o₂, hs, rfl, rfl⟩
    | some o₁ =>
      rcases exec_owner hdb₂ ho₁ with hsame | ⟨o₃, ho₃, hwrite, -⟩ | ⟨selected, rfl, -⟩
      · rw [hsame] at ho₂
        cases ho₂
        exact h.rows id _ ho₁
      · rw [ho₃] at ho₂
        cases ho₂
        obtain ⟨hcpu, hram⟩ := charge_of_write hwrite
        rw [hcpu, hram]
        exact h.rows id o₁ ho₁
      · exact hs.elim

theorem recorded_step (a : Action) :
    Recorded hashes a.env a.call db (step hashes db a) := by
  have hrefl : Recorded hashes a.env a.call db db :=
    ⟨fun _ o ho => ⟨o, ho⟩, fun _ o ho => .inl ⟨o, ho, rfl, rfl⟩⟩
  exact step_of_ensures hrefl (keeps_recorded.transact hrefl)

end Charges

section History

/-- The registry, with the request that each owner was created for. -/
structure Books where
  registry : Registry := {}
  requests : OwnerId → Option Request := fun _ => none

/-- A step of a client, and the request of the owner that it created. -/
def Books.step (hashes : Hashes) (s : Books) (a : Action) : Books where
  registry := HostResources.step hashes s.registry a
  requests id := if (s.registry.owner? id).isNone &&
      ((HostResources.step hashes s.registry a).owner? id).isSome then a.call.request?
    else s.requests id

def Books.run (hashes : Hashes) (actions : List Action) : Books :=
  actions.foldl (Books.step hashes) {}

/-- The limits of the host do not change. -/
def SameCapacity (host env : Env) : Prop :=
  env.cpuCapacity = host.cpuCapacity ∧ env.memoryCapacityBytes = host.memoryCapacityBytes

theorem cpuThreads_congr (h : SameCapacity host env) (request : Request) :
    cpuThreads env request = cpuThreads host request := by
  simp only [cpuThreads, cpuLimit, h.1]

/-- Each owner is charged what admission computes for its own request. -/
def Charged (host : Env) (s : Books) : Prop :=
  ∀ id o, s.registry.owner? id = some o → ∃ request, s.requests id = some request ∧
    o.cpuThreads = cpuThreads host request ∧ o.ramBytes = request.ramBytes

theorem request_of_newOwner {new : Owner} (h : call.newOwner hashes env = some new) :
    ∃ request, call.request? = some request := by
  cases call with
  | reserveBackground | reserveService | beginForeground => exact ⟨_, rfl⟩
  | upsertResources | replaceResources | sweepStale | reconcileCurrentServiceOwners | setPriority
  | requestPreemption | activateForeground | heartbeat | protectResidency
  | recordResidencyProcess | release => cases h

theorem Charged.step {s : Books} (h : Charged host s) (hcapacity : SameCapacity host a.env)
    (hdeclares : a.call.declares) : Charged host (s.step hashes a) := by
  intro id o' ho'
  rcases (recorded_step a).rows id o' ho' with ⟨o, ho, hcpu, hram⟩ | ⟨hnone, new, hnew, hcpu, hram⟩
  · obtain ⟨request, hrequest, hocpu, horam⟩ := h id o ho
    refine ⟨request, ?_, hcpu.trans hocpu, hram.trans horam⟩
    simp only [Books.step, ho, Option.isNone_some, Bool.false_and, Bool.false_eq_true, if_false]
    exact hrequest
  · obtain ⟨request, hrequest⟩ := request_of_newOwner hnew
    obtain ⟨hncpu, hnram⟩ := (newOwner_charge hnew hrequest).mpr hdeclares
    refine ⟨request, ?_, ?_, hram.trans hnram⟩
    · have hsome : ((HostResources.step hashes s.registry a).owner? id).isSome = true := by
        have ho'' : (HostResources.step hashes s.registry a).owner? id = some o' := ho'
        rw [ho'']
        rfl
      simp only [Books.step, hnone, hsome, Option.isNone_none, Bool.and_self, if_true]
      exact hrequest
    · rw [hcpu, hncpu, cpuThreads_congr hcapacity]

theorem Charged.run (actions : List Action)
    (hcapacity : ∀ a ∈ actions, SameCapacity host a.env)
    (hdeclares : ∀ a ∈ actions, a.call.declares) : Charged host (Books.run hashes actions) := by
  have hall : ∀ s, Charged host s → Charged host (actions.foldl (Books.step hashes) s) := by
    induction actions with
    | nil => exact fun s h => h
    | cons a rest ih =>
      intro s h
      refine ih (fun b hb => hcapacity b (List.mem_cons_of_mem _ hb))
        (fun b hb => hdeclares b (List.mem_cons_of_mem _ hb)) _ ?_
      exact h.step (hcapacity a List.mem_cons_self) (hdeclares a List.mem_cons_self)
  exact hall {} (fun _ _ h => (nomatch h))

theorem books_registry (actions : List Action) :
    (Books.run hashes actions).registry = actions.foldl (step hashes) {} := by
  have hall : ∀ s : Books, (actions.foldl (Books.step hashes) s).registry =
      actions.foldl (HostResources.step hashes) s.registry := by
    induction actions with
    | nil => exact fun s => rfl
    | cons a rest ih => exact fun s => ih _
  exact hall {}

end History

section Admission

variable {swept owned : Registry} {new : Owner} {request : Request} {resources : List ResourceId}

/-- The charges of the live owners. -/
def liveCharges (db : Registry) (charge : Owner → ℤ) : ℤ :=
  ((db.owners.rows.filter (fun o => o.state.live)).map charge).sum

theorem owners_insertReservations {id : OwnerId} :
    Ensures (insertReservations env owned id resources) (fun db => db.owners = owned.owners) :=
  Ensures.foldlM rfl (fun _ _ _ h _ hdb => (insertReservation_cases hdb).1.trans h)

/-- A reservation adds the charge of its owner, which is not negative, or nothing. -/
theorem Reserves.charges (h : Reserves hashes env db call db' swept new request resources owned)
    {charge : Owner → ℤ} (hcharge : 0 ≤ charge new) :
    liveCharges db' charge ≤ liveCharges swept charge + charge new := by
  have howners : db'.owners = owned.owners := owners_insertReservations db' h.reserve
  unfold liveCharges
  rw [howners]
  have hinsert := h.insert
  unfold Registry.insertOwner at hinsert
  split at hinsert
  · cases hinsert
    omega
  · split at hinsert
    · rename_i owners htable
      cases hinsert
      unfold Sql.Table.insert? at htable
      split at htable
      · cases htable
        have hlive : new.state.live = true := by
          rw [h.state]
          rfl
        show ((List.filter _ (swept.owners.rows ++ [new])).map charge).sum ≤ _
        have hkept : [new].filter (fun o => o.state.live) = [new] := by simp [hlive]
        rw [List.filter_append, hkept, List.map_append, List.sum_append]
        simp
      · cases htable
    · cases hinsert

theorem pressure_of_select (h : selectLocked env swept request = .ok (some resources)) :
    liveCharges swept Owner.cpuThreads + cpuThreads env request ≤ cpuLimit env ∧
      liveCharges swept Owner.ramBytes + request.ramBytes ≤ ramLimit env := by
  unfold selectLocked at h
  cases hpressure : pressureAvailable env swept request with
  | false =>
    rw [hpressure] at h
    cases h
  | true => simpa [pressureAvailable, liveCharges] using hpressure

theorem cpuThreads_nonneg (h : 0 ≤ request.cpuThreads) : 0 ≤ cpuThreads env request := by
  unfold cpuThreads
  split
  · exact h
  · split
    · exact Int.natCast_nonneg _
    · exact le_refl _

/-- A request that `normalize_resource_request` returns asks for no negative quantity. -/
def Request.normalized (request : Request) : Prop := 0 ≤ request.cpuThreads ∧ 0 ≤ request.ramBytes

/-- Right after a reservation succeeds, the charges of the requests of all live owners are
within the limits of the host, in every run whose heavy foreground requests declare their
threads. An owner is recorded with the charge of its request exactly if its call declares it. -/
theorem admission_keeps_the_limits (hashes : Hashes) (host : Env) (before : List Action)
    (a : Action) (hcapacity : ∀ b ∈ before ++ [a], SameCapacity host b.env)
    (hdeclares : ∀ b ∈ before, b.call.declares)
    (hnormalized : ∀ request, a.call.request? = some request → request.normalized)
    (hadmitted : Admitted hashes (before.foldl (step hashes) {}) a) :
    let s := Books.run hashes (before ++ [a])
    (liveCharges s.registry (fun o => cpuThreads host ((s.requests o.id).getD {})) ≤
        cpuLimit host ∧
      liveCharges s.registry (fun o => ((s.requests o.id).getD {}).ramBytes) ≤ ramLimit host) ∧
    ∀ env call new request, Call.newOwner hashes env call = some new →
      call.request? = some request →
      ((new.cpuThreads = cpuThreads env request ∧ new.ramBytes = request.ramBytes) ↔
        call.declares) := by
  intro s
  refine ⟨?_, fun env call new request => newOwner_charge⟩
  obtain ⟨db', reply, hreservation⟩ := hadmitted
  obtain ⟨swept, new, request, resources, owned, h, -⟩ := reservation_succeeds hreservation
  have hregistry : s.registry = db' := by
    show (Books.run hashes (before ++ [a])).registry = db'
    rw [books_registry, List.foldl_append, List.foldl_cons, List.foldl_nil, step, h.commit]
    rfl
  have hall : ∀ b ∈ before ++ [a], b.call.declares := by
    intro b hb
    rcases List.mem_append.mp hb with hb | hb
    · exact hdeclares b hb
    · rw [List.mem_singleton.mp hb]
      exact (newOwner_charge h.owner h.asked).mp h.charge
  have hcharged : Charged host s := Charged.run (before ++ [a]) hcapacity hall
  have hrecorded : ∀ o ∈ s.registry.owners.rows, ∃ request, s.requests o.id = some request ∧
      o.cpuThreads = cpuThreads host request ∧ o.ramBytes = request.ramBytes :=
    fun o ho => hcharged o.id o (owner?_eq_some.mpr ⟨ho, rfl⟩)
  obtain ⟨hcpu, hram⟩ := h.charge
  obtain ⟨hcpu', hram'⟩ := hnormalized request h.asked
  obtain ⟨hcpuLimit, hramLimit⟩ := pressure_of_select h.select
  have hhost := hcapacity a (List.mem_append_right _ List.mem_cons_self)
  constructor
  · calc liveCharges s.registry (fun o => cpuThreads host ((s.requests o.id).getD {}))
        = liveCharges s.registry Owner.cpuThreads := by
          unfold liveCharges
          congr 1
          refine List.map_congr_left (fun o ho => ?_)
          obtain ⟨r, hr, hocpu, -⟩ := hrecorded o (List.mem_filter.mp ho).1
          rw [hr, hocpu, Option.getD_some]
      _ = liveCharges db' Owner.cpuThreads := by rw [hregistry]
      _ ≤ liveCharges swept Owner.cpuThreads + new.cpuThreads :=
          h.charges (by rw [hcpu]; exact cpuThreads_nonneg hcpu')
      _ ≤ cpuLimit a.env := by rw [hcpu]; exact hcpuLimit
      _ = cpuLimit host := by rw [cpuLimit, hhost.1, cpuLimit]
  · calc liveCharges s.registry (fun o => ((s.requests o.id).getD {}).ramBytes)
        = liveCharges s.registry Owner.ramBytes := by
          unfold liveCharges
          congr 1
          refine List.map_congr_left (fun o ho => ?_)
          obtain ⟨r, hr, -, horam⟩ := hrecorded o (List.mem_filter.mp ho).1
          rw [hr, horam, Option.getD_some]
      _ = liveCharges db' Owner.ramBytes := by rw [hregistry]
      _ ≤ liveCharges swept Owner.ramBytes + new.ramBytes :=
          h.charges (by rw [hram]; exact hram')
      _ ≤ ramLimit a.env := by rw [hram]; exact hramLimit
      _ = ramLimit host := by rw [ramLimit, hhost.2, ramLimit]

end Admission

section Runs

/-- A background job that asks for threads. -/
def threadsAt (now : ℚ) (job : String) (threads : ℤ) : Action :=
  ⟨hostAt now, .reserveBackground "/p" job "attempt" { cpuThreads := threads } 7⟩

/-- A foreground request that is heavy and does not say how many threads it needs. -/
def heavyForeground (threads : ℤ) : Action :=
  ⟨hostAt 1, .beginForeground "/p" { cpuHeavy := true, cpuThreads := threads } 7 .foregroundGpu⟩

/-- A declared foreground request leaves room for the rest of the limit only. -/
theorem declared_request_is_charged :
    liveCharges (Books.run plainHashes [heavyForeground 4, threadsAt 2 "job" 2]).registry
      (fun o => cpuThreads (hostAt 0) (((Books.run plainHashes [heavyForeground 4,
        threadsAt 2 "job" 2]).requests o.id).getD {})) ≤ cpuLimit (hostAt 0) := by
  have hgranted : (reservation plainHashes (hostAt 2)
      ([heavyForeground 4].foldl (step plainHashes) {}) (threadsAt 2 "job" 2).call).toOption.map
      (fun out => out.2.isSome) = some true := by
    decide +kernel
  obtain ⟨⟨db', granted⟩, hout, hsome⟩ := Option.map_eq_some_iff.mp hgranted
  obtain ⟨reply, rfl⟩ := Option.isSome_iff_exists.mp hsome
  refine (admission_keeps_the_limits plainHashes (hostAt 0) [heavyForeground 4]
    (threadsAt 2 "job" 2) ?_ ?_ ?_ ⟨db', reply, Ensures.ok_of_toOption hout⟩).1.1
  · intro b hb
    simp only [List.cons_append, List.nil_append, List.mem_cons, List.not_mem_nil, or_false] at hb
    rcases hb with rfl | rfl <;> exact ⟨rfl, rfl⟩
  · intro b hb
    rw [List.mem_singleton.mp hb]
    exact .inl (by decide)
  · intro request hrequest
    cases hrequest
    exact ⟨by decide, by decide⟩

/-- The implied charge of a heavy foreground request is not recorded: next to it a job takes
all the threads of the limit. -/
theorem heavy_foreground_is_not_charged :
    let s := Books.run plainHashes [heavyForeground 0, threadsAt 2 "job" 6]
    (∃ db' reply, reservation plainHashes (hostAt 2)
      ([heavyForeground 0].foldl (step plainHashes) {}) (threadsAt 2 "job" 6).call =
        .ok (db', some reply)) ∧
    ¬ liveCharges s.registry (fun o => cpuThreads (hostAt 0) ((s.requests o.id).getD {})) ≤
      cpuLimit (hostAt 0) := by
  intro s
  have hgranted : (reservation plainHashes (hostAt 2)
      ([heavyForeground 0].foldl (step plainHashes) {}) (threadsAt 2 "job" 6).call).toOption.map
      (fun out => out.2.isSome) = some true := by
    decide +kernel
  obtain ⟨⟨db', granted⟩, hout, hsome⟩ := Option.map_eq_some_iff.mp hgranted
  obtain ⟨reply, rfl⟩ := Option.isSome_iff_exists.mp hsome
  exact ⟨⟨db', reply, Ensures.ok_of_toOption hout⟩, by decide +kernel⟩

end Runs

end ProjectControl.HostResources
