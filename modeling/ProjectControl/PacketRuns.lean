import ProjectControl.Transaction
import ProjectControl.PacketNotebook

/-! What the calls of a packet store can do to its packets and bodies, and the invariant of
a store over every run. -/

set_option autoImplicit false

namespace ProjectControl.Packets

open Sql Relation

variable {V J : Type} {rules : Rules V J} {store store' : Store V J}

section Queries

variable {a b r q : Row J} {id reference : String} {payload : V}

theorem distinct_symm (a b : Row J) (h : Row.Distinct a b) : Row.Distinct b a :=
  ⟨Ne.symm h.1, Ne.symm h.2⟩

theorem eq_of_id (ha : a ∈ store.packets) (hb : b ∈ store.packets) (h : a.id = b.id) : a = b :=
  Table.eq_of_mem distinct_symm ha hb (fun hne => hne.1 h)

theorem eq_of_alias (ha : a ∈ store.packets) (hb : b ∈ store.packets)
    (h : a.packetAlias = b.packetAlias) : a = b :=
  Table.eq_of_mem distinct_symm ha hb (fun hne => hne.2 h)

theorem mem_of_row? (h : store.row? id = some r) : r ∈ store.packets ∧ r.id = id := by
  obtain ⟨hmem, hid⟩ := Table.mem_of_find? h
  exact ⟨hmem, of_decide_eq_true hid⟩

theorem row?_of_mem (h : r ∈ store.packets) : store.row? r.id = some r :=
  Table.find?_eq_some h (decide_eq_true rfl)
    (fun _ ha hid => eq_of_id ha h (of_decide_eq_true hid))

theorem mem_of_named? (h : store.named? reference = some r) :
    r ∈ store.packets ∧ (r.id = reference ∨ r.packetAlias = reference) := by
  obtain ⟨hmem, hname⟩ := Table.mem_of_find? h
  exact ⟨hmem, of_decide_eq_true hname⟩

theorem mem_of_byReference (h : store.byReference reference = some r) :
    r ∈ store.packets ∧ (r.id = reference ∨ r.packetAlias = reference) := by
  have hmem := List.mem_of_find?_eq_some h
  exact ⟨List.mem_reverse.mp hmem, by simpa using List.find?_some h⟩

theorem body?_of_mem {b : Body V} (h : b ∈ store.bodies) :
    store.body? b.hash = some b.payload := by
  have hfind : store.bodies.rows.find? (fun c => c.hash = b.hash) = some b :=
    Table.find?_eq_some h (decide_eq_true rfl) (fun c hc hhash =>
      Table.eq_of_mem (fun _ _ => Ne.symm) hc h (not_not.mpr (of_decide_eq_true hhash)))
  simp only [Store.body?, hfind, Option.map_some]

theorem parentsOf_of_mem (h : r ∈ store.packets) :
    store.parentsOf r.id = r.metadata.parents := by
  simp only [Store.parentsOf, row?_of_mem h]

theorem parentsOf_cases (h : id ∈ store.parentsOf reference) :
    ∃ r ∈ store.packets, r.id = reference ∧ id ∈ r.metadata.parents := by
  unfold Store.parentsOf at h
  split at h
  · cases h
  · rename_i r hr
    obtain ⟨hmem, hid⟩ := mem_of_row? hr
    exact ⟨r, hmem, hid, h⟩

end Queries

section Live

variable {r q : Row J} {id : String} {clock : String → ℚ}

/-- The packets that are live without a live descendant. -/
def Root (rules : Rules V J) (store : Store V J) (clock : String → ℚ) (id : String) : Prop :=
  (∃ pin ∈ store.pins, pin.packet = id) ∨
    ∃ r ∈ store.packets, r.id = id ∧ r.fresh rules (clock id) = true

theorem mem_liveIds : id ∈ liveIds rules store clock ↔
    ∃ root, Root rules store clock root ∧
      ReflTransGen (fun x y => y ∈ store.parentsOf x) root id := by
  have hunivers : ∀ a, ∀ b ∈ store.parentsOf a,
      b ∈ store.packets.rows.flatMap (fun r => r.metadata.parents) := by
    intro a b hb
    obtain ⟨r, hr, -, hmem⟩ := parentsOf_cases hb
    exact List.mem_flatMap.mpr ⟨r, hr, hmem⟩
  refine (Worklist.mem_closure hunivers).trans (exists_congr (fun root => and_congr_left' ?_))
  rw [List.mem_append, List.mem_map, List.mem_map]
  refine or_congr Iff.rfl ⟨fun ⟨r, hr, hid⟩ => ?_, fun ⟨r, hr, hid, hfresh⟩ => ?_⟩
  · obtain ⟨hmem, hfresh⟩ := List.mem_filter.mp hr
    exact ⟨r, hmem, hid, hid ▸ hfresh⟩
  · exact ⟨r, List.mem_filter.mpr ⟨hr, hid ▸ hfresh⟩, hid⟩

/-- Liveness is inherited by parents. -/
theorem live_parent (hr : r ∈ store.packets) (hlive : r.id ∈ liveIds rules store clock)
    (hid : id ∈ r.metadata.parents) : id ∈ liveIds rules store clock := by
  obtain ⟨root, hroot, hreach⟩ := mem_liveIds.mp hlive
  refine mem_liveIds.mpr ⟨root, hroot, hreach.tail ?_⟩
  rw [parentsOf_of_mem hr]
  exact hid

end Live

section Authority

variable [DecidableEq J] {a b c : Scope J}

theorem authorized_iff : authorized a b = true ↔ a ≠ [] ∧ b ≠ [] ∧
    ∀ field ∈ a, field.1 = "principal" ∨ field.1 = "profile" ∨
      b.lookup field.1 = some field.2 := by
  simp [authorized, and_assoc, or_assoc]

omit [DecidableEq J] in
theorem mem_of_lookup {key : String} {v : J} (h : a.lookup key = some v) : (key, v) ∈ a := by
  obtain ⟨before, after, heq, -⟩ := List.lookup_eq_some_iff.mp h
  rw [heq]
  exact List.mem_append_right _ List.mem_cons_self

/-- A scope that is inside an authorized scope is authorized. -/
theorem authorized_trans (hab : authorized a b = true) (hbc : authorized b c = true) :
    authorized a c = true := by
  obtain ⟨ha, -, hfields⟩ := authorized_iff.mp hab
  obtain ⟨-, hc, hfields'⟩ := authorized_iff.mp hbc
  refine authorized_iff.mpr ⟨ha, hc, fun field hmem => ?_⟩
  rcases hfields field hmem with h | h | h
  · exact .inl h
  · exact .inr (.inl h)
  · exact hfields' (field.1, field.2) (mem_of_lookup h)

end Authority

section Effects

variable {p : Packet V J} {extra : Option J} {clock : Clock}

/-- The packets and bodies are untouched. -/
def SameEvidence (store store' : Store V J) : Prop :=
  store'.packets = store.packets ∧ store'.bodies = store.bodies

theorem SameEvidence.refl (store : Store V J) : SameEvidence store store := ⟨rfl, rfl⟩

theorem SameEvidence.trans {a b c : Store V J} (hab : SameEvidence a b)
    (hbc : SameEvidence b c) : SameEvidence a c :=
  ⟨hbc.1.trans hab.1, hbc.2.trans hab.2⟩

theorem valid_of_checked (h : checkPacket rules p = .ok ()) : p.error? rules = none := by
  unfold checkPacket at h
  split at h
  · cases h
  · rename_i hvalid
    exact hvalid

theorem ensures_pin {owner : String} {references : List String} :
    Ensures (pin rules store clock owner references) (SameEvidence store) := by
  refine Ensures.foldlM (.refl store) (fun db reference _ hdb => ?_)
  unfold pinReference
  split
  · exact Ensures.throw
  · exact Ensures.ite (fun _ => Ensures.throw) (fun _ => Ensures.pure hdb)

theorem foldl_unpin (owners : List String) (store : Store V J) :
    SameEvidence store (owners.foldl Store.unpin store) := by
  induction owners generalizing store with
  | nil => exact .refl store
  | cons owner rest ih => exact ih (store.unpin owner)

theorem foldl_forgetOwner (owners : List String) (store : Store V J) :
    SameEvidence store (owners.foldl forgetOwner store) := by
  induction owners generalizing store with
  | nil => exact .refl store
  | cons owner rest ih => exact ih (forgetOwner store owner)

theorem ensures_retainJob {now : ℚ} {owner : String} {references : List String}
    {terminal : Bool} : Ensures (retainJob rules store clock now owner references terminal)
      (SameEvidence store) := by
  refine Ensures.bind ensures_pin (fun db hdb => ?_)
  dsimp only
  split
  · exact Ensures.throw
  · exact Ensures.pure (hdb.trans (foldl_forgetOwner _ _))

variable [DecidableEq J]

/-- A valid packet with a fresh id and a fresh alias was added, under unexpired parents
whose scopes include its own. -/
structure Inserts (rules : Rules V J) (p : Packet V J) (extra : Option J)
    (store store' : Store V J) : Prop where
  valid : p.error? rules = none
  named : p.packetId ≠ p.packetAlias
  unnamed : ∀ r ∈ store.packets, r.id ≠ p.packetAlias ∧ r.packetAlias ≠ p.packetId
  lineage : ∀ id ∈ p.parents, ∃ q ∈ store.packets, q.id = id ∧ q.expired = false ∧
    authorized q.metadata.accessScope p.accessScope = true
  packets : ∀ r, r ∈ store'.packets ↔ r ∈ store.packets ∨ r = p.row extra
  kept : ∀ b ∈ store.bodies, b ∈ store'.bodies
  bodies : ∀ b ∈ store'.bodies, b ∈ store.bodies ∨ b = ⟨p.payloadSha256, p.payload⟩
  body : ∃ b ∈ store'.bodies, b.hash = p.payloadSha256

theorem ensures_checkParent {scope : Scope J} {parent : String × ℕ} :
    Ensures (checkParent rules store clock scope parent) (fun _ =>
      ∃ q ∈ store.packets, q.id = parent.1 ∧ q.expired = false ∧
        authorized q.metadata.accessScope scope = true) := by
  unfold checkParent
  split
  · exact Ensures.throw
  · rename_i q hq
    refine Ensures.ite (fun _ => Ensures.throw) (fun hok => Ensures.pure ?_)
    obtain ⟨hmem, hid⟩ := mem_of_row? hq
    simp only [Bool.or_eq_true, not_or, Bool.not_eq_true, Bool.not_eq_false'] at hok
    exact ⟨q, hmem, hid, hok.1.1, hok.2⟩

theorem ensures_insertPacket (hvalid : p.error? rules = none) :
    Ensures (insertPacket rules store clock p extra) (Inserts rules p extra store) := by
  unfold insertPacket
  refine Ensures.ite (fun _ => Ensures.error) (fun hok => ?_)
  obtain ⟨hself, hothers⟩ := not_or.mp hok
  have hnames : ∀ r ∈ store.packets, r.id ≠ p.packetAlias ∧ r.packetAlias ≠ p.packetId := by
    intro r hr
    have hr' := List.any_eq_false.mp (Bool.eq_false_of_not_eq_true hothers) r hr
    simpa only [Bool.or_eq_true, decide_eq_true_eq, not_or] using hr'
  refine Ensures.bind (Ensures.forM (fun _ _ => ensures_checkParent)) (fun _ hparents => ?_)
  split
  · exact Ensures.throw
  · rename_i packets hpackets
    refine Ensures.pure ⟨hvalid, hself, hnames, fun id hid => ?_,
      Table.mem_insert? hpackets, fun b hb => Table.mem_insert?_getD_of_mem hb,
      fun b hb => Table.mem_insert?_getD hb, ?_⟩
    · obtain ⟨n, hn, rfl⟩ := List.getElem_of_mem hid
      exact hparents (p.parents[n], n) (List.mk_mem_zipIdx_iff_getElem?.mpr
        (List.getElem?_eq_getElem hn))
    · obtain ⟨b, hb, hbody⟩ := Table.exists_mem_insert?_getD (t := store.bodies)
        (r := (⟨p.payloadSha256, p.payload⟩ : Body V))
      refine ⟨b, hb, ?_⟩
      rcases hbody with rfl | hconflict
      · rfl
      · exact not_not.mp hconflict

/-- What `_put` commits: a packet that the store has under its id, now or already. -/
structure Puts (rules : Rules V J) (store : Store V J) (p : Packet V J) (store' : Store V J) :
    Prop where
  checked : checkPacket rules p = .ok ()
  stored : (store' = store ∧ ∃ r ∈ store.packets, r.metadata = p.toMetadata) ∨
    ∃ extra, Inserts rules p extra store store'

theorem ensures_putPacket : Ensures (putPacket rules store clock p extra)
    (fun out => out.1 = p ∧ Puts rules store p out.2) := by
  unfold putPacket
  refine Ensures.bind Ensures.of_eq (fun _ hchecked => ?_)
  split
  · rename_i prior hprior
    refine Ensures.ite (fun _ => Ensures.throw)
      (fun hsame => Ensures.pure ⟨rfl, hchecked, .inl ?_⟩)
    exact ⟨rfl, prior, (mem_of_row? hprior).1, not_not.mp (not_or.mp hsame).2⟩
  · refine Ensures.bind (ensures_insertPacket (valid_of_checked hchecked))
      (fun store' hins => Ensures.pure ⟨rfl, hchecked, .inr ⟨extra, hins⟩⟩)

theorem ensures_createFrom {request : CreateRequest V J} {now : ℚ} {attempts : List Attempt} :
    Ensures (createFrom rules store request now attempts)
      (fun out => Puts rules store out.1 out.2) := by
  induction attempts with
  | nil => exact Ensures.throw
  | cons attempt rest ih =>
    unfold createFrom
    split
    · exact ih
    · exact ensures_putPacket.mono (fun out h => h.1.symm ▸ h.2)

theorem ensures_create {request : CreateRequest V J} {now : ℚ} {attempts : ℕ → Attempt} :
    Ensures (create rules store request now attempts)
      (fun out => Puts rules store out.1 out.2) :=
  Ensures.ite (fun _ => Ensures.error) (fun _ => ensures_createFrom)

theorem ensures_reconcileRetention {now : String → ℚ}
    {retained : List (String × Scope J × List String)} {unpinOwners : List String} :
    Ensures (reconcileRetention rules store now retained unpinOwners) (SameEvidence store) :=
  Ensures.bind (P := fun _ => True) (fun _ _ => trivial)
    (fun _ _ => Ensures.pure (foldl_unpin unpinOwners { store with pins := _ }))

theorem ensures_putNote {now : ℚ} {clock : String → ℚ} {record : Note J} {scope : Scope J}
    {userGoal : Bool} : Ensures (putNote rules store clock now record scope userGoal)
      (fun out => SameEvidence store out.2) := by
  have any {α : Type} {x : Except Failure α} : Ensures x (fun _ => True) := fun _ _ => trivial
  refine Ensures.bind any (fun value _ => ?_)
  refine Ensures.bind any (fun origin _ => ?_)
  refine Ensures.bind any (fun refs _ => ?_)
  refine Ensures.ite (fun _ => Ensures.error) (fun _ => ?_)
  refine Ensures.bind any (fun pins _ => ?_)
  split
  · exact Ensures.throw
  · exact Ensures.pure (.refl store)

theorem deleteNote_evidence {noteId : String} {scope : Scope J} :
    SameEvidence store (deleteNote rules store noteId scope).2 := by
  unfold deleteNote
  split
  · exact .refl store
  · split
    · exact .refl store
    · exact .refl store

/-- The effects that a call can have on the packets and bodies. -/
inductive Effect (rules : Rules V J) (store : Store V J) : Reply V J → Store V J → Prop
  | same {reply : Reply V J} {store' : Store V J} (hreply : ∀ p, reply ≠ .packet p)
      (h : SameEvidence store store') : Effect rules store reply store'
  | put {p : Packet V J} {store' : Store V J} (h : Puts rules store p store') :
      Effect rules store (.packet p) store'
  | collect (clock : String → ℚ) :
      Effect rules store (.expired (gc rules store clock).2) (gc rules store clock).1

theorem ensures_execute (op : Operation V J) :
    Ensures (execute rules store op) (fun out => Effect rules store out.1 out.2) := by
  have hdone : ∀ p : Packet V J, Reply.done ≠ .packet p := fun p h => by cases h
  cases op with
  | create request now attempts =>
    exact Ensures.bind ensures_create (fun out h => Ensures.pure (.put h))
  | put p clock =>
    exact Ensures.bind ensures_putPacket (fun out h => Ensures.pure (.put (h.1.symm ▸ h.2)))
  | pin owner references clock =>
    exact Ensures.bind ensures_pin (fun _ h => Ensures.pure (.same hdone h))
  | unpin owner => exact Ensures.pure (.same hdone (.refl store))
  | retainJob owner references terminal now clock =>
    exact Ensures.bind ensures_retainJob (fun _ h => Ensures.pure (.same hdone h))
  | reconcileRetention retained unpinOwners clock =>
    exact Ensures.bind ensures_reconcileRetention (fun _ h => Ensures.pure (.same hdone h))
  | putNote record scope userGoal now clock =>
    refine Ensures.bind ensures_putNote (fun out h => Ensures.pure (.same (fun p hp => ?_) h))
    cases hp
  | deleteNote noteId scope =>
    exact Ensures.pure (.same (fun p hp => by cases hp) deleteNote_evidence)
  | gc clock => exact Ensures.pure (.collect clock)

end Effects

section Collection

variable {r : Row J} {b : Body V} {clock : String → ℚ}

theorem id_congr {r r' : Row J} (h : r'.metadata = r.metadata) : r'.id = r.id := by
  rw [← r'.id_eq, ← r.id_eq, h]

theorem alias_congr {r r' : Row J} (h : r'.metadata = r.metadata) :
    r'.packetAlias = r.packetAlias := by
  rw [← r'.alias_eq, ← r.alias_eq, h]

theorem hash_congr {r r' : Row J} (h : r'.metadata = r.metadata) : r'.hash = r.hash := by
  rw [← r'.hash_eq, ← r.hash_eq, h]

/-- A row that is not expired after a collection is an old row that is live. -/
theorem of_mem_gc (h : r ∈ (gc rules store clock).1.packets) :
    ∃ old ∈ store.packets, r.metadata = old.metadata ∧
      (r.expired = false → old.expired = false ∧ old.id ∈ liveIds rules store clock) := by
  obtain ⟨old, hold, heq⟩ := (Table.mem_update r).mp h
  split at heq
  · subst heq
    exact ⟨old, hold, rfl, fun hexpired => by cases hexpired⟩
  · rename_i hdead
    subst heq
    refine ⟨old, hold, rfl, fun hexpired => ⟨hexpired, ?_⟩⟩
    by_contra hlive
    simp [hexpired, hlive] at hdead

theorem mem_gc (rules : Rules V J) (clock : String → ℚ) (h : r ∈ store.packets) :
    ∃ new ∈ (gc rules store clock).1.packets, new.metadata = r.metadata ∧
      (r.expired = false → r.id ∈ liveIds rules store clock → new.expired = false) := by
  refine ⟨_, (Table.mem_update _).mpr ⟨r, h, rfl⟩, ?_, fun hexpired hlive => ?_⟩
  · split
    · rfl
    · rfl
  · simp [hexpired, hlive]

theorem of_mem_gc_bodies (h : b ∈ (gc rules store clock).1.bodies) : b ∈ store.bodies :=
  ((Table.mem_delete b).mp h).1

/-- A collection keeps the body of a row that is not expired. -/
theorem mem_gc_bodies (hb : b ∈ store.bodies) (hr : r ∈ (gc rules store clock).1.packets)
    (hexpired : r.expired = false) (hhash : b.hash = r.hash) :
    b ∈ (gc rules store clock).1.bodies := by
  refine (Table.mem_delete b).mpr ⟨hb, List.all_eq_false.mpr ⟨r, List.mem_filter.mpr ⟨hr, ?_⟩, ?_⟩⟩
  · rw [hexpired]
    rfl
  · simp [hhash]

end Collection

section Invariant

variable [DecidableEq J] {p : Packet V J} {extra : Option J}

structure WellFormed (rules : Rules V J) (store : Store V J) : Prop where
  disjoint : ∀ a ∈ store.packets, ∀ b ∈ store.packets, a.id ≠ b.packetAlias
  digest : ∀ b ∈ store.bodies, rules.digest b.payload = b.hash
  kept : ∀ r ∈ store.packets, r.expired = false → ∃ b ∈ store.bodies, b.hash = r.hash
  valid : ∀ r ∈ store.packets, ∀ payload : V, rules.digest payload = r.hash →
    (r.packet payload).error? rules = none
  /-- The parents of a packet are there, expire no earlier than it and include its scope. -/
  lineage : ∀ r ∈ store.packets, ∀ id ∈ r.metadata.parents, ∃ q ∈ store.packets, q.id = id ∧
    (r.expired = false → q.expired = false) ∧
    authorized q.metadata.accessScope r.metadata.accessScope = true

theorem wellFormed_empty : WellFormed rules (Store.empty : Store V J) := by
  have hpackets : ∀ r : Row J, r ∉ (Store.empty : Store V J).packets := fun r h => nomatch h
  have hbodies : ∀ b : Body V, b ∉ (Store.empty : Store V J).bodies := fun b h => nomatch h
  exact ⟨fun a ha => absurd ha (hpackets a), fun b hb => absurd hb (hbodies b),
    fun r hr => absurd hr (hpackets r), fun r hr => absurd hr (hpackets r),
    fun r hr => absurd hr (hpackets r)⟩

theorem WellFormed.same (h : WellFormed rules store) (hsame : SameEvidence store store') :
    WellFormed rules store' := by
  constructor
  · rw [hsame.1]
    exact h.disjoint
  · rw [hsame.2]
    exact h.digest
  · rw [hsame.1, hsame.2]
    exact h.kept
  · rw [hsame.1]
    exact h.valid
  · rw [hsame.1]
    exact h.lineage

theorem WellFormed.inserts (h : WellFormed rules store)
    (hins : Inserts rules p extra store store') : WellFormed rules store' := by
  have hdigest := Packet.digest_of_valid hins.valid
  refine ⟨fun a ha b hb => ?_, fun b hb => ?_, fun r hr hexpired => ?_, fun r hr v hv => ?_,
    fun r hr id hid => ?_⟩
  · rcases (hins.packets a).mp ha with ha | rfl <;> rcases (hins.packets b).mp hb with hb | rfl
    · exact h.disjoint a ha b hb
    · exact (hins.unnamed a ha).1
    · exact Ne.symm (hins.unnamed b hb).2
    · exact hins.named
  · rcases hins.bodies b hb with hb | rfl
    · exact h.digest b hb
    · exact hdigest
  · rcases (hins.packets r).mp hr with hr | rfl
    · obtain ⟨b, hb, hhash⟩ := h.kept r hr hexpired
      exact ⟨b, hins.kept b hb, hhash⟩
    · exact hins.body
  · rcases (hins.packets r).mp hr with hr | rfl
    · exact h.valid r hr v hv
    · have hcongr : ((p.row extra).packet v).error? rules = p.error? rules :=
        Packet.valid_congr rfl (hv.trans hdigest.symm)
      exact hcongr.trans hins.valid
  · rcases (hins.packets r).mp hr with hr | rfl
    · obtain ⟨q, hq, hrest⟩ := h.lineage r hr id hid
      exact ⟨q, (hins.packets q).mpr (.inl hq), hrest⟩
    · obtain ⟨q, hq, heq, hexpired, hauth⟩ := hins.lineage id hid
      exact ⟨q, (hins.packets q).mpr (.inl hq), heq, fun _ => hexpired, hauth⟩

theorem WellFormed.gc (h : WellFormed rules store) (clock : String → ℚ) :
    WellFormed rules (gc rules store clock).1 := by
  refine ⟨fun a ha b hb => ?_, fun b hb => h.digest b (of_mem_gc_bodies hb),
    fun r hr hexpired => ?_, fun r hr v hv => ?_, fun r hr id hid => ?_⟩
  · obtain ⟨a₀, ha₀, hma, -⟩ := of_mem_gc ha
    obtain ⟨b₀, hb₀, hmb, -⟩ := of_mem_gc hb
    rw [id_congr hma, alias_congr hmb]
    exact h.disjoint a₀ ha₀ b₀ hb₀
  · obtain ⟨old, hold, hmeta, hlive⟩ := of_mem_gc hr
    obtain ⟨b, hb, hhash⟩ := h.kept old hold (hlive hexpired).1
    have hsame : b.hash = r.hash := hhash.trans (hash_congr hmeta).symm
    exact ⟨b, mem_gc_bodies hb hr hexpired hsame, hsame⟩
  · obtain ⟨old, hold, hmeta, -⟩ := of_mem_gc hr
    have hcongr : (r.packet v).error? rules = (old.packet v).error? rules :=
      Packet.valid_congr hmeta rfl
    exact hcongr.trans (h.valid old hold v (hv.trans (hash_congr hmeta)))
  · obtain ⟨old, hold, hmeta, hlive⟩ := of_mem_gc hr
    rw [hmeta] at hid ⊢
    obtain ⟨q, hq, heq, hexpired, hauth⟩ := h.lineage old hold id hid
    obtain ⟨new, hnew, hmeta', hkept⟩ := mem_gc rules clock hq
    refine ⟨new, hnew, (id_congr hmeta').trans heq, fun hr' => ?_, hmeta' ▸ hauth⟩
    -- The child is live, so its parent is live too and was not collected.
    obtain ⟨hold', hlive'⟩ := hlive hr'
    exact hkept (hexpired hold') (heq ▸ live_parent hold hlive' hid)

theorem WellFormed.effect {reply : Reply V J} (h : WellFormed rules store)
    (heffect : Effect rules store reply store') : WellFormed rules store' := by
  cases heffect with
  | same _ hsame => exact h.same hsame
  | put hput =>
    rcases hput.stored with ⟨rfl, -⟩ | ⟨extra, hins⟩
    · exact h
    · exact h.inserts hins
  | collect clock => exact h.gc clock

/-- A call commits its effect or changes nothing. -/
theorem step_cases (rules : Rules V J) (store : Store V J) (op : Operation V J) :
    (∃ reply, execute rules store op = .ok (reply, step rules store op) ∧
      Effect rules store reply (step rules store op)) ∨ step rules store op = store := by
  cases hex : execute rules store op with
  | error e =>
    right
    simp only [step, hex]
  | ok out =>
    have hstep : step rules store op = out.2 := by simp only [step, hex]
    rw [hstep]
    exact .inl ⟨out.1, rfl, ensures_execute op out hex⟩

theorem WellFormed.step (h : WellFormed rules store) (op : Operation V J) :
    WellFormed rules (step rules store op) := by
  rcases step_cases rules store op with ⟨reply, -, heffect⟩ | heq
  · exact h.effect heffect
  · rw [heq]
    exact h

theorem WellFormed.foldl (h : WellFormed rules store) (ops : List (Operation V J)) :
    WellFormed rules (ops.foldl (Packets.step rules) store) := by
  induction ops generalizing store with
  | nil => exact h
  | cons op rest ih => exact ih (h.step op)

theorem wellFormed_run (ops : List (Operation V J)) : WellFormed rules (run rules ops) :=
  wellFormed_empty.foldl ops

end Invariant

end ProjectControl.Packets
