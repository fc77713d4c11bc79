import ProjectControl.PacketRuns

/-! A packet that can be read keeps all its ancestors readable, and no reachable store is
found corrupt. -/

set_option autoImplicit false

namespace ProjectControl.Packets

open Sql Relation

variable {V J : Type} [DecidableEq J] {rules : Rules V J} {store : Store V J}

section Reading

variable {r q : Row J} {p : Packet V J} {id reference : String} {clock : String → ℚ}
  {scope : Scope J}

/-- What `lookup` requires of the row that it finds. -/
structure Readable (rules : Rules V J) (store : Store V J) (clock : String → ℚ) (scope : Scope J)
    (r : Row J) : Prop where
  mem : r ∈ store.packets
  permitted : authorized r.metadata.accessScope scope = true
  unexpired : r.expired = false
  live : r.id ∈ liveIds rules store clock

theorem named?_id (h : WellFormed rules store) (hr : r ∈ store.packets) :
    store.named? r.id = some r := by
  refine Table.find?_eq_some hr (decide_eq_true (.inl rfl)) (fun a ha hname => ?_)
  rcases of_decide_eq_true hname with hid | halias
  · exact eq_of_id ha hr hid
  · exact absurd halias.symm (h.disjoint r hr a ha)

theorem named?_alias (h : WellFormed rules store) (hr : r ∈ store.packets) :
    store.named? r.packetAlias = some r := by
  refine Table.find?_eq_some hr (decide_eq_true (.inr rfl)) (fun a ha hname => ?_)
  rcases of_decide_eq_true hname with hid | halias
  · exact absurd hid (h.disjoint a ha r hr)
  · exact eq_of_alias ha hr halias

/-- The body of an unexpired row is there and validates. -/
theorem readPacket_of_unexpired (h : WellFormed rules store) (hr : r ∈ store.packets)
    (hexpired : r.expired = false) : ∃ b ∈ store.bodies, b.hash = r.hash ∧
      readPacket rules store r = .ok (r.packet b.payload) := by
  obtain ⟨b, hb, hhash⟩ := h.kept r hr hexpired
  have hdigest : rules.digest b.payload = r.hash := (h.digest b hb).trans hhash
  have hbody : store.body? r.hash = some b.payload := hhash ▸ body?_of_mem hb
  have hvalid := h.valid r hr b.payload hdigest
  refine ⟨b, hb, hhash, ?_⟩
  simp only [readPacket, hbody, hvalid]
  rfl

theorem lookup_of_readable (h : WellFormed rules store)
    (hr : Readable rules store clock scope r)
    (hname : store.named? reference = some r) : ∃ b ∈ store.bodies, b.hash = r.hash ∧
      lookup rules store clock reference scope = .ok (.ok (r.packet b.payload)) := by
  obtain ⟨b, hb, hhash, hread⟩ := readPacket_of_unexpired h hr.mem hr.unexpired
  refine ⟨b, hb, hhash, ?_⟩
  simp [lookup, hname, hr.permitted, hr.unexpired, hr.live, hread]

/-- What a lookup answers by the row that its reference names. -/
theorem lookup_cases (h : WellFormed rules store) (hname : store.named? reference = some r)
    (clock : String → ℚ) (scope : Scope J) :
    lookup rules store clock reference scope = .ok .forbidden ∨
    lookup rules store clock reference scope = .ok .expired ∨
    (Readable rules store clock scope r ∧ ∃ b ∈ store.bodies, b.hash = r.hash ∧
      lookup rules store clock reference scope = .ok (.ok (r.packet b.payload))) := by
  by_cases hauth : authorized r.metadata.accessScope scope = true
  · by_cases hlive : r.expired = false ∧ r.id ∈ liveIds rules store clock
    · have hread : Readable rules store clock scope r :=
        ⟨(mem_of_named? hname).1, hauth, hlive.1, hlive.2⟩
      exact .inr (.inr ⟨hread, lookup_of_readable h hread hname⟩)
    · right
      left
      have hdead : (r.expired || r.id ∉ liveIds rules store clock) = true := by
        by_cases hexpired : r.expired = true
        · rw [hexpired]
          rfl
        · rw [Bool.not_eq_true] at hexpired
          simpa [hexpired] using fun hmem => hlive ⟨hexpired, hmem⟩
      simp only [lookup, hname, hauth, hdead]
      rfl
  · left
    simp only [lookup, hname, hauth]
    rfl

theorem lookup_ok (h : WellFormed rules store)
    (hok : lookup rules store clock reference scope = .ok (.ok p)) :
    ∃ r, Readable rules store clock scope r ∧ p.packetId = r.id := by
  cases hname : store.named? reference with
  | none =>
    simp only [lookup, hname] at hok
    cases hok
  | some r =>
    rcases lookup_cases h hname clock scope with heq | heq | ⟨hr, b, -, -, heq⟩
    · rw [heq] at hok
      cases hok
    · rw [heq] at hok
      cases hok
    · rw [heq] at hok
      cases hok
      exact ⟨r, hr, r.id_eq⟩

/-- The parents of a readable packet are readable. -/
theorem Readable.parent (h : WellFormed rules store) (hr : Readable rules store clock scope r)
    (hid : id ∈ r.metadata.parents) : ∃ q, Readable rules store clock scope q ∧ q.id = id := by
  obtain ⟨q, hq, rfl, hexpired, hauth⟩ := h.lineage r hr.mem id hid
  exact ⟨q, ⟨hq, authorized_trans hauth hr.permitted, hexpired hr.unexpired,
    live_parent hr.mem hr.live hid⟩, rfl⟩

/-- Induction on the path from a packet to its ancestor. -/
theorem Readable.ancestor (h : WellFormed rules store) (hr : Readable rules store clock scope r)
    (hpath : TransGen (fun x y => y ∈ store.parentsOf x) r.id id) :
    ∃ q, Readable rules store clock scope q ∧ q.id = id := by
  induction hpath with
  | single hparent =>
    rw [parentsOf_of_mem hr.mem] at hparent
    exact hr.parent h hparent
  | tail _ hparent ih =>
    obtain ⟨q, hq, rfl⟩ := ih
    rw [parentsOf_of_mem hq.mem] at hparent
    exact hq.parent h hparent

end Reading

section Corruption

variable {r : Row J} {p : Packet V J} {extra : Option J} {clock : Clock} {scope : Scope J}

/-- A failure that does not report a corrupt store. -/
def Honest (e : Failure) : Prop := e ≠ .corruption

theorem honest_value (message : String) : Honest (.value message) := nofun

theorem honest_validation (field : String) : Honest (.validation field) := nofun

theorem honest_permission (message : String) : Honest (.permission message) := nofun

theorem honest_integrity : Honest .integrity := nofun

/-- A check that raises a `ValueError`. -/
theorem raises_guard {α : Type} {c : Prop} [Decidable c] {message : String}
    {x : Except Failure α} (h : Raises x Honest) :
    Raises (if c then throw (.value message) else x) Honest :=
  Raises.ite (fun _ => Raises.throw (honest_value message)) (fun _ => h)

theorem raises_putPacket : Raises (putPacket rules store clock p extra) Honest := by
  refine Raises.bind ?_ (fun _ _ => ?_)
  · unfold checkPacket
    split
    · exact Raises.throw (honest_validation _)
    · refine raises_guard ?_
      refine raises_guard ?_
      exact raises_guard Raises.pure
  split
  · exact raises_guard Raises.pure
  · refine Raises.bind ?_ (fun _ _ => Raises.pure)
    refine raises_guard ?_
    refine Raises.bind (Raises.forM (fun parent _ => ?_)) (fun _ _ => ?_)
    · unfold checkParent
      split
      · exact Raises.throw (honest_value _)
      · exact raises_guard Raises.pure
    · split
      · exact Raises.throw honest_integrity
      · exact Raises.pure

theorem raises_create {request : CreateRequest V J} {now : ℚ} {attempts : ℕ → Attempt} :
    Raises (create rules store request now attempts) Honest := by
  refine raises_guard ?_
  show Raises (createFrom rules store request now _) Honest
  induction (List.range 4096).map attempts with
  | nil => exact Raises.throw (fun h => absurd (Failure.runtime.inj h) (by decide))
  | cons attempt rest ih =>
    unfold createFrom
    split
    · exact ih
    · exact raises_putPacket

omit [DecidableEq J] in
theorem raises_pin {owner : String} {references : List String} :
    Raises (pin rules store clock owner references) Honest := by
  refine Raises.foldlM (fun db reference _ => ?_)
  unfold pinReference
  split
  · exact Raises.throw (honest_value _)
  · exact raises_guard Raises.pure

omit [DecidableEq J] in
theorem raises_retainJob {now : ℚ} {owner : String} {references : List String}
    {terminal : Bool} :
    Raises (retainJob rules store clock now owner references terminal) Honest := by
  refine Raises.bind raises_pin (fun db _ => ?_)
  dsimp only
  split
  · exact Raises.throw honest_integrity
  · exact Raises.pure

theorem raises_reconcileRetention (h : WellFormed rules store) {clock : String → ℚ}
    {retained : List (String × Scope J × List String)} {unpinOwners : List String} :
    Raises (reconcileRetention rules store clock retained unpinOwners) Honest := by
  refine Raises.bind (Raises.foldlM (fun pins item _ => Raises.foldlM (fun pins ref _ => ?_)))
    (fun _ _ => Raises.pure)
  unfold retainReference
  split
  · exact Raises.pure
  · rename_i r hname
    refine Raises.ite (fun _ => Raises.pure) (fun hok => ?_)
    have hexpired : r.expired = false := by
      simp only [Bool.or_eq_true, not_or, Bool.not_eq_true] at hok
      exact hok.1.2
    refine Raises.ite (fun _ => Raises.pure) (fun _ => ?_)
    obtain ⟨b, -, -, hread⟩ := readPacket_of_unexpired h (mem_of_byReference hname).1 hexpired
    rw [hread]
    exact Raises.pure

theorem raises_checkEvidence (h : WellFormed rules store) {live : List String}
    {sources : List SourceLocator} {id : String} :
    Raises (checkEvidence rules store live scope sources id) Honest := by
  unfold checkEvidence
  split
  · exact Raises.throw (honest_value _)
  · rename_i r hr
    refine Raises.ite (fun _ => Raises.throw (honest_value _)) (fun hok => ?_)
    refine Raises.ite (fun _ => Raises.throw (honest_permission _)) (fun _ => ?_)
    have hexpired : r.expired = false := by
      simp only [Bool.or_eq_true, not_or, Bool.not_eq_true] at hok
      exact hok.1
    obtain ⟨b, hb, hhash⟩ := h.kept r (mem_of_row? hr).1 hexpired
    have hbody : store.body? r.hash = some b.payload := hhash ▸ body?_of_mem hb
    rw [hbody]
    exact raises_guard Raises.pure

omit [DecidableEq J] in
theorem raises_validateNote {userGoal : Bool} {record : Note J} :
    Raises (validateNote rules userGoal record) Honest := by
  refine raises_guard ?_
  refine raises_guard ?_
  refine raises_guard ?_
  refine Raises.bind (Raises.forM (fun field _ => ?_)) (fun _ _ => ?_)
  · exact raises_guard Raises.pure
  refine raises_guard ?_
  refine raises_guard ?_
  refine raises_guard ?_
  refine raises_guard ?_
  refine Raises.bind (Raises.mapError honest_value) (fun details _ => ?_)
  refine raises_guard ?_
  refine raises_guard ?_
  exact raises_guard Raises.pure

theorem raises_putNote (h : WellFormed rules store) {now : ℚ} {clock : String → ℚ}
    {record : Note J} {userGoal : Bool} :
    Raises (putNote rules store clock now record scope userGoal) Honest := by
  refine Raises.bind raises_validateNote (fun value _ => ?_)
  refine Raises.bind ?_ (fun origin _ => ?_)
  · unfold noteOrigin
    split
    · exact Raises.pure
    · refine Raises.ite (fun _ => Raises.throw (honest_permission _)) (fun _ => ?_)
      exact Raises.ite (fun _ => Raises.throw (honest_permission _)) (fun _ => Raises.pure)
  refine Raises.bind ?_ (fun refs _ => ?_)
  · refine Raises.ite (fun _ => Raises.throw (honest_permission _)) (fun _ => ?_)
    refine Raises.ite (fun _ => Raises.throw (honest_permission _)) (fun _ => ?_)
    refine Raises.bind (Raises.foldlM (fun _ _ _ => raises_checkEvidence h)) (fun _ _ => ?_)
    exact raises_guard Raises.pure
  refine raises_guard ?_
  refine Raises.bind (Raises.foldlM (fun pins pin _ => ?_)) (fun pins _ => ?_)
  · unfold insertPin
    split
    · exact Raises.throw honest_integrity
    · exact Raises.pure
  · split
    · exact Raises.throw honest_integrity
    · exact Raises.pure

theorem raises_execute (h : WellFormed rules store) (op : Operation V J) :
    Raises (execute rules store op) Honest := by
  cases op with
  | create => exact Raises.bind raises_create (fun _ _ => Raises.pure)
  | put => exact Raises.bind raises_putPacket (fun _ _ => Raises.pure)
  | pin => exact Raises.bind raises_pin (fun _ _ => Raises.pure)
  | retainJob => exact Raises.bind raises_retainJob (fun _ _ => Raises.pure)
  | reconcileRetention =>
    exact Raises.bind (raises_reconcileRetention h) (fun _ _ => Raises.pure)
  | putNote => exact Raises.bind (raises_putNote h) (fun _ _ => Raises.pure)
  | unpin | deleteNote | gc => exact Raises.pure

/-- A lookup in a well-formed store raises nothing. -/
theorem lookup_total (h : WellFormed rules store) (clock : String → ℚ) (reference : String)
    (scope : Scope J) : ∃ found, lookup rules store clock reference scope = .ok found := by
  cases hname : store.named? reference with
  | none =>
    refine ⟨.notFound, ?_⟩
    simp only [lookup, hname]
    rfl
  | some r =>
    rcases lookup_cases h hname clock scope with heq | heq | ⟨-, b, -, -, heq⟩
    · exact ⟨_, heq⟩
    · exact ⟨_, heq⟩
    · exact ⟨_, heq⟩

end Corruption

section Runs

/-- After every run, with the same readings of the clock and under the same scope, the
ancestors of a packet that can be looked up can be looked up too; and neither a lookup nor
any other call reports a corrupt store. -/
theorem ancestors_stay_readable (rules : Rules V J) (ops : List (Operation V J))
    (clock : String → ℚ) (scope : Scope J) :
    (∀ reference p,
      lookup rules (run rules ops) clock reference scope = .ok (.ok p) →
      ∀ id, TransGen (fun x y => y ∈ (run rules ops).parentsOf x) p.packetId id →
      ∃ q, lookup rules (run rules ops) clock id scope = .ok (.ok q) ∧ q.packetId = id) ∧
    (∀ reference, ∃ found, lookup rules (run rules ops) clock reference scope = .ok found) ∧
    (∀ op, execute rules (run rules ops) op ≠ .error .corruption) := by
  have h : WellFormed rules (run rules ops) := wellFormed_run ops
  refine ⟨fun reference p hok id hpath => ?_, fun reference => lookup_total h clock reference scope,
    fun op herror => raises_execute h op _ herror rfl⟩
  obtain ⟨r, hr, hid⟩ := lookup_ok h hok
  rw [hid] at hpath
  obtain ⟨q, hq, rfl⟩ := hr.ancestor h hpath
  obtain ⟨b, -, -, hlookup⟩ := lookup_of_readable h hq (named?_id h hq.mem)
  exact ⟨q.packet b.payload, hlookup, q.id_eq⟩

/-- Two timestamps, of which the first is the earlier. -/
def earlier : String := "1970-01-01T00:00:10+00:00"

def later : String := "1970-01-01T00:00:20+00:00"

/-- A store of hexadecimal texts, each the end of its digest. -/
def plainRules : Rules String String where
  digest payload := String.ofList (List.replicate (64 - payload.length) '0' ++ payload.toList)
  maskPayload payload := (payload, [])
  unmasked _ := false
  unmaskedExtra _ := false
  size payload := payload.length
  maxPayloadBytes := 16
  timestamp text := text = earlier || text = later
  stamp _ := earlier
  epoch text := if text = earlier then 10 else 20
  recentTerminalLimit := 50
  text text := text
  preparedContext _ _ _ := false
  noteDetails details := .ok details
  unmaskedNote _ := false
  noteSize _ := 0

/-- A packet of that store. -/
def plainPacket (id name payload expiry : String) (parents : List String) :
    Packet String String where
  packetId := id
  packetAlias := name
  createdAt := earlier
  tool := "search"
  payloadSha256 := plainRules.digest payload
  sources := []
  parents := parents
  accessScope := [("project", "demo")]
  expiresAt := some expiry
  freshness := none
  omissions := none
  pinnedBy := none
  payload := payload

/-- A parent past its own expiry is collected with its child only. -/
theorem parent_of_live_child_is_kept :
    ∃ q, lookup plainRules (run plainRules
      [.put (plainPacket "pkt_0001" "amber-birch" "a1" earlier []) (fun _ _ => 0),
        .put (plainPacket "pkt_0002" "cedar-dawn" "b2" later ["pkt_0001"]) (fun _ _ => 0),
        .gc (fun _ => 15)])
      (fun _ => 15) "pkt_0001" [("project", "demo")] = .ok (.ok q) ∧ q.packetId = "pkt_0001" :=
  (ancestors_stay_readable plainRules _ (fun _ => 15) [("project", "demo")]).1 "cedar-dawn"
    (plainPacket "pkt_0002" "cedar-dawn" "b2" later ["pkt_0001"]) (by decide +kernel)
    "pkt_0001" (.single (by decide +kernel))

end Runs

end ProjectControl.Packets
