import Mathlib.Data.Set.Function
import ProjectControl.PacketLineage

/-! A reference that a packet was stored under names that packet for ever. -/

set_option autoImplicit false

namespace ProjectControl.Packets

open Sql

variable {V J : Type} [DecidableEq J] {rules : Rules V J} {store store' : Store V J}

section Payloads

variable {p : Packet V J} {b : Body V} {documents : Set V}

/-- The payload that a call offers to the store. -/
def Operation.payload? (rules : Rules V J) : Operation V J → Option V
  | .create request _ _ => some (rules.maskPayload request.payload).1
  | .put p _ => some p.payload
  | .pin _ _ _ | .unpin _ | .retainJob _ _ _ _ _ | .reconcileRetention _ _ _
  | .putNote _ _ _ _ _ | .deleteNote _ _ | .gc _ => none

/-- The payloads that calls offer are among `documents`. -/
def Offers (rules : Rules V J) (documents : Set V) (ops : List (Operation V J)) : Prop :=
  ∀ op ∈ ops, ∀ v, op.payload? rules = some v → v ∈ documents

theorem ensures_createFrom_payload {request : CreateRequest V J} {now : ℚ}
    {attempts : List Attempt} : Ensures (createFrom rules store request now attempts)
      (fun out => out.1.payload = (rules.maskPayload request.payload).1) := by
  induction attempts with
  | nil => exact Ensures.throw
  | cons attempt rest ih =>
    unfold createFrom
    split
    · exact ih
    · exact ensures_putPacket.mono (fun out h => h.1.symm ▸ rfl)

/-- A call that returns a packet offered its payload. -/
theorem payload_of_reply {op : Operation V J}
    (h : execute rules store op = .ok (.packet p, store')) :
    op.payload? rules = some p.payload := by
  have hreply : Ensures (execute rules store op)
      (fun out => ∀ q, out.1 = .packet q → op.payload? rules = some q.payload) := by
    cases op with
    | create request now attempts =>
      refine Ensures.bind (Ensures.ite (fun _ => Ensures.error)
        (fun _ => ensures_createFrom_payload)) (fun out hout => Ensures.pure (fun q hq => ?_))
      cases hq
      exact congrArg some hout.symm
    | put p clock =>
      refine Ensures.bind ensures_putPacket (fun out hout => Ensures.pure (fun q hq => ?_))
      cases hq
      exact congrArg (fun p => some (Packet.payload p)) hout.1.symm
    | pin | retainJob | reconcileRetention | putNote =>
      exact Ensures.bind Ensures.of_eq (fun _ _ => Ensures.pure (fun q hq => by cases hq))
    | unpin | deleteNote | gc => exact Ensures.pure (fun q hq => by cases hq)
  exact hreply _ h p rfl

theorem bodies_step {op : Operation V J} (hop : ∀ v, op.payload? rules = some v → v ∈ documents)
    (h : ∀ b ∈ store.bodies, b.payload ∈ documents) :
    ∀ b ∈ (step rules store op).bodies, b.payload ∈ documents := by
  rcases step_cases rules store op with ⟨reply, hex, heffect⟩ | heq
  · revert hex
    generalize step rules store op = store' at heffect ⊢
    intro hex b hb
    cases heffect with
    | same _ hsame => exact h b (hsame.2 ▸ hb)
    | put hput =>
      rcases hput.stored with ⟨rfl, -⟩ | ⟨extra, hins⟩
      · exact h b hb
      · rcases hins.bodies b hb with hb | rfl
        · exact h b hb
        · exact hop _ (payload_of_reply hex)
    | collect clock => exact h b (of_mem_gc_bodies hb)
  · rw [heq]
    exact h

/-- Every body that a run stores was offered by one of its calls. -/
theorem bodies_run {ops : List (Operation V J)} (h : Offers rules documents ops) :
    ∀ b ∈ (run rules ops).bodies, b.payload ∈ documents := by
  exact Runs.Along.invariant (I := fun store : Store V J => ∀ b ∈ store.bodies, b.payload ∈ documents)
    (Runs.along_of_forall h) (fun store op hs hop => bodies_step hop hs) (fun b hb => nomatch hb)

end Payloads

section Binding

variable {p q : Packet V J} {r : Row J} {reference : String} {clock : Clock}

/-- The packet has a row, expired or not. -/
def Stored (store : Store V J) (p : Packet V J) : Prop :=
  ∃ r ∈ store.packets, r.metadata = p.toMetadata

theorem Stored.effect {reply : Reply V J} (h : Stored store p)
    (heffect : Effect rules store reply store') : Stored store' p := by
  obtain ⟨r, hr, hmeta⟩ := h
  cases heffect with
  | same _ hsame => exact ⟨r, hsame.1 ▸ hr, hmeta⟩
  | put hput =>
    rcases hput.stored with ⟨rfl, -⟩ | ⟨extra, hins⟩
    · exact ⟨r, hr, hmeta⟩
    · exact ⟨r, (hins.packets r).mpr (.inl hr), hmeta⟩
  | collect clock =>
    obtain ⟨new, hnew, hsame, -⟩ := mem_gc rules clock hr
    exact ⟨new, hnew, hsame.trans hmeta⟩

theorem Stored.foldl (h : Stored store p) (ops : List (Operation V J)) :
    Stored (ops.foldl (step rules) store) p := by
  induction ops generalizing store with
  | nil => exact h
  | cons op rest ih =>
    apply ih
    rcases step_cases rules store op with ⟨reply, -, heffect⟩ | heq
    · exact h.effect heffect
    · rw [heq]
      exact h

/-- A call that returns a packet has checked it and leaves it stored. -/
theorem stored_of_reply {op : Operation V J}
    (h : execute rules store op = .ok (.packet p, store')) :
    checkPacket rules p = .ok () ∧ Stored store' p := by
  have heffect := ensures_execute op _ h
  cases heffect with
  | same hreply => exact absurd rfl (hreply p)
  | put hput =>
    refine ⟨hput.checked, ?_⟩
    rcases hput.stored with ⟨rfl, hr⟩ | ⟨extra, hins⟩
    · exact hr
    · exact ⟨p.row extra, (hins.packets _).mpr (.inr rfl), rfl⟩

omit [DecidableEq J] in
theorem row?_of_stored (h : Stored store p) :
    ∃ r, store.row? p.packetId = some r ∧ r ∈ store.packets ∧ r.metadata = p.toMetadata := by
  obtain ⟨r, hr, hmeta⟩ := h
  have hid : r.id = p.packetId := by rw [← r.id_eq, hmeta]
  exact ⟨r, hid ▸ row?_of_mem hr, hr, hmeta⟩

/-- What an id or alias of a stored packet is answered with: the packet is the only one with
its metadata and a payload of its digest. -/
theorem lookup_of_stored (h : WellFormed rules store) (hp : Stored store p)
    (hunique : ∀ b ∈ store.bodies, rules.digest b.payload = p.payloadSha256 →
      b.payload = p.payload)
    (hreference : reference = p.packetId ∨ reference = p.packetAlias) (now : String → ℚ)
    (scope : Scope J) : lookup rules store now reference scope = .ok .forbidden ∨
      lookup rules store now reference scope = .ok .expired ∨
      lookup rules store now reference scope = .ok (.ok p) := by
  obtain ⟨r, hr, hmeta⟩ := hp
  have hname : store.named? reference = some r := by
    rcases hreference with rfl | rfl
    · have hid : r.id = p.packetId := by rw [← r.id_eq, hmeta]
      exact hid ▸ named?_id h hr
    · have halias : r.packetAlias = p.packetAlias := by rw [← r.alias_eq, hmeta]
      exact halias ▸ named?_alias h hr
  rcases lookup_cases h hname now scope with heq | heq | ⟨-, b, hb, hhash, heq⟩
  · exact .inl heq
  · exact .inr (.inl heq)
  · right
    right
    have hdigest : rules.digest b.payload = p.payloadSha256 := by
      rw [h.digest b hb, hhash, ← r.hash_eq, hmeta]
    have hpacket : r.packet b.payload = p :=
      Packet.eq_of_metadata hmeta (hunique b hb hdigest)
    rw [heq, hpacket]

/-- The identical packet is not written again. -/
theorem put_stored (hchecked : checkPacket rules p = .ok ()) (hp : Stored store p)
    (hexpired : ∀ r ∈ store.packets, r.id = p.packetId → r.expired = false) :
    execute rules store (.put p clock) = .ok (.packet p, store) := by
  obtain ⟨r, hrow, hr, hmeta⟩ := row?_of_stored hp
  have hfresh : r.expired = false := hexpired r hr (mem_of_row? hrow).2
  have hsame : ¬ (r.expired = true ∨ r.metadata ≠ p.toMetadata) := by simp [hfresh, hmeta]
  simp only [execute, put, putPacket, hchecked, hrow, if_neg hsame]
  rfl

theorem put_other (hp : Stored store p) (hvalid : p.error? rules = none)
    (hid : q.packetId = p.packetId) (hne : q ≠ p)
    (hunique : rules.digest q.payload = rules.digest p.payload → q.payload = p.payload) :
    ∃ e, execute rules store (.put q clock) = .error e := by
  cases hchecked : checkPacket rules q with
  | error e =>
    refine ⟨e, ?_⟩
    simp only [execute, put, putPacket, hchecked]
    rfl
  | ok u =>
    obtain ⟨r, hrow, hr, hmeta⟩ := row?_of_stored hp
    have hrow' : store.row? q.packetId = some r := hid ▸ hrow
    refine ⟨.value "immutable packet ID cannot be rebound", ?_⟩
    have hother : r.expired = true ∨ r.metadata ≠ q.toMetadata := by
      right
      intro hsame
      have hmetas : q.toMetadata = p.toMetadata := hsame.symm.trans hmeta
      have hhash : q.payloadSha256 = p.payloadSha256 := congrArg Metadata.payloadSha256 hmetas
      have hdigest : rules.digest q.payload = rules.digest p.payload := by
        rw [Packet.digest_of_valid (valid_of_checked hchecked), hhash,
          Packet.digest_of_valid hvalid]
      exact hne (Packet.eq_of_metadata hmetas (hunique hdigest))
    simp only [execute, put, putPacket, hchecked, hrow', if_pos hother]
    rfl

end Binding

section Runs

variable {p : Packet V J}

/-- The call returns a packet: it was stored, now or already. -/
def Returns (rules : Rules V J) (store : Store V J) (op : Operation V J) (p : Packet V J) : Prop :=
  execute rules store op = .ok (.packet p, step rules store op)

/-- In every run no id is an alias and an alias is of one packet. What `put` or `create` once
returned is what its id and its alias are answered with ever after, if at all; to store it
again changes nothing, and to store another packet under its id fails. -/
theorem references_are_never_rebound (rules : Rules V J) (documents : Set V)
    (hdigest : documents.InjOn rules.digest) (first rest : List (Operation V J))
    (op : Operation V J) (hoffers : Offers rules documents (first ++ op :: rest))
    (hop : Returns rules (run rules first) op p) :
    let store := run rules (first ++ op :: rest)
    (∀ a ∈ store.packets, ∀ b ∈ store.packets, a.id ≠ b.packetAlias ∧
      (a.packetAlias = b.packetAlias → a = b)) ∧
    (∀ reference, reference = p.packetId ∨ reference = p.packetAlias → ∀ now scope,
      lookup rules store now reference scope = .ok .forbidden ∨
      lookup rules store now reference scope = .ok .expired ∨
      lookup rules store now reference scope = .ok (.ok p)) ∧
    ((∀ r ∈ store.packets, r.id = p.packetId → r.expired = false) → ∀ clock,
      execute rules store (.put p clock) = .ok (.packet p, store)) ∧
    (∀ q : Packet V J, q.payload ∈ documents → q.packetId = p.packetId → q ≠ p → ∀ clock,
      (∃ e, execute rules store (.put q clock) = .error e) ∧
      step rules store (.put q clock) = store) := by
  intro store
  have h : WellFormed rules store := wellFormed_run _
  obtain ⟨hchecked, hstored⟩ := stored_of_reply hop
  have hvalid := valid_of_checked hchecked
  have hp : Stored store p := by
    have hrun : store = rest.foldl (step rules) (step rules (run rules first) op) := by
      simp only [store, run, List.foldl_append, List.foldl_cons]
    exact hrun ▸ hstored.foldl rest
  have hdocument : p.payload ∈ documents :=
    hoffers op (List.mem_append_right _ List.mem_cons_self) _ (payload_of_reply hop)
  refine ⟨fun a ha b hb => ⟨h.disjoint a ha b hb, eq_of_alias ha hb⟩,
    fun reference hreference now scope => ?_, fun hexpired clock => ?_,
    fun q hq hid hne clock => ?_⟩
  · refine lookup_of_stored h hp (fun b hb hhash => ?_) hreference now scope
    exact hdigest (bodies_run hoffers b hb) hdocument
      (hhash.trans (Packet.digest_of_valid hvalid).symm)
  · exact put_stored hchecked hp hexpired
  · have hfails : ∃ e, execute rules store (.put q clock) = .error e :=
      put_other hp hvalid hid hne (hdigest hq hdocument)
    obtain ⟨e, he⟩ := hfails
    refine ⟨⟨e, he⟩, ?_⟩
    simp only [step, he]

/-- The id of a collected packet is not given to another. -/
theorem collected_id_stays_taken :
    ∃ e, execute plainRules (run plainRules
      ([] ++ .put (plainPacket "pkt_0001" "amber-birch" "a1" earlier []) (fun _ _ => 0) ::
        [.gc (fun _ => 15)]))
      (.put (plainPacket "pkt_0001" "amber-birch" "b2" later []) (fun _ _ => 20)) = .error e := by
  have hdigest : ({"a1", "b2"} : Set String).InjOn plainRules.digest := by
    rintro v (rfl | rfl) w (rfl | rfl) hvw
    · rfl
    · exact absurd hvw (by decide +kernel)
    · exact absurd hvw (by decide +kernel)
    · rfl
  have hoffers : Offers plainRules {"a1", "b2"}
      ([] ++ .put (plainPacket "pkt_0001" "amber-birch" "a1" earlier []) (fun _ _ => 0) ::
        [.gc (fun _ => 15)]) := by
    intro op hop v hv
    rcases List.mem_cons.mp hop with rfl | hop
    · cases hv
      exact .inl rfl
    · rw [List.mem_singleton.mp hop] at hv
      cases hv
  have hreturns : Returns plainRules (run plainRules [])
      (.put (plainPacket "pkt_0001" "amber-birch" "a1" earlier []) (fun _ _ => 0))
      (plainPacket "pkt_0001" "amber-birch" "a1" earlier []) := by rfl
  exact ((references_are_never_rebound plainRules _ hdigest [] _ _ hoffers hreturns).2.2.2
    (plainPacket "pkt_0001" "amber-birch" "b2" later []) (.inr rfl) rfl (by decide +kernel)
    (fun _ _ => 20)).1

end Runs

end ProjectControl.Packets
