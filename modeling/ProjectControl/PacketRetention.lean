import ProjectControl.PacketLineage

/-! A batch of retention is what a lookup and a pin of each reference in turn would do. -/

set_option autoImplicit false

namespace ProjectControl.Packets

open Sql

variable {V J : Type} {rules : Rules V J} {store store' : Store V J}

section Names

variable {r : Row J} {reference : String}

/-- No id is the alias of a packet, which `_put` sees to. -/
def Store.Unshadowed (store : Store V J) : Prop :=
  ∀ a ∈ store.packets, ∀ b ∈ store.packets, a.id ≠ b.packetAlias

theorem eq_of_name (h : store.Unshadowed) {a b : Row J} (ha : a ∈ store.packets)
    (hb : b ∈ store.packets) (hra : a.id = reference ∨ a.packetAlias = reference)
    (hrb : b.id = reference ∨ b.packetAlias = reference) : a = b := by
  rcases hra with hra | hra <;> rcases hrb with hrb | hrb
  · exact eq_of_id ha hb (hra.trans hrb.symm)
  · exact absurd (hra.trans hrb.symm) (h a ha b hb)
  · exact absurd (hrb.trans hra.symm) (h b hb a ha)
  · exact eq_of_alias ha hb (hra.trans hrb.symm)

/-- The map of a batch and the query of a lookup find the same row. -/
theorem byReference_eq_named? (h : store.Unshadowed) (reference : String) :
    store.byReference reference = store.named? reference := by
  cases hname : store.named? reference with
  | none =>
    refine List.find?_eq_none.mpr (fun r hr => ?_)
    exact List.find?_eq_none.mp hname r (List.mem_reverse.mp hr)
  | some r =>
    obtain ⟨hr, hrname⟩ := mem_of_named? hname
    cases hfind : store.byReference reference with
    | none =>
      have hnone := List.find?_eq_none.mp hfind r (List.mem_reverse.mpr hr)
      exact absurd (decide_eq_true hrname) hnone
    | some q =>
      obtain ⟨hq, hqname⟩ := mem_of_byReference hfind
      rw [eq_of_name h hq hr hqname hrname]

end Names

section Pins

variable {pins : Table Pin (· ≠ ·)} {new : List Pin} {pin : Pin} {clock : String → ℚ} {id : String}

theorem mem_pinAll : pin ∈ pinAll pins new ↔ pin ∈ pins ∨ pin ∈ new := by
  induction new generalizing pins with
  | nil => simp [pinAll]
  | cons first rest ih =>
    have hfirst : pin ∈ (pins.insert? first).getD pins ↔ pin ∈ pins ∨ pin = first := by
      constructor
      · exact Table.mem_insert?_getD
      · rintro (h | rfl)
        · exact Table.mem_insert?_getD_of_mem h
        · obtain ⟨a, ha, heq⟩ := Table.exists_mem_insert?_getD (t := pins) (r := pin)
          exact (heq.elim id not_not.mp) ▸ ha
    calc pin ∈ pinAll pins (first :: rest)
        ↔ pin ∈ (pins.insert? first).getD pins ∨ pin ∈ rest := ih
      _ ↔ (pin ∈ pins ∨ pin = first) ∨ pin ∈ rest := or_congr_left hfirst
      _ ↔ pin ∈ pins ∨ pin ∈ first :: rest := by rw [List.mem_cons, or_assoc]

theorem pinAll_append (first second : List Pin) :
    pinAll pins (first ++ second) = pinAll (pinAll pins first) second := List.foldl_append

/-- The store with more pins. -/
def Store.pinned (store : Store V J) (new : List Pin) : Store V J :=
  { store with pins := pinAll store.pins new }

/-- Pins of live packets make nothing else live: the live packets are closed under parents. -/
theorem mem_liveIds_pinned (hlive : ∀ pin ∈ new, pin.packet ∈ liveIds rules store clock) :
    id ∈ liveIds rules (store.pinned new) clock ↔ id ∈ liveIds rules store clock := by
  rw [mem_liveIds, mem_liveIds]
  constructor
  · rintro ⟨root, hroot, hreach⟩
    rcases hroot with ⟨pin, hpin, rfl⟩ | hfresh
    · rcases mem_pinAll.mp hpin with hold | hnew
      · exact ⟨pin.packet, .inl ⟨pin, hold, rfl⟩, hreach⟩
      · obtain ⟨root, hroot, hreach'⟩ := mem_liveIds.mp (hlive pin hnew)
        exact ⟨root, hroot, hreach'.trans hreach⟩
    · exact ⟨root, .inr hfresh, hreach⟩
  · rintro ⟨root, ⟨pin, hpin, rfl⟩ | hfresh, hreach⟩
    · exact ⟨pin.packet, .inl ⟨pin, mem_pinAll.mpr (.inl hpin), rfl⟩, hreach⟩
    · exact ⟨root, .inr hfresh, hreach⟩

end Pins

section Batch

variable [DecidableEq J] (rules store)

/-- A lookup of a reference for an owner and, if it is answered with a packet, its pin. -/
def lookupAndPin (clock : String → ℚ) (owner : String) (scope : Scope J) (store : Store V J)
    (reference : String) : Except Failure (Store V J) := do
  match ← lookup rules store clock reference scope with
  | .ok _ => pin rules store (fun _ => clock) owner [reference]
  | .notFound | .forbidden | .expired => pure store

/-- What a batch of retention stands for: its references one by one, then the owners that
are no longer retained. -/
def retainEach (clock : String → ℚ) (retained : List (String × Scope J × List String))
    (unpinOwners : List String) : Except Failure (Store V J) := do
  let store ← retained.foldlM (fun store item =>
    item.2.2.foldlM (lookupAndPin rules clock item.1 item.2.1) store) store
  pure (unpinOwners.foldl Store.unpin store)

/-- What holds between the references of a batch: the pins found are of live packets, and
what was validated once can be read. -/
structure Eligible.Sound (live : List String) (found : Eligible) : Prop where
  pins : ∀ pin ∈ found.pins, pin.packet ∈ live
  validated : ∀ r ∈ store.packets, r.id ∈ found.validated → ∃ p, readPacket rules store r = .ok p

variable {rules store} {clock : String → ℚ} {found : Eligible} {owner reference : String}
  {scope : Scope J}

omit [DecidableEq J] in
theorem foldl_unpin_eq (owners : List String) (store : Store V J) :
    owners.foldl Store.unpin store =
      { store with pins := (owners.foldl Store.unpin store).pins } := by
  induction owners generalizing store with
  | nil => rfl
  | cons owner rest ih => exact ih (store.unpin owner)

theorem lookup_readable {r : Row J} (hname : store.named? reference = some r)
    (hr : Readable rules store clock scope r) :
    lookup rules store clock reference scope = PacketLookup.ok <$> readPacket rules store r := by
  simp [lookup, hname, hr.permitted, hr.unexpired, hr.live]

theorem lookup_unreadable {r : Row J} (hname : store.named? reference = some r)
    (hr : ¬ Readable rules store clock scope r) :
    lookup rules store clock reference scope = .ok .forbidden ∨
      lookup rules store clock reference scope = .ok .expired := by
  cases hauth : authorized r.metadata.accessScope scope with
  | false =>
    left
    simp only [lookup, hname, hauth]
    rfl
  | true =>
    right
    have hdead : (r.expired || r.id ∉ liveIds rules store clock) = true := by
      by_contra hlive
      simp only [Bool.or_eq_true, not_or, Bool.not_eq_true, decide_eq_true_eq, not_not] at hlive
      exact hr ⟨(mem_of_named? hname).1, hauth, hlive.1, hlive.2⟩
    simp only [lookup, hname, hauth, hdead]
    rfl

theorem retain_readable {r : Row J} (hname : store.byReference reference = some r)
    (hr : Readable rules store clock scope r) :
    retainReference rules store (liveIds rules store clock) owner scope found reference =
      if r.id ∈ found.validated then pure ⟨found.pins ++ [⟨owner, r.id⟩], found.validated⟩
      else (fun _ => ⟨found.pins ++ [⟨owner, r.id⟩], r.id :: found.validated⟩) <$>
        readPacket rules store r := by
  simp [retainReference, hname, hr.permitted, hr.unexpired, hr.live]

theorem retain_unreadable {r : Row J} (hname : store.byReference reference = some r)
    (hr : ¬ Readable rules store clock scope r) :
    retainReference rules store (liveIds rules store clock) owner scope found reference =
      pure found := by
  have hskip : (!authorized r.metadata.accessScope scope || r.expired ||
      r.id ∉ liveIds rules store clock) = true := by
    by_contra hok
    simp only [Bool.or_eq_true, not_or, Bool.not_eq_true, Bool.not_eq_false', decide_eq_true_eq,
      not_not] at hok
    exact hr ⟨(mem_of_byReference hname).1, hok.1.1, hok.1.2, hok.2⟩
  simp only [retainReference, hname, hskip, if_true]

theorem lookup_pinned (hpins : ∀ pin ∈ found.pins, pin.packet ∈ liveIds rules store clock) :
    lookup rules (store.pinned found.pins) clock reference scope =
      lookup rules store clock reference scope := by
  have hlive (id : String) : (id ∉ liveIds rules (store.pinned found.pins) clock) =
      (id ∉ liveIds rules store clock) := by
    rw [mem_liveIds_pinned hpins]
  unfold lookup
  simp only [hlive]
  rfl

/-- A packet that can be read can be pinned, whatever the batch pinned before. -/
theorem pin_pinned (owner : String) {r : Row J} (hname : store.named? reference = some r)
    (hr : Readable rules store clock scope r)
    (hpins : ∀ pin ∈ found.pins, pin.packet ∈ liveIds rules store clock) :
    pin rules (store.pinned found.pins) (fun _ => clock) owner [reference] =
      .ok (store.pinned (found.pins ++ [⟨owner, r.id⟩])) := by
  have hname' : (store.pinned found.pins).named? reference = some r := hname
  have hlive : r.id ∈ liveIds rules (store.pinned found.pins) clock :=
    (mem_liveIds_pinned hpins).mpr hr.live
  have hround : pinReference rules (fun _ => clock) owner (store.pinned found.pins) (reference, 0) =
      .ok (store.pinned (found.pins ++ [⟨owner, r.id⟩])) := by
    simp only [pinReference, hname', hr.unexpired, hlive]
    simp only [Store.pinned, pinAll_append]
    rfl
  show (List.foldlM _ _ [(reference, 0)]) = _
  rw [List.foldlM_cons, hround]
  rfl

/-- One reference: the batch adds to its list what the lookup and the pin add to the store. -/
theorem lookupAndPin_pinned (owner : String) (scope : Scope J) (reference : String)
    (h : store.Unshadowed)
    (hfound : found.Sound rules store (liveIds rules store clock)) :
    lookupAndPin rules clock owner scope (store.pinned found.pins) reference =
      (fun found => store.pinned found.pins) <$>
        retainReference rules store (liveIds rules store clock) owner scope found reference := by
  unfold lookupAndPin
  rw [lookup_pinned hfound.pins]
  cases hname : store.named? reference with
  | none =>
    have hmap : store.byReference reference = none := (byReference_eq_named? h reference).trans hname
    simp only [lookup, retainReference, hname, hmap]
    rfl
  | some r =>
    have hmap : store.byReference reference = some r :=
      (byReference_eq_named? h reference).trans hname
    by_cases hr : Readable rules store clock scope r
    · have hpin := pin_pinned owner hname hr hfound.pins
      rw [lookup_readable hname hr, retain_readable hmap hr]
      by_cases hvalidated : r.id ∈ found.validated
      · obtain ⟨p, hp⟩ := hfound.validated r hr.mem hvalidated
        rw [if_pos hvalidated, hp]
        exact hpin
      · rw [if_neg hvalidated]
        cases hread : readPacket rules store r with
        | error e => rfl
        | ok p => exact hpin
    · rw [retain_unreadable hmap hr]
      rcases lookup_unreadable hname hr with heq | heq <;> rw [heq] <;> rfl

theorem Eligible.Sound.retain (owner : String) (scope : Scope J) (reference : String)
    (hfound : found.Sound rules store (liveIds rules store clock)) :
    Ensures (retainReference rules store (liveIds rules store clock) owner scope found reference)
      (Eligible.Sound rules store (liveIds rules store clock)) := by
  cases hmap : store.byReference reference with
  | none =>
    simp only [retainReference, hmap]
    exact Ensures.pure hfound
  | some r =>
    by_cases hr : Readable rules store clock scope r
    · rw [retain_readable hmap hr]
      have hpins : ∀ pin ∈ found.pins ++ [(⟨owner, r.id⟩ : Pin)], pin.packet ∈ liveIds rules store clock := by
        intro pin hpin
        rcases List.mem_append.mp hpin with hpin | hpin
        · exact hfound.pins pin hpin
        · rw [List.mem_singleton.mp hpin]
          exact hr.live
      refine Ensures.ite (fun _ => Ensures.pure ⟨hpins, hfound.validated⟩) (fun _ => ?_)
      refine Ensures.map (fun p hp => ⟨hpins, fun q hq hid => ?_⟩)
      rcases List.mem_cons.mp hid with hid | hid
      · exact ⟨p, eq_of_id hq hr.mem hid ▸ hp⟩
      · exact hfound.validated q hq hid
    · rw [retain_unreadable hmap hr]
      exact Ensures.pure hfound

/-- An error of one reference is the error of its lookup. -/
theorem raises_retain (owner : String) (h : store.Unshadowed) :
    Raises (retainReference rules store (liveIds rules store clock) owner scope found reference)
      (fun e => lookup rules store clock reference scope = .error e) := by
  cases hmap : store.byReference reference with
  | none =>
    simp only [retainReference, hmap]
    exact Raises.pure
  | some r =>
    by_cases hr : Readable rules store clock scope r
    · rw [retain_readable hmap hr]
      refine Raises.ite (fun _ => Raises.pure) (fun _ => ?_)
      refine Raises.map (fun e he => ?_)
      rw [lookup_readable ((byReference_eq_named? h reference).symm.trans hmap) hr, he]
      rfl
    · rw [retain_unreadable hmap hr]
      exact Raises.pure

/-- A batch of retention is the sequence of lookups and pins of its references, followed by the
release of the owners that are no longer retained. It changes pins only, and it raises, which
changes nothing, only if one of the lookups does. -/
theorem batch_retention_is_sequential (rules : Rules V J) (store : Store V J) (now : ℚ)
    (retained : List (String × Scope J × List String)) (unpinOwners : List String)
    (h : store.Unshadowed) :
    reconcileRetention rules store (fun _ => now) retained unpinOwners =
      retainEach rules store (fun _ => now) retained unpinOwners ∧
    (∀ store', reconcileRetention rules store (fun _ => now) retained unpinOwners = .ok store' →
      store' = { store with pins := store'.pins }) ∧
    (∀ e, reconcileRetention rules store (fun _ => now) retained unpinOwners = .error e →
      (∃ item ∈ retained, ∃ reference ∈ item.2.2,
        lookup rules store (fun _ => now) reference item.2.1 = .error e) ∧
      step rules store (.reconcileRetention retained unpinOwners (fun _ => now)) = store) := by
  have hround (owner : String) (scope : Scope J) (found : Eligible)
      (hfound : found.Sound rules store (liveIds rules store (fun _ => now)))
      (reference : String) := And.intro (hfound.retain owner scope reference)
    (lookupAndPin_pinned owner scope reference h hfound)
  have hloop : retained.foldlM (fun store item =>
      item.2.2.foldlM (lookupAndPin rules (fun _ => now) item.1 item.2.1) store)
        (store.pinned ({} : Eligible).pins) =
      (fun found => store.pinned found.pins) <$> retained.foldlM (fun found item =>
        item.2.2.foldlM (retainReference rules store (liveIds rules store (fun _ => now)) item.1
          item.2.1) found) ({} : Eligible) := by
    have hstart : Eligible.Sound rules store (liveIds rules store (fun _ => now)) {} :=
      ⟨fun _ hpin => absurd hpin List.not_mem_nil, fun _ _ hid => absurd hid List.not_mem_nil⟩
    refine Ensures.foldlM_simulates (fun found => store.pinned found.pins) hstart
      (fun found item _ hfound => ⟨?_, ?_⟩)
    · exact Ensures.foldlM hfound (fun found reference _ hfound =>
        (hround item.1 item.2.1 found hfound reference).1)
    · exact Ensures.foldlM_simulates _ hfound (fun found reference _ hfound =>
        hround item.1 item.2.1 found hfound reference)
  refine ⟨?_, fun store' hstore => ?_, fun e he => ⟨?_, ?_⟩⟩
  · show _ = retained.foldlM _ (store.pinned ({} : Eligible).pins) >>= _
    rw [hloop]
    unfold reconcileRetention
    cases hfound : retained.foldlM (fun found item => item.2.2.foldlM (retainReference rules store
      (liveIds rules store (fun _ => now)) item.1 item.2.1) found) ({} : Eligible) with
    | error e =>
      simp only [hfound]
      rfl
    | ok found =>
      simp only [hfound]
      rfl
  · have hpins : Ensures (reconcileRetention rules store (fun _ => now) retained unpinOwners)
        (fun store' => store' = { store with pins := store'.pins }) :=
      Ensures.bind (P := fun _ => True) (fun _ _ => trivial)
        (fun _ _ => Ensures.pure (foldl_unpin_eq unpinOwners { store with pins := _ }))
    exact hpins store' hstore
  · have hraises : Raises (reconcileRetention rules store (fun _ => now) retained unpinOwners)
        (fun e => ∃ item ∈ retained, ∃ reference ∈ item.2.2,
          lookup rules store (fun _ => now) reference item.2.1 = .error e) := by
      refine Raises.bind (Raises.foldlM (fun found item hitem => Raises.foldlM
        (fun found reference hreference e he => ?_))) (fun _ _ => Raises.pure)
      exact ⟨item, hitem, reference, hreference, raises_retain item.1 h e he⟩
    exact hraises e he
  · simp only [step, execute, he]
    rfl

end Batch

section Example

/-- A batch with a reference by alias, one out of scope and a stale owner. -/
theorem demo_batch_is_sequential :
    let store := run plainRules
      [.put (plainPacket "pkt_0001" "amber-birch" "a1" earlier []) (fun _ _ => 0),
        .put (plainPacket "pkt_0002" "cedar-dawn" "b2" later []) (fun _ _ => 0),
        .pin "job:1" ["pkt_0001"] (fun _ _ => 0)]
    reconcileRetention plainRules store (fun _ => 15)
        [("job:2", [("project", "demo")], ["amber-birch", "pkt_0002"]),
          ("job:3", [("project", "other")], ["pkt_0002"])] ["job:1"] =
      retainEach plainRules store (fun _ => 15)
        [("job:2", [("project", "demo")], ["amber-birch", "pkt_0002"]),
          ("job:3", [("project", "other")], ["pkt_0002"])] ["job:1"] :=
  (batch_retention_is_sequential plainRules _ 15 _ _ (wellFormed_run _).disjoint).1

end Example

end ProjectControl.Packets
