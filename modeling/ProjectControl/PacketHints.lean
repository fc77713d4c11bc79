import Mathlib
import ProjectControl.PacketLineage
import ProjectControl.WireSize

/-! Hints: the packets of a list of references that fit into a budget, and what was left out. -/

set_option autoImplicit false

namespace ProjectControl.Packets

open JsonText (wireSize textSize)

section Assembly

/-- The fields of a packet's `freshness`. -/
structure Freshness where
  dependencies : List (String × String)
  negative : Bool
  volatile : Bool
  maxAgeSeconds : ℚ

/-- How packets are read and dumped. -/
structure Dumps (V J : Type) where
  freshness : Option J → Freshness
  packet : Packet V J → Json
  source : SourceLocator → Json

inductive Change where
  | conflicting (dependency : String) (expectedValues : List String)
  | unverified (dependency : String)
  | changed (dependency : String)
  | negativeScopeMissing
  | volatileExpired
  | manifestMissing

/-- `setdefault(key, set()).add(value)`. -/
def expect (expectations : List (String × List String)) (key value : String) :
    List (String × List String) :=
  if key ∈ expectations.map Prod.fst then
    expectations.map fun e =>
      if e.1 = key ∧ value ∉ e.2 then (key, e.2 ++ [value]) else e
  else expectations ++ [(key, [value])]

def expectations (freshness : Freshness) (sources : List SourceLocator) :
    List (String × List String) :=
  sources.foldl
    (fun found source =>
      expect found ("file:" ++ source.repository ++ "/" ++ source.path) source.contentSha256)
    (freshness.dependencies.map fun dependency => (dependency.1, [dependency.2]))

def checkDependency (current : String → Option String) (e : String × List String) :
    Option Change :=
  match e.2 with
  | [expected] =>
    match current e.1 with
    | none => some (.unverified e.1)
    | some actual => if actual = expected then none else some (.changed e.1)
  | values => some (.conflicting e.1 (values.insertionSort (· ≤ ·)))

def scopePrefixes : List String := ["discovery:", "directory_membership:", "exports:"]

variable {V J : Type} (rules : Rules V J) (dumps : Dumps V J)

def changes (current : String → Option String) (now : ℚ) (p : Packet V J) : List Change :=
  let freshness := dumps.freshness p.freshness
  let expected := expectations freshness p.sources
  expected.filterMap (checkDependency current) ++
    (if freshness.negative && !expected.any fun e =>
        scopePrefixes.any fun scope => scope.isPrefixOf e.1
      then [.negativeScopeMissing] else []) ++
    (if freshness.volatile && decide (freshness.maxAgeSeconds < now - rules.epoch p.createdAt)
      then [.volatileExpired] else []) ++
    (if expected.isEmpty && !freshness.volatile then [.manifestMissing] else [])

def freshnessText (stale : Bool) : String := if stale then "stale" else "current"

structure Provenance where
  reference : String
  packetId : String
  sources : List SourceLocator
  stale : Bool

def Provenance.toJson (p : Provenance) : Json :=
  .obj [("freshness", .str (freshnessText p.stale)), ("packet_id", .str p.packetId),
    ("reference", .str p.reference), ("sources", .arr (p.sources.map dumps.source))]

structure Item (V J : Type) where
  packet : Packet V J
  stale : Bool
  alsoFrom : List Provenance

def Item.fields (item : Item V J) : Dict :=
  [("freshness", .str (freshnessText item.stale)), ("packet", dumps.packet item.packet)]

def Item.toJson (item : Item V J) : Json :=
  if item.alsoFrom = [] then .obj (item.fields dumps)
  else .obj (("also_from", .arr (item.alsoFrom.map (Provenance.toJson dumps))) :: item.fields dumps)

inductive Omission (J : Type) where
  | status (reference status : String)
  | stale (reference : String) (dependencies : List Change)
  | producer (reference : String) (detail : J)
  | duplicate (reference : String)
  | budget (reference : String) (neededBytes : ℕ)

/-- The packets and omissions so far, and the bytes counted for them. -/
structure Assembled (V J : Type) where
  items : List (Item V J) := []
  omissions : List (Omission J) := []
  used : ℕ := 0

def statusText {V J : Type} : PacketLookup V J → String
  | .notFound => "not_found"
  | .forbidden => "forbidden"
  | .expired => "expired"
  | .ok _ => "ok"

variable [DecidableEq J] (store : Store V J) (scope : Scope J) (current : String → Option String)
  (clock : Clock) (now : ℕ → ℚ) (budget : ℤ)

/-- What the omissions say about a packet, whether it is returned or not. -/
def noted (reference : String × ℕ) (p : Packet V J) : List (Omission J) :=
  let changed := changes rules dumps current (now reference.2) p
  (if changed.isEmpty then [] else [.stale reference.1 changed]) ++
    (p.omissions.getD []).map (Omission.producer reference.1)

def staleAt (reference : String × ℕ) (p : Packet V J) : Bool :=
  !(changes rules dumps current (now reference.2) p).isEmpty

def provenance (reference : String × ℕ) (p : Packet V J) : Provenance :=
  ⟨reference.1, p.packetId, p.sources, staleAt rules dumps current now reference p⟩

def Assembled.seen (a : Assembled V J) (p : Packet V J) : Bool :=
  a.items.any fun item => item.packet.payloadSha256 = p.payloadSha256

/-- One more origin of a payload that is there. -/
def Item.appendOrigin (item : Item V J) (p : Packet V J) (origin : Provenance) : Item V J :=
  if item.packet.payloadSha256 = p.payloadSha256 then
    { item with alsoFrom := item.alsoFrom ++ [origin] }
  else item

/-- The body of the loop for a packet. -/
def addPacket (a : Assembled V J) (reference : String × ℕ) (p : Packet V J) : Assembled V J :=
  let omissions := a.omissions ++ noted rules dumps current now reference p
  if a.seen p then
    let origin := provenance rules dumps current now reference p
    let size := wireSize (origin.toJson dumps)
    if (a.used + size : ℕ) ≤ budget then
      ⟨a.items.map (Item.appendOrigin · p origin), omissions ++ [.duplicate reference.1],
        a.used + size⟩
    else ⟨a.items, omissions ++ [.budget reference.1 size], a.used⟩
  else
    let item : Item V J := ⟨p, staleAt rules dumps current now reference p, []⟩
    let size := wireSize (item.toJson dumps)
    if budget < (a.used + size : ℕ) then
      ⟨a.items, omissions ++ [.budget reference.1 size], a.used⟩
    else ⟨a.items ++ [item], omissions, a.used + size⟩

/-- The body of the loop. -/
def addReference (a : Assembled V J) (reference : String × ℕ) :
    Except Failure (Assembled V J) := do
  match ← lookup rules store (clock reference.2) reference.1 scope with
  | .ok p => pure (addPacket rules dumps current now budget a reference p)
  | other =>
    pure { a with omissions := a.omissions ++ [.status reference.1 (statusText other)] }

/-- `assemble_hints`. -/
def assembleHints (references : List String) : Except Failure (Assembled V J) :=
  references.eraseDups.zipIdx.foldlM
    (addReference rules dumps store scope current clock now budget) {}

end Assembly

section Accounts

variable {V J : Type} [DecidableEq J] (rules : Rules V J) (dumps : Dumps V J)
  (store : Store V J) (scope : Scope J) (current : String → Option String) (clock : Clock)
  (now : ℕ → ℚ) (budget : ℤ)

def Omission.reference : Omission J → String
  | .status reference _ | .stale reference _ | .producer reference _ | .duplicate reference
  | .budget reference _ => reference

/-- Omissions that say why a packet is not there. -/
def Omission.excludes : Omission J → Bool
  | .status _ _ | .budget _ _ => true
  | _ => false

/-- An item, one of its origins or an omission stands for the reference. -/
def Represented (a : Assembled V J) (reference : String) : Prop :=
  (∃ item ∈ a.items, item.packet.packetId = reference ∨ item.packet.packetAlias = reference) ∨
    (∃ item ∈ a.items, ∃ origin ∈ item.alsoFrom, origin.reference = reference) ∨
      ∃ omission ∈ a.omissions, omission.excludes = true ∧ omission.reference = reference

/-- The bytes of the items are counted and within the budget, every reference is represented, and
no payload is there twice. -/
structure Accounted (references : List String) (a : Assembled V J) : Prop where
  counted : (a.items.map fun item => wireSize (item.toJson dumps)).sum ≤ a.used
  bounded : (a.used : ℤ) ≤ budget
  represented : ∀ reference ∈ references, Represented a reference
  unique : a.items.Pairwise fun item other => item.packet.payload ≠ other.packet.payload

/-- The branch in which a packet is merged into the item with its payload. -/
def Merges (a : Assembled V J) (reference : String × ℕ) : Prop :=
  ∃ p, lookup rules store (clock reference.2) reference.1 scope = .ok (.ok p) ∧ a.seen p = true ∧
    ((a.used + wireSize ((provenance rules dumps current now reference p).toJson dumps) : ℕ) : ℤ) ≤
      budget

/-- The branch is not taken for any of the references. -/
def NeverMerges : List (String × ℕ) → Assembled V J → Prop
  | [], _ => True
  | reference :: rest, a =>
    ¬Merges rules dumps store scope current clock now budget a reference ∧
      ∀ a', addReference rules dumps store scope current clock now budget a reference = .ok a' →
        NeverMerges rest a'

end Accounts

section Sizes

variable {V J : Type} {dumps : Dumps V J} {item : Item V J} {p : Packet V J} {origin : Provenance}

/-- What is counted for an item: itself and each origin when it was added. -/
def Item.counted (dumps : Dumps V J) (item : Item V J) : ℕ :=
  wireSize (.obj (item.fields dumps)) +
    (item.alsoFrom.map fun origin => wireSize (origin.toJson dumps)).sum

/-- The key, the brackets and the separators around the origins are not counted. -/
theorem size_item (dumps : Dumps V J) (item : Item V J) : wireSize (item.toJson dumps) =
    item.counted dumps +
      if item.alsoFrom = [] then 0 else item.alsoFrom.length + 14 := by
  have hkey : textSize "also_from" = 11 := by decide +kernel
  unfold Item.toJson Item.counted
  split_ifs with hnone
  · rw [hnone, List.map_nil, List.sum_nil, Nat.add_zero, Nat.add_zero]
  · obtain ⟨origin, rest, hsome⟩ := List.exists_cons_of_ne_nil hnone
    have hobject : wireSize (.obj (item.fields dumps)) =
        JsonText.entriesSize (item.fields dumps) + 1 := JsonText.wireSize_object _ _ _
    have hsizes : (item.alsoFrom.map (Provenance.toJson dumps)).map wireSize =
        item.alsoFrom.map fun origin => wireSize (origin.toJson dumps) := by
      rw [List.map_map]
      rfl
    have harray : wireSize (.arr (item.alsoFrom.map (Provenance.toJson dumps))) =
        (item.alsoFrom.map fun origin => wireSize (origin.toJson dumps)).sum +
          item.alsoFrom.length + 1 := by
      rw [← hsizes, hsome, List.map_cons, JsonText.wireSize_array, List.length_cons,
        List.length_map, List.length_cons]
    rw [JsonText.wireSize_object, JsonText.entriesSize_cons, hkey, harray, hobject]
    omega

theorem counted_appendOrigin (h : item.packet.payloadSha256 = p.payloadSha256) :
    (item.appendOrigin p origin).counted dumps =
      item.counted dumps + wireSize (origin.toJson dumps) := by
  rw [Item.appendOrigin, if_pos h]
  simp only [Item.counted, Item.fields, List.map_append, List.map_singleton, List.sum_append,
    List.sum_singleton]
  omega

theorem appendOrigin_packet : (item.appendOrigin p origin).packet = item.packet := by
  unfold Item.appendOrigin
  split_ifs
  · rfl
  · rfl

/-- Only the item with the payload gets the origin. -/
theorem counted_items {items : List (Item V J)}
    (hdistinct : items.Pairwise fun item other =>
      item.packet.payloadSha256 ≠ other.packet.payloadSha256)
    (hseen : ∃ item ∈ items, item.packet.payloadSha256 = p.payloadSha256) :
    ((items.map (Item.appendOrigin · p origin)).map (Item.counted dumps)).sum =
      (items.map (Item.counted dumps)).sum + wireSize (origin.toJson dumps) := by
  induction items with
  | nil =>
    obtain ⟨item, hitem, -⟩ := hseen
    cases hitem
  | cons first rest ih =>
    obtain ⟨hfirst, hrest⟩ := List.pairwise_cons.mp hdistinct
    rw [List.map_cons, List.map_cons, List.sum_cons, List.map_cons, List.sum_cons]
    by_cases hsame : first.packet.payloadSha256 = p.payloadSha256
    · have hothers : rest.map (Item.appendOrigin · p origin) = rest := by
        rw [List.map_congr_left (g := id), List.map_id]
        intro other hother
        exact if_neg fun heq => hfirst other hother (hsame.trans heq.symm)
      rw [counted_appendOrigin hsame, hothers]
      omega
    · have hkept : first.appendOrigin p origin = first := if_neg hsame
      obtain ⟨item, hitem, heq⟩ := hseen
      rcases List.mem_cons.mp hitem with rfl | hitem
      · exact absurd heq hsame
      · rw [hkept, ih hrest ⟨item, hitem, heq⟩]
        omega

end Sizes

section Steps

variable {V J : Type} [DecidableEq J] {rules : Rules V J} {dumps : Dumps V J}
  {store : Store V J} {scope : Scope J} {current : String → Option String} {clock : Clock}
  {now : ℕ → ℚ} {budget : ℤ} {a a' : Assembled V J} {p : Packet V J} {reference : String × ℕ}

/-- What holds between the references. -/
structure Sound (rules : Rules V J) (dumps : Dumps V J) (budget : ℤ) (done : List String)
    (a : Assembled V J) : Prop where
  used : a.used = (a.items.map (Item.counted dumps)).sum
  bounded : 0 ≤ budget → (a.used : ℤ) ≤ budget
  represented : ∀ reference ∈ done, Represented a reference
  distinct : a.items.Pairwise fun item other =>
    item.packet.payloadSha256 ≠ other.packet.payloadSha256
  digest : ∀ item ∈ a.items, rules.digest item.packet.payload = item.packet.payloadSha256

omit [DecidableEq J] in
theorem seen_iff : a.seen p = true ↔
    ∃ item ∈ a.items, item.packet.payloadSha256 = p.payloadSha256 := by
  simp only [Assembled.seen, List.any_eq_true, decide_eq_true_eq]

omit [DecidableEq J] in
/-- Items and origins stay, and so do the omissions. -/
theorem Represented.addPacket {other : String} (h : Represented a other) :
    Represented (addPacket rules dumps current now budget a reference p) other := by
  unfold Packets.addPacket
  have homissions (omission : Omission J) (rest : List (Omission J)) (hmem : omission ∈ a.omissions) :
      omission ∈ a.omissions ++ noted rules dumps current now reference p ++ rest :=
    List.mem_append_left _ (List.mem_append_left _ hmem)
  have hitems (origin : Provenance) (item : Item V J) (hitem : item ∈ a.items) :
      item.appendOrigin p origin ∈ a.items.map (Item.appendOrigin · p origin) :=
    List.mem_map_of_mem hitem
  rcases h with ⟨item, hitem, hname⟩ | ⟨item, hitem, origin, horigin, hname⟩ |
    ⟨omission, hmem, hexcludes⟩
  · dsimp only
    split_ifs
    · refine .inl ⟨_, hitems _ item hitem, ?_⟩
      rw [appendOrigin_packet]
      exact hname
    · exact .inl ⟨item, hitem, hname⟩
    · exact .inl ⟨item, hitem, hname⟩
    · exact .inl ⟨item, List.mem_append_left _ hitem, hname⟩
  · dsimp only
    split_ifs
    · refine .inr (.inl ⟨_, hitems _ item hitem, origin, ?_, hname⟩)
      unfold Item.appendOrigin
      split_ifs
      · exact List.mem_append_left _ horigin
      · exact horigin
    · exact .inr (.inl ⟨item, hitem, origin, horigin, hname⟩)
    · exact .inr (.inl ⟨item, hitem, origin, horigin, hname⟩)
    · exact .inr (.inl ⟨item, List.mem_append_left _ hitem, origin, horigin, hname⟩)
  · dsimp only
    split_ifs
    · exact .inr (.inr ⟨omission, homissions _ _ hmem, hexcludes⟩)
    · exact .inr (.inr ⟨omission, homissions _ _ hmem, hexcludes⟩)
    · exact .inr (.inr ⟨omission, homissions _ _ hmem, hexcludes⟩)
    · exact .inr (.inr ⟨omission, List.mem_append_left _ hmem, hexcludes⟩)

omit [DecidableEq J] in
/-- A packet is represented once it was looked at. -/
theorem represented_addPacket
    (hname : p.packetId = reference.1 ∨ p.packetAlias = reference.1) :
    Represented (addPacket rules dumps current now budget a reference p) reference.1 := by
  unfold addPacket
  dsimp only
  split_ifs with hseen
  · obtain ⟨item, hitem, hsame⟩ := seen_iff.mp hseen
    refine .inr (.inl ⟨_, List.mem_map_of_mem hitem,
      provenance rules dumps current now reference p, ?_, rfl⟩)
    rw [Item.appendOrigin, if_pos hsame]
    exact List.mem_append_right _ (List.mem_singleton_self _)
  · exact .inr (.inr ⟨_, List.mem_append_right _ (List.mem_singleton_self _), rfl, rfl⟩)
  · exact .inr (.inr ⟨_, List.mem_append_right _ (List.mem_singleton_self _), rfl, rfl⟩)
  · exact .inl ⟨_, List.mem_append_right _ (List.mem_singleton_self _), hname⟩

omit [DecidableEq J] in
theorem Sound.addPacket {done : List String} (h : Sound rules dumps budget done a)
    (hname : p.packetId = reference.1 ∨ p.packetAlias = reference.1)
    (hdigest : rules.digest p.payload = p.payloadSha256) :
    Sound rules dumps budget (done ++ [reference.1])
      (addPacket rules dumps current now budget a reference p) := by
  have hrepresented (other : String) (hother : other ∈ done ++ [reference.1]) :
      Represented (Packets.addPacket rules dumps current now budget a reference p) other := by
    rcases List.mem_append.mp hother with hdone | hlast
    · exact (h.represented other hdone).addPacket
    · rw [List.mem_singleton.mp hlast]
      exact represented_addPacket hname
  revert hrepresented
  unfold Packets.addPacket
  dsimp only
  split_ifs with hseen hfits hfull
  · intro hrepresented
    refine ⟨?_, fun _ => hfits, hrepresented, ?_, ?_⟩
    · dsimp only
      rw [counted_items h.distinct (seen_iff.mp hseen), h.used]
    · rw [List.pairwise_map]
      refine h.distinct.imp fun hne => ?_
      rwa [appendOrigin_packet, appendOrigin_packet]
    · intro item hitem
      obtain ⟨old, hold, rfl⟩ := List.mem_map.mp hitem
      rw [appendOrigin_packet]
      exact h.digest old hold
  · exact fun hrepresented => ⟨h.used, h.bounded, hrepresented, h.distinct, h.digest⟩
  · exact fun hrepresented => ⟨h.used, h.bounded, hrepresented, h.distinct, h.digest⟩
  · intro hrepresented
    refine ⟨?_, fun _ => not_lt.mp hfull, hrepresented, ?_, ?_⟩
    · have hone : wireSize (Item.toJson dumps ⟨p, staleAt rules dumps current now reference p, []⟩) =
          Item.counted dumps ⟨p, staleAt rules dumps current now reference p, []⟩ :=
        size_item dumps _
      dsimp only
      rw [List.map_append, List.sum_append, List.map_singleton, List.sum_singleton, hone, h.used]
    · rw [List.pairwise_append]
      refine ⟨h.distinct, List.pairwise_singleton _ _, fun item hitem other hother heq => ?_⟩
      rw [List.mem_singleton.mp hother] at heq
      exact hseen (seen_iff.mpr ⟨item, hitem, heq⟩)
    · intro item hitem
      rcases List.mem_append.mp hitem with hold | hnew
      · exact h.digest item hold
      · rw [List.mem_singleton.mp hnew]
        exact hdigest

/-- A packet that a lookup returns has the name that was looked up, and its own digest. -/
theorem lookup_packet {clock : String → ℚ} {name : String}
    (h : lookup rules store clock name scope = .ok (.ok p)) :
    (p.packetId = name ∨ p.packetAlias = name) ∧ rules.digest p.payload = p.payloadSha256 := by
  unfold lookup at h
  cases hname : store.named? name with
  | none =>
    rw [hname] at h
    cases h
  | some r =>
    simp only [hname] at h
    split_ifs at h
    · cases h
    · cases h
    · have hread : readPacket rules store r = .ok p := by
        cases hread : readPacket rules store r with
        | error e =>
          rw [hread] at h
          cases h
        | ok q =>
          rw [hread] at h
          cases h
          rfl
      unfold readPacket at hread
      cases hbody : store.body? r.hash with
      | none =>
        rw [hbody] at hread
        cases hread
      | some payload =>
        simp only [hbody] at hread
        cases hvalid : (r.packet payload).error? rules with
        | some field =>
          rw [hvalid] at hread
          cases hread
        | none =>
          rw [hvalid] at hread
          cases hread
          refine ⟨?_, Packet.digest_of_valid hvalid⟩
          have hid : (r.packet payload).packetId = r.id := r.id_eq
          have halias : (r.packet payload).packetAlias = r.packetAlias := r.alias_eq
          rw [hid, halias]
          exact (mem_of_named? hname).2

/-- What a round of the loop does. -/
theorem addReference_cases
    (h : addReference rules dumps store scope current clock now budget a reference = .ok a') :
    (∃ p, lookup rules store (clock reference.2) reference.1 scope = .ok (.ok p) ∧
        a' = addPacket rules dumps current now budget a reference p) ∨
      (∀ p, lookup rules store (clock reference.2) reference.1 scope ≠ .ok (.ok p)) ∧
        ∃ status,
          a' = { a with omissions := a.omissions ++ [.status reference.1 status] } := by
  unfold addReference at h
  cases hlookup : lookup rules store (clock reference.2) reference.1 scope with
  | error e =>
    rw [hlookup] at h
    cases h
  | ok found =>
    rw [hlookup] at h
    cases found with
    | ok p =>
      cases h
      exact .inl ⟨p, rfl, rfl⟩
    | notFound =>
      cases h
      exact .inr ⟨nofun, _, rfl⟩
    | forbidden =>
      cases h
      exact .inr ⟨nofun, _, rfl⟩
    | expired =>
      cases h
      exact .inr ⟨nofun, _, rfl⟩

theorem Sound.addReference {done : List String} (h : Sound rules dumps budget done a)
    (hstep : addReference rules dumps store scope current clock now budget a reference = .ok a') :
    Sound rules dumps budget (done ++ [reference.1]) a' := by
  rcases addReference_cases hstep with ⟨p, hlookup, rfl⟩ | ⟨-, status, rfl⟩
  · obtain ⟨hname, hdigest⟩ := lookup_packet hlookup
    exact h.addPacket hname hdigest
  · refine ⟨h.used, h.bounded, fun other hother => ?_, h.distinct, h.digest⟩
    rcases List.mem_append.mp hother with hdone | hlast
    · rcases h.represented other hdone with hitem | horigin | ⟨omission, hmem, hexcludes⟩
      · exact .inl hitem
      · exact .inr (.inl horigin)
      · exact .inr (.inr ⟨omission, List.mem_append_left _ hmem, hexcludes⟩)
    · rw [List.mem_singleton.mp hlast]
      exact .inr (.inr ⟨_, List.mem_append_right _ (List.mem_singleton_self _), rfl, rfl⟩)

/-- No item has another origin. -/
def Plain (a : Assembled V J) : Prop := ∀ item ∈ a.items, item.alsoFrom = []

omit [DecidableEq J] in
theorem plain_addPacket : Plain (addPacket rules dumps current now budget a reference p) ↔
    Plain a ∧ ¬(a.seen p = true ∧ ((a.used + wireSize ((provenance rules dumps current now reference
      p).toJson dumps) : ℕ) : ℤ) ≤ budget) := by
  unfold addPacket Plain
  dsimp only
  split_ifs with hseen hfits hfull
  · refine iff_of_false (fun hplain => ?_) fun h => h.2 ⟨hseen, hfits⟩
    -- the item that was there has an origin now
    obtain ⟨item, hitem, hsame⟩ := seen_iff.mp hseen
    have hnone := hplain _ (List.mem_map_of_mem hitem)
    rw [Item.appendOrigin, if_pos hsame] at hnone
    exact List.append_ne_nil_of_right_ne_nil _ (List.cons_ne_nil _ _) hnone
  · exact (and_iff_left fun h => hfits h.2).symm
  · exact (and_iff_left fun h => hseen h.1).symm
  · rw [List.forall_mem_append, List.forall_mem_singleton]
    exact ⟨fun h => ⟨h.1, fun h' => hseen h'.1⟩, fun h => ⟨h.1, rfl⟩⟩

theorem plain_addReference
    (hstep : addReference rules dumps store scope current clock now budget a reference = .ok a') :
    Plain a' ↔ Plain a ∧
      ¬Merges rules dumps store scope current clock now budget a reference := by
  rcases addReference_cases hstep with ⟨p, hlookup, rfl⟩ | ⟨hother, status, rfl⟩
  · rw [plain_addPacket]
    refine and_congr_right fun _ => not_congr ⟨fun h => ⟨p, hlookup, h⟩, ?_⟩
    rintro ⟨q, hlookup', h⟩
    rw [hlookup] at hlookup'
    cases hlookup'
    exact h
  · exact (and_iff_left fun ⟨p, hlookup, _⟩ => hother p hlookup).symm

end Steps

section Runs

variable {V J : Type} [DecidableEq J] {rules : Rules V J} {dumps : Dumps V J}
  {store : Store V J} {scope : Scope J} {current : String → Option String} {clock : Clock}
  {now : ℕ → ℚ} {budget : ℤ} {a : Assembled V J}

/-- A loop keeps the books, and leaves items without further origins if it merges nothing. -/
theorem foldlM_addReference (references : List (String × ℕ)) {done : List String}
    (h : Sound rules dumps budget done a) :
    Ensures (references.foldlM (addReference rules dumps store scope current clock now budget) a)
      fun a' => Sound rules dumps budget (done ++ references.map Prod.fst) a' ∧
        (Plain a' ↔ Plain a ∧
          NeverMerges rules dumps store scope current clock now budget references a) := by
  induction references generalizing a done with
  | nil =>
    apply Ensures.pure
    rw [List.map_nil, List.append_nil]
    exact ⟨h, (and_iff_left trivial).symm⟩
  | cons reference rest ih =>
    rw [List.foldlM_cons]
    refine Ensures.bind Ensures.of_eq fun a₁ hstep => ?_
    refine (ih (h.addReference hstep)).mono fun a' hrest => ?_
    rw [List.append_assoc, List.singleton_append] at hrest
    refine ⟨hrest.1, ?_⟩
    rw [hrest.2, plain_addReference hstep, NeverMerges, and_assoc]
    refine and_congr_right fun _ => and_congr_right fun _ => ⟨fun hnever a₂ hstep' => ?_, ?_⟩
    · rw [hstep] at hstep'
      cases hstep'
      exact hnever
    · exact fun hnever => hnever a₁ hstep

omit [DecidableEq J] in
/-- The bytes of plain items are those that were counted. -/
theorem counted_iff_plain (h : a.used = (a.items.map (Item.counted dumps)).sum) :
    (a.items.map fun item => wireSize (item.toJson dumps)).sum ≤ a.used ↔ Plain a := by
  have hsum : (a.items.map fun item => wireSize (item.toJson dumps)).sum =
      a.used + (a.items.map fun item =>
        if item.alsoFrom = [] then 0 else item.alsoFrom.length + 14).sum := by
    rw [h, ← List.sum_map_add]
    congr 1
    exact List.map_congr_left fun item _ => size_item dumps item
  rw [hsum]
  constructor
  · intro hle item hitem
    have hzero : (a.items.map fun item =>
        if item.alsoFrom = [] then 0 else item.alsoFrom.length + 14).sum = 0 := by omega
    have hnone := List.sum_eq_zero_iff.mp hzero _ (List.mem_map_of_mem hitem)
    by_contra hsome
    rw [if_neg hsome] at hnone
    omega
  · intro hplain
    have hzero : (a.items.map fun item =>
        if item.alsoFrom = [] then 0 else item.alsoFrom.length + 14).sum = 0 := by
      rw [List.sum_eq_zero_iff]
      intro extra hextra
      obtain ⟨item, hitem, rfl⟩ := List.mem_map.mp hextra
      exact if_pos (hplain item hitem)
    omega

/-- The books are right exactly if the budget is not negative and nothing is merged. -/
theorem accounted_iff {references : List String}
    (h : assembleHints rules dumps store scope current clock now budget references = .ok a) :
    Accounted dumps budget references a ↔ 0 ≤ budget ∧
      NeverMerges rules dumps store scope current clock now budget references.eraseDups.zipIdx
        {} := by
  have hstart : Sound rules dumps budget [] ({} : Assembled V J) :=
    ⟨rfl, fun hbudget => hbudget, fun _ hnone => (nomatch hnone), .nil, fun _ hnone => nomatch hnone⟩
  obtain ⟨hsound, hplain⟩ := foldlM_addReference references.eraseDups.zipIdx hstart a h
  have hempty : Plain ({} : Assembled V J) := fun _ hnone => nomatch hnone
  rw [and_iff_right hempty] at hplain
  rw [← hplain]
  constructor
  · intro haccounted
    refine ⟨?_, (counted_iff_plain hsound.used).mp haccounted.counted⟩
    exact (Int.natCast_nonneg a.used).trans haccounted.bounded
  · rintro ⟨hbudget, hnone⟩
    refine ⟨(counted_iff_plain hsound.used).mpr hnone, hsound.bounded hbudget, ?_, ?_⟩
    · intro reference hreference
      apply hsound.represented
      rw [List.nil_append, List.zipIdx_map_fst, List.mem_eraseDups]
      exact hreference
    · refine hsound.distinct.imp_of_mem fun {item other} hitem hother hne heq => hne ?_
      rw [← hsound.digest item hitem, ← hsound.digest other hother, heq]

end Runs

section Example

def plainDumps : Dumps String String where
  freshness _ := ⟨[], false, false, 0⟩
  packet p := .obj [("packet_id", .str p.packetId), ("payload", .str p.payload)]
  source s := .obj [("path", .str s.path)]

/-- Two packets with one payload. -/
def twins : Store String String := run plainRules
  [.put (plainPacket "pkt_0001" "amber-birch" "a1" later []) (fun _ _ => 0),
    .put (plainPacket "pkt_0002" "cedar-dawn" "a1" later []) (fun _ _ => 0)]

def assembleTwins : Except Failure (Assembled String String) :=
  assembleHints plainRules plainDumps twins [("project", "demo")] (fun _ => none) (fun _ _ => 0)
    (fun _ => 0) 8192 ["pkt_0001", "pkt_0002"]

def assembledTwins : Assembled String String := assembleTwins.toOption.getD {}

theorem assembleTwins_ok : assembleTwins = .ok assembledTwins := by
  have hsome : assembleTwins.toOption.isSome = true := by decide +kernel
  obtain ⟨a, ha⟩ := Option.isSome_iff_exists.mp hsome
  rw [assembledTwins, ha, Option.getD_some]
  exact Ensures.ok_of_toOption ha

theorem twins_accounted_iff :
    Accounted plainDumps 8192 ["pkt_0001", "pkt_0002"] assembledTwins ↔ (0 : ℤ) ≤ 8192 ∧
      NeverMerges plainRules plainDumps twins [("project", "demo")] (fun _ => none) (fun _ _ => 0)
        (fun _ => 0) 8192 ["pkt_0001", "pkt_0002"].eraseDups.zipIdx {} :=
  accounted_iff assembleTwins_ok

/-- The origin of the second packet is written with a key and brackets that nothing counts. -/
theorem also_from_is_not_counted : assembleTwins = .ok assembledTwins ∧
    ¬Accounted plainDumps 8192 ["pkt_0001", "pkt_0002"] assembledTwins := by
  refine ⟨assembleTwins_ok, fun h => ?_⟩
  have hcounted := h.counted
  revert hcounted
  decide +kernel

end Example

end ProjectControl.Packets
