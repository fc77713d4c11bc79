import ProjectControl.MetadataStore
import ProjectControl.Transaction

/-! What a call of `amend` can do to the store. -/

set_option autoImplicit false

namespace ProjectControl.Metadata

open Sql

variable {J : Type} {s s' : Store J} {c : Call J} {project : String} {reply : Reply J}

section Lookups

variable {operationId : String}

theorem operation?_eq_some {op : OperationRow J} : s.operation? project operationId = some op ↔
    op ∈ s.operations ∧ op.project = project ∧ op.operationId = operationId := by
  constructor
  · intro h
    obtain ⟨hmem, hop⟩ := Table.mem_of_find? h
    simp only [Bool.and_eq_true, decide_eq_true_eq] at hop
    exact ⟨hmem, hop⟩
  · rintro ⟨hmem, rfl, rfl⟩
    refine Table.find?_eq_some hmem (by simp) (fun a ha hsame => ?_)
    simp only [Bool.and_eq_true, decide_eq_true_eq] at hsame
    exact Table.eq_of_mem (fun _ _ h => Ne.symm h) ha hmem
      (fun h => h (by rw [hsame.1, hsame.2]))

theorem operation?_eq_none : s.operation? project operationId = none ↔
    ∀ op ∈ s.operations, ¬ (op.project = project ∧ op.operationId = operationId) := by
  refine List.find?_eq_none.trans (forall₂_congr (fun op _ => not_congr ?_))
  rw [Bool.and_eq_true, decide_eq_true_eq, decide_eq_true_eq]

theorem preview?_eq_some {p : PreviewRow J} : s.preview? project operationId = some p ↔
    p ∈ s.previews ∧ p.project = project ∧ p.operationId = operationId := by
  constructor
  · intro h
    obtain ⟨hmem, hp⟩ := Table.mem_of_find? h
    simp only [Bool.and_eq_true, decide_eq_true_eq] at hp
    exact ⟨hmem, hp⟩
  · rintro ⟨hmem, rfl, rfl⟩
    refine Table.find?_eq_some hmem (by simp) (fun a ha hsame => ?_)
    simp only [Bool.and_eq_true, decide_eq_true_eq] at hsame
    exact Table.eq_of_mem (fun _ _ h => Ne.symm h) ha hmem
      (fun h => h (by rw [hsame.1, hsame.2]))

/-- The latest versions have different keys. -/
theorem currentByKey_of_mem {d : Declaration J} (hd : d ∈ s.latest project) :
    currentByKey (s.latest project) d.key = some d := by
  have hlatest {x : Declaration J} (hx : x ∈ s.latest project) : x ∈ s.declarations ∧
      x.project = project ∧ s.isLatest x = true := by
    have hx := List.mem_filter.mp ((List.mem_insertionSort _).mp hx)
    simp only [Bool.and_eq_true, decide_eq_true_eq] at hx
    exact hx
  have hsame {x : Declaration J} (hx : x ∈ s.latest project) (hkey : x.key = d.key) : x = d := by
    obtain ⟨hmem, hproject, hmax⟩ := hlatest hx
    obtain ⟨hmem', hproject', hmax'⟩ := hlatest hd
    have hle := List.all_eq_true.mp hmax d hmem'
    have hge := List.all_eq_true.mp hmax' x hmem
    simp [hproject, hproject', hkey] at hle hge
    exact Table.eq_of_mem (fun _ _ h => Ne.symm h) hmem hmem'
      (fun h => h (by rw [hproject, hproject', hkey, Nat.le_antisymm hge hle]))
  unfold currentByKey
  have hmem : d ∈ (s.latest project).filter (fun x => x.key = d.key) :=
    List.mem_filter.mpr ⟨hd, by simp⟩
  cases hlast : ((s.latest project).filter (fun x => x.key = d.key)).getLast? with
  | none => rw [List.getLast?_eq_none_iff.mp hlast] at hmem; cases hmem
  | some x =>
    have hx := List.mem_filter.mp (List.mem_of_getLast? hlast)
    rw [hsame hx.1 (by simpa using hx.2)]

theorem currentByKey_eq_some {latest : List (Declaration J)} {key : Key} {d : Declaration J}
    (h : currentByKey latest key = some d) : d ∈ latest ∧ d.key = key := by
  have hd := List.mem_filter.mp (List.mem_of_getLast? h)
  exact ⟨hd.1, by simpa using hd.2⟩

end Lookups

section Statements

variable {reader : Reader J} {hashes : Hashes J} {d : Draft J} {revision : ℕ}

theorem ensures_entities {id : String} {items : List J} :
    Ensures (entities reader id items) List.Nodup := by
  refine Ensures.bind (P := fun _ => True) (fun _ _ => trivial) (fun found _ => ?_)
  exact Ensures.pure ((List.perm_insertionSort _ _).nodup_iff.mpr (List.nodup_dedup _))

/-- Different entities have different invalidations. -/
theorem nodup_invalidations {ids : List String} (h : ids.Nodup) :
    (ids.flatMap (fun identity => ["graph", "search", "orientation"].map
      (fun kind => (⟨kind, identity⟩ : Invalidation)))).Nodup := by
  refine List.nodup_flatMap.mpr ⟨fun identity _ => ?_, h.imp (fun hne => ?_)⟩
  · exact List.Nodup.map (fun _ _ heq => (Invalidation.mk.inj heq).1) (by decide)
  · intro item hitem hitem'
    obtain ⟨_, -, rfl⟩ := List.mem_map.mp hitem
    obtain ⟨_, -, heq⟩ := List.mem_map.mp hitem'
    exact hne (Invalidation.mk.inj heq).2.symm

/-- The row that records an operation. -/
def operationRow (hashes : Hashes J) (c : Call J) (receipt : Receipt) : OperationRow J :=
  ⟨c.request.project, c.request.operationId, hashes.request c.request.toBody, c.request, receipt,
    c.clock⟩

def invalidationRow (c : Call J) (revision : ℕ) (item : Invalidation) : InvalidationRow :=
  ⟨c.request.project, revision, item.kind, item.entityId, c.request.action, c.clock⟩

theorem ensures_recordOperation {receipt : Receipt} :
    Ensures (recordOperation hashes s c receipt) (fun s' =>
      ∃ t, s.operations.insert? (operationRow hashes c receipt) = some t ∧
        s' = { s with operations := t }) := by
  unfold recordOperation
  dsimp only
  split
  · exact Ensures.throw
  · rename_i t hinsert
    exact Ensures.pure ⟨t, hinsert, rfl⟩

/-- The loop over the targets appends their rows. -/
theorem ensures_declare (keys : List Key) :
    Ensures (keys.foldlM (declare c d revision) s) (fun s' =>
      s'.declarations.rows = s.declarations.rows ++ keys.map (declared c d revision) ∧
      ∃ t, s' = { s with declarations := t }) := by
  induction keys generalizing s with
  | nil => exact Ensures.pure ⟨by simp, s.declarations, rfl⟩
  | cons key rest ih =>
    have hfirst : Ensures (declare c d revision s key) (fun s' =>
        s'.declarations.rows = s.declarations.rows ++ [declared c d revision key] ∧
        ∃ t, s' = { s with declarations := t }) := by
      unfold declare
      split
      · exact Ensures.throw
      · rename_i t hinsert
        exact Ensures.pure ⟨Table.rows_insert? hinsert, t, rfl⟩
    refine Ensures.bind hfirst (fun s₁ hs₁ => ih.mono (fun s₂ hs₂ => ?_))
    obtain ⟨hrows, t, rfl⟩ := hs₁
    obtain ⟨hrows', t', rfl⟩ := hs₂
    refine ⟨?_, t', rfl⟩
    rw [hrows', hrows, List.map_cons, List.append_assoc, List.singleton_append]

theorem invalidate_frame (items : List Invalidation) :
    ∃ t, items.foldl (invalidate c revision) s = { s with invalidations := t } := by
  induction items generalizing s with
  | nil => exact ⟨s.invalidations, rfl⟩
  | cons item rest ih =>
    obtain ⟨t, ht⟩ := ih (s := invalidate c revision s item)
    exact ⟨t, ht⟩

theorem invalidate_invalidations {s₁ : Store J} (items : List Invalidation)
    (h : s₁.invalidations = s.invalidations) :
    (items.foldl (invalidate c revision) s₁).invalidations =
      (items.foldl (invalidate c revision) s).invalidations := by
  induction items generalizing s s₁ with
  | nil => exact h
  | cons item rest ih =>
    refine ih ?_
    unfold invalidate
    rw [h]

end Statements

section Outcomes

variable [DecidableEq J] {reader : Reader J} {hashes : Hashes J} {prior : Option (PreviewRow J)}
  {d : Draft J}

/-- What a draft is made of. -/
structure DraftOf (reader : Reader J) (s : Store J) (c : Call J) (d : Draft J) : Prop where
  latest : d.latest = s.latest c.request.project
  rows : affectedRows reader c d.latest d.kind d.id = .ok d.affectedRows
  affected : d.review.affected = d.affectedRows.map Declaration.affected
  noop : d.noop = isNoop c.request (currentByKey d.latest (d.kind, d.id))
  invalidations : d.noop = true → d.review.invalidations = []
  distinct : d.review.invalidations.Nodup

theorem ensures_draft : Ensures (draft reader hashes s c) (DraftOf reader s c) := by
  unfold draft
  refine Ensures.bind (P := fun _ => True) (fun _ _ => trivial) (fun sources _ => ?_)
  dsimp only
  split
  · split
    · refine Ensures.bind Ensures.of_eq (fun rows hrows => ?_)
      refine Ensures.bind ensures_entities (fun ids hids => ?_)
      refine Ensures.pure ⟨rfl, hrows, rfl, rfl, fun h => if_pos h, ?_⟩
      dsimp only
      split
      · exact List.nodup_nil
      · exact nodup_invalidations hids
    · exact Ensures.throw
  · exact Ensures.throw

/-- A removal affects rows that stand; another action the declaration that it renews. -/
theorem affectedRows_cases {latest : List (Declaration J)} {kind id : String} :
    Ensures (affectedRows reader c latest kind id) (fun rows =>
      (c.request.action = .removeRegistration ∧ rows ≠ [] ∧ ∀ d ∈ rows, d ∈ latest) ∨
      (c.request.action ≠ .removeRegistration ∧ rows = (currentByKey latest (kind, id)).toList)) := by
  unfold affectedRows
  dsimp only
  refine Ensures.ite (fun hremoval => ?_) (fun hother => Ensures.pure (.inr ⟨hother, rfl⟩))
  split
  · exact Ensures.throw
  · rename_i row hcurrent
    refine Ensures.ite (fun _ => Ensures.throw) (fun _ => ?_)
    split
    · exact Ensures.throw
    · refine Ensures.ite (fun _ => Ensures.throw) (fun _ => ?_)
      refine Ensures.pure (.inl ⟨hremoval, List.cons_ne_nil _ _, fun d hd => ?_⟩)
      rcases List.mem_cons.mp hd with rfl | hd
      · exact (currentByKey_eq_some hcurrent).1
      · exact (List.mem_filter.mp hd).1

/-- A call replays a recorded operation, or it previews or applies a draft. -/
theorem amend_cases (h : amend reader hashes s c = .ok (s', reply)) :
    (∃ op, s.operation? c.request.project c.request.operationId = some op ∧ s' = s ∧
      replay hashes op c.request = .ok reply) ∨
    (s.operation? c.request.project c.request.operationId = none ∧
      (s.revision c.request.project : ℤ) = c.request.expectedRevision ∧ ∃ d, DraftOf reader s c d ∧
        ((c.request.mode = .preview ∧ previewAmendment hashes s c
            (s.preview? c.request.project c.request.operationId) d = .ok (s', reply)) ∨
          (c.request.mode = .apply ∧ applyAmendment hashes s c
            (s.preview? c.request.project c.request.operationId) d = .ok (s', reply)))) := by
  have hall : Ensures (amend reader hashes s c) (fun out =>
      (∃ op, s.operation? c.request.project c.request.operationId = some op ∧ out.1 = s ∧
        replay hashes op c.request = .ok out.2) ∨
      (s.operation? c.request.project c.request.operationId = none ∧
        (s.revision c.request.project : ℤ) = c.request.expectedRevision ∧
        ∃ d, DraftOf reader s c d ∧
          ((c.request.mode = .preview ∧ previewAmendment hashes s c
              (s.preview? c.request.project c.request.operationId) d = .ok out) ∨
            (c.request.mode = .apply ∧ applyAmendment hashes s c
              (s.preview? c.request.project c.request.operationId) d = .ok out)))) := by
    unfold amend
    dsimp only
    split
    · rename_i op hop
      refine Ensures.bind Ensures.of_eq (fun reply hreply => ?_)
      exact Ensures.pure (.inl ⟨op, hop, rfl, hreply⟩)
    · rename_i hnone
      refine Ensures.bind (P := fun _ => True) (fun _ _ => trivial) (fun _ _ => ?_)
      refine Ensures.ite (fun _ => Ensures.throw) (fun hrevision => ?_)
      have hrevision := not_not.mp hrevision
      refine Ensures.bind (x := draft reader hashes s c) ensures_draft (fun d hd => ?_)
      split
      · rename_i hmode
        exact Ensures.of_eq.mono (fun _ hout =>
          .inr ⟨hnone, hrevision, d, hd, .inl ⟨hmode, hout⟩⟩)
      · rename_i hmode
        exact Ensures.of_eq.mono (fun _ hout =>
          .inr ⟨hnone, hrevision, d, hd, .inr ⟨hmode, hout⟩⟩)
  exact hall _ h

/-- What a preview does. -/
theorem ensures_preview : Ensures (previewAmendment hashes s c prior d) (fun out =>
    out.1 = s ∨ prior = none ∧ ∃ t p, s.previews.insert? p = some t ∧
      p.project = c.request.project ∧ p.operationId = c.request.operationId ∧
      out.1 = { s with previews := t }) := by
  unfold previewAmendment
  dsimp only
  split
  · refine Ensures.ite (fun _ => Ensures.throw) (fun _ => ?_)
    exact Ensures.pure (.inl rfl)
  · split
    · exact Ensures.throw
    · rename_i t hinsert
      exact Ensures.pure (.inr ⟨rfl, t, _, hinsert, rfl, rfl, rfl⟩)

/-- An application that finds the declaration as it should be. -/
structure Stands (hashes : Hashes J) (s : Store J) (c : Call J) (d : Draft J) (s' : Store J)
    (receipt : Receipt) : Prop where
  noop : d.noop = true
  receives : receipt = ⟨.noop, c.request.operationId, s.revision c.request.project,
    d.review.affected, none, []⟩
  operations : s'.operations.rows = s.operations.rows ++ [operationRow hashes c receipt]
  previews : s'.previews = s.previews
  declarations : s'.declarations = s.declarations
  invalidations : s'.invalidations = s.invalidations
  projects : s'.projects = (rescope s c).projects

/-- An application that amends. -/
structure Amends (hashes : Hashes J) (s : Store J) (c : Call J) (d : Draft J) (s' : Store J)
    (receipt : Receipt) : Prop where
  noop : d.noop = false
  receives : receipt = ⟨.applied, c.request.operationId, s.revision c.request.project + 1,
    d.review.affected, some (d.change c.request), d.review.invalidations⟩
  operations : s'.operations.rows = s.operations.rows ++ [operationRow hashes c receipt]
  previews : s'.previews = s.previews
  declarations : s'.declarations.rows = s.declarations.rows ++
    (targets c d).map (declared c d (s.revision c.request.project + 1))
  invalidations : s'.invalidations = (d.review.invalidations.foldl
    (invalidate c (s.revision c.request.project + 1)) s).invalidations
  projects : s'.projects = (upsertProject s c (s.revision c.request.project + 1)).projects

/-- What an application does. -/
theorem ensures_apply : Ensures (applyAmendment hashes s c prior d) (fun out =>
    (∀ p, prior = some p → p.review = d.review) ∧
    ∃ receipt, out.2 = .receipt receipt.status.reply receipt ∧
      (Stands hashes s c d out.1 receipt ∨ Amends hashes s c d out.1 receipt)) := by
  unfold applyAmendment
  dsimp only
  refine Ensures.ite (fun _ => Ensures.throw) (fun hreview => ?_)
  have hsame (p : PreviewRow J) (hp : prior = some p) : p.review = d.review := by
    subst hp
    simpa using hreview
  refine Ensures.ite (fun hnoop => ?_) (fun hnoop => ?_)
  · refine Ensures.bind ensures_recordOperation (fun s₁ hs₁ => ?_)
    obtain ⟨t, hinsert, rfl⟩ := hs₁
    have hrows := Table.rows_insert? hinsert
    exact Ensures.pure ⟨hsame, _, rfl, .inl ⟨hnoop, rfl, hrows, rfl, rfl, rfl, rfl⟩⟩
  · refine Ensures.bind (ensures_declare _) (fun s₁ hs₁ => ?_)
    obtain ⟨hrows, t, rfl⟩ := hs₁
    -- The targets are declared before the invalidations are inserted.
    let s₁ := { upsertProject s c (s.revision c.request.project + 1) with declarations := t }
    obtain ⟨t', ht'⟩ : ∃ t', d.review.invalidations.foldl
        (invalidate c (s.revision c.request.project + 1)) s₁ = { s₁ with invalidations := t' } :=
      invalidate_frame _
    refine Ensures.bind ensures_recordOperation (fun s₂ hs₂ => ?_)
    obtain ⟨t'', hinsert, rfl⟩ := hs₂
    have hinvalid : (d.review.invalidations.foldl
        (invalidate c (s.revision c.request.project + 1)) s₁).invalidations =
        (d.review.invalidations.foldl
          (invalidate c (s.revision c.request.project + 1)) s).invalidations :=
      invalidate_invalidations _ rfl
    rw [ht'] at hinsert hinvalid
    refine Ensures.pure ⟨hsame, _, rfl, .inr ⟨by simpa using hnoop, rfl, ?_, ?_, ?_, ?_, ?_⟩⟩
    · exact Table.rows_insert? hinsert
    · dsimp only
      rw [ht']
      rfl
    · dsimp only
      rw [ht']
      exact hrows
    · dsimp only
      rw [ht']
      exact hinvalid
    · dsimp only
      rw [ht']

end Outcomes

end ProjectControl.Metadata
