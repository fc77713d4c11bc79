import ProjectControl.Json
import ProjectControl.MetadataOutcomes

/-! The metadata log over whole histories: revisions, versions, retries and previews. -/

set_option autoImplicit false

namespace ProjectControl.Metadata

open Sql

variable {J : Type} {s s' : Store J} {c : Call J} {project : String}

section Log

/-- The operations that were applied to a project, in their order. -/
def Store.applied (s : Store J) (project : String) : List (OperationRow J) :=
  s.operations.rows.filter (fun op => op.project = project && op.receipt.status = .applied)

/-- The stored versions of a declaration, in their order. -/
def Store.versions (s : Store J) (project : String) (key : Key) : List ℕ :=
  (s.declarations.rows.filter (fun d => d.project = project && d.key = key)).map (·.version)

/-- A recorded operation is filed under its own request. -/
structure Filed (hashes : Hashes J) (op : OperationRow J) : Prop where
  project : op.project = op.request.project
  operationId : op.operationId = op.request.operationId
  requestHash : op.requestHash = hashes.request op.request.toBody
  revision : op.receipt.status = .applied →
    (op.receipt.revision : ℤ) = op.request.expectedRevision + 1

/-- What holds of a store between two calls. -/
structure Sound (hashes : Hashes J) (s : Store J) : Prop where
  filed : ∀ op ∈ s.operations, Filed hashes op
  revisions : ∀ project,
    (s.applied project).map (·.receipt.revision) = List.range' 1 (s.revision project)
  versions : ∀ project key, ∃ n, s.versions project key = List.range' 1 n
  fresh : ∀ i ∈ s.invalidations, i.revision ≤ s.revision i.project
  reviewed : ∀ op ∈ s.operations, ∀ p ∈ s.previews, p.project = op.project →
    p.operationId = op.operationId → op.receipt.affected = p.review.affected ∧
      op.receipt.invalidations = p.review.invalidations

theorem sound_empty (hashes : Hashes J) : Sound hashes {} where
  filed _ h := nomatch h
  revisions _ := rfl
  versions _ _ := ⟨0, rfl⟩
  fresh _ h := nomatch h
  reviewed _ h := nomatch h

end Log

section Projects

theorem revision_congr (h : s'.projects = s.projects) : s'.revision project = s.revision project := by
  unfold Store.revision Store.projectRow?
  rw [h]

/-- An update that keeps the names of the projects changes the row that a lookup finds. -/
theorem find_update {rows : List ProjectRow} {f : ProjectRow → ProjectRow}
    (hf : ∀ row, (f row).project = row.project) :
    (rows.map f).find? (fun row => row.project = project) =
      (rows.find? (fun row => row.project = project)).map f := by
  rw [List.find?_map]
  congr 1
  refine congrArg (fun p => List.find? p rows) ?_
  funext row
  simp [hf]

theorem revision_rescope : (rescope s c).revision project = s.revision project := by
  unfold Store.revision Store.projectRow? rescope Table.update
  dsimp only
  rw [find_update (fun row => by split <;> rfl), Option.map_map]
  congr 2
  funext row
  dsimp only [Function.comp]
  split <;> rfl

theorem revision_upsert {n : ℕ} : (upsertProject s c n).revision project =
    if project = c.request.project then n else s.revision project := by
  unfold Store.revision Store.projectRow? upsertProject
  dsimp only
  cases hinsert : s.projects.insert? ⟨c.request.project, c.scopeDigest, n⟩ with
  | some t =>
    rw [Option.getD_some, Table.rows_insert? hinsert, List.find?_append]
    by_cases hp : project = c.request.project
    · subst hp
      have hnone : s.projects.rows.find? (fun row => row.project = c.request.project) = none := by
        refine List.find?_eq_none.mpr (fun row hrow hsame => ?_)
        have hfresh := mt (Table.insert?_eq_none (t := s.projects)
          (r := (⟨c.request.project, c.scopeDigest, n⟩ : ProjectRow))).mpr (by rw [hinsert]; simp)
        exact hfresh ⟨row, hrow, fun hne => hne (by simpa using hsame)⟩
      simp [hnone]
    · simp [hp, Ne.symm hp]
  | none =>
    obtain ⟨row, hrow, hsame⟩ := Table.insert?_eq_none.mp hinsert
    have hsame : row.project = c.request.project := not_not.mp hsame
    unfold Table.update
    rw [Option.getD_none]
    dsimp only
    rw [find_update (fun row => by split <;> rfl), Option.map_map]
    by_cases hp : project = c.request.project
    · subst hp
      cases hfind : s.projects.rows.find? (fun row => row.project = c.request.project) with
      | none => exact absurd (by simpa using hsame) (List.find?_eq_none.mp hfind row hrow)
      | some found =>
        have hfound : found.project = c.request.project := by
          simpa using List.find?_some hfind
        simp [hfound, setProject]
    · rw [if_neg hp]
      cases hfind : s.projects.rows.find? (fun row => row.project = project) with
      | none => rfl
      | some found =>
        have hfound : found.project = project := by simpa using List.find?_some hfind
        simp [hfound, hp]

end Projects

section Versions

/-- The latest version of a declaration is the number of its versions. -/
theorem current_version {n : ℕ} {key : Key} (h : s.versions project key = List.range' 1 n) :
    ((currentByKey (s.latest project) key).map (·.version + 1)).getD 1 = n + 1 := by
  have hrow {d : Declaration J} (hd : d ∈ s.declarations) (hproject : d.project = project)
      (hkey : d.key = key) : 1 ≤ d.version ∧ d.version < 1 + n := by
    have hmem : d.version ∈ s.versions project key :=
      List.mem_map_of_mem (List.mem_filter.mpr ⟨hd, by simp [hproject, hkey]⟩)
    rw [h] at hmem
    exact List.mem_range'_1.mp hmem
  cases n with
  | zero =>
    cases hcurrent : currentByKey (s.latest project) key with
    | none => rfl
    | some d =>
      obtain ⟨hd, hkey⟩ := currentByKey_eq_some hcurrent
      have hd := List.mem_filter.mp ((List.mem_insertionSort _).mp hd)
      simp only [Bool.and_eq_true, decide_eq_true_eq] at hd
      have := hrow hd.1 hd.2.1 hkey
      omega
  | succ n =>
    have hlast : n + 1 ∈ s.versions project key := by
      rw [h]
      exact List.mem_range'_1.mpr ⟨by omega, by omega⟩
    obtain ⟨d, hd, hversion⟩ := List.mem_map.mp hlast
    obtain ⟨hmem, hd⟩ := List.mem_filter.mp hd
    simp only [Bool.and_eq_true, decide_eq_true_eq] at hd
    have hmax : s.isLatest d = true := by
      refine List.all_eq_true.mpr (fun x hx => ?_)
      by_cases hsame : x.project = d.project ∧ x.key = d.key
      · have := hrow hx (hsame.1.trans hd.1) (hsame.2.trans hd.2)
        simp only [hsame.1, hsame.2, decide_true, Bool.and_self, Bool.not_true, Bool.false_or,
          decide_eq_true_eq]
        omega
      · simp only [Bool.or_eq_true, Bool.not_eq_true', Bool.and_eq_false_iff,
          decide_eq_false_iff_not, decide_eq_true_eq]
        exact .inl (not_and_or.mp hsame)
    have hlatest : d ∈ s.latest project :=
      (List.mem_insertionSort _).mpr (List.mem_filter.mpr ⟨hmem, by simp [hd.1, hmax]⟩)
    have hcurrent := currentByKey_of_mem hlatest
    rw [hd.2] at hcurrent
    rw [hcurrent, Option.map_some, Option.getD_some, hversion]

/-- The targets of an amendment that succeeds differ. -/
theorem targets_nodup {d : Draft J} {n : ℕ} {keys : List Key}
    (h : s'.declarations.rows = s.declarations.rows ++ keys.map (declared c d n)) :
    keys.Nodup := by
  have hdistinct := s'.declarations.distinct
  rw [h, List.pairwise_append, List.pairwise_map] at hdistinct
  refine hdistinct.2.1.imp (fun hne heq => hne ?_)
  rw [heq]

theorem versions_append {d : Draft J} {n m : ℕ} {keys : List Key} {key : Key}
    (hlatest : d.latest = s.latest c.request.project)
    (h : s'.declarations.rows = s.declarations.rows ++ keys.map (declared c d n))
    (hold : s.versions project key = List.range' 1 m) :
    ∃ m', s'.versions project key = List.range' 1 m' := by
  have hsplit : s'.versions project key = s.versions project key ++
      ((keys.map (declared c d n)).filter
        (fun d => d.project = project && d.key = key)).map (·.version) := by
    unfold Store.versions
    rw [h, List.filter_append, List.map_append]
  rw [hsplit, hold]
  by_cases hp : project = c.request.project
  · subst hp
    have hnew : (keys.map (declared c d n)).filter
        (fun d => d.project = c.request.project && d.key = key) =
        (List.replicate (keys.count key) key).map (declared c d n) := by
      rw [List.filter_map, ← List.filter_eq]
      congr 1
      refine List.filter_congr (fun k _ => ?_)
      simp [declared, Declaration.key]
    have hversion : (declared c d n key).version = m + 1 := by
      unfold declared
      dsimp only
      rw [hlatest]
      exact current_version hold
    rw [hnew, List.map_replicate, List.map_replicate, hversion]
    -- One row at most is new, and its version is the next one.
    have hcount := List.nodup_iff_count_le_one.mp (targets_nodup h) key
    rcases Nat.le_one_iff_eq_zero_or_eq_one.mp hcount with hzero | hone
    · rw [hzero]
      exact ⟨m, by simp⟩
    · rw [hone]
      refine ⟨m + 1, ?_⟩
      rw [List.range'_1_concat]
      simp [Nat.add_comm]
  · refine ⟨m, ?_⟩
    have hnone : (keys.map (declared c d n)).filter
        (fun d => d.project = project && d.key = key) = [] := by
      refine List.filter_eq_nil_iff.mpr (fun x hx => ?_)
      obtain ⟨k, -, rfl⟩ := List.mem_map.mp hx
      simp [declared, Ne.symm hp]
    rw [hnone, List.map_nil, List.append_nil]

end Versions

section Preservation

variable {reader : Reader J} {hashes : Hashes J} {d : Draft J} {receipt : Receipt}

theorem applied_append {op : OperationRow J}
    (h : s'.operations.rows = s.operations.rows ++ [op]) :
    s'.applied project = s.applied project ++
      if op.project = project ∧ op.receipt.status = .applied then [op] else [] := by
  unfold Store.applied
  rw [h, List.filter_append]
  congr 1
  by_cases hop : op.project = project ∧ op.receipt.status = .applied
  · simp [hop]
  · rw [if_neg hop]
    refine List.filter_eq_nil_iff.mpr (fun x hx => ?_)
    rw [List.mem_singleton.mp hx]
    simpa using hop

theorem mem_invalidate {n : ℕ} {items : List Invalidation} {i : InvalidationRow}
    (h : i ∈ (items.foldl (invalidate c n) s).invalidations) :
    i ∈ s.invalidations ∨ i.project = c.request.project ∧ i.revision = n := by
  induction items generalizing s with
  | nil => exact .inl h
  | cons item rest ih =>
    rcases ih h with hold | hnew
    · refine (Table.mem_insert?_getD hold).imp_right (fun heq => ?_)
      rw [heq]
      exact ⟨rfl, rfl⟩
    · exact .inr hnew

/-- A call files its operation under its request. -/
theorem filed_append (h : Sound hashes s)
    (hrevision : (s.revision c.request.project : ℤ) = c.request.expectedRevision)
    (hreceipt : receipt.status = .applied → receipt.revision = s.revision c.request.project + 1)
    (hoperations : s'.operations.rows = s.operations.rows ++ [operationRow hashes c receipt])
    (op : OperationRow J) (hop : op ∈ s'.operations) : Filed hashes op := by
  have hop : op ∈ s'.operations.rows := hop
  rw [hoperations] at hop
  rcases List.mem_append.mp hop with hold | hnew
  · exact h.filed op hold
  · rw [List.mem_singleton.mp hnew]
    refine ⟨rfl, rfl, rfl, fun happlied => ?_⟩
    change (receipt.revision : ℤ) = c.request.expectedRevision + 1
    rw [hreceipt happlied, ← hrevision]
    rfl

/-- A recorded operation was not recorded before and agrees with its preview. -/
theorem reviewed_append (h : Sound hashes s) (hreceipt : ∀ p ∈ s.previews,
      p.project = c.request.project → p.operationId = c.request.operationId →
      receipt.affected = p.review.affected ∧ receipt.invalidations = p.review.invalidations)
    (hoperations : s'.operations.rows = s.operations.rows ++ [operationRow hashes c receipt])
    (hpreviews : s'.previews = s.previews) (op : OperationRow J) (hop : op ∈ s'.operations)
    (p : PreviewRow J) (hp : p ∈ s'.previews) (hproject : p.project = op.project)
    (hid : p.operationId = op.operationId) : op.receipt.affected = p.review.affected ∧
      op.receipt.invalidations = p.review.invalidations := by
  rw [hpreviews] at hp
  have hop : op ∈ s'.operations.rows := hop
  rw [hoperations] at hop
  rcases List.mem_append.mp hop with hold | hnew
  · exact h.reviewed op hold p hp hproject hid
  · rw [List.mem_singleton.mp hnew] at hproject hid ⊢
    exact hreceipt p hp hproject hid

variable [DecidableEq J]

theorem sound_stands (h : Sound hashes s) (hd : DraftOf reader s c d)
    (hrevision : (s.revision c.request.project : ℤ) = c.request.expectedRevision)
    (hreview : ∀ p ∈ s.previews, p.project = c.request.project →
      p.operationId = c.request.operationId → p.review = d.review)
    (hs : Stands hashes s c d s' receipt) : Sound hashes s' where
  filed := filed_append h hrevision (fun happlied => by rw [hs.receives] at happlied; cases happlied)
    hs.operations
  revisions project := by
    rw [applied_append hs.operations, if_neg (by simp [operationRow, hs.receives]),
      List.append_nil, h.revisions, revision_congr hs.projects, revision_rescope]
  versions project key := by
    unfold Store.versions
    rw [hs.declarations]
    exact h.versions project key
  fresh i hi := by
    rw [revision_congr hs.projects, revision_rescope]
    exact h.fresh i (hs.invalidations ▸ hi)
  reviewed := by
    refine reviewed_append h (fun p hp hproject hid => ?_) hs.operations hs.previews
    rw [hreview p hp hproject hid, hs.receives, hd.invalidations hs.noop]
    exact ⟨rfl, rfl⟩

theorem sound_amends (h : Sound hashes s) (hd : DraftOf reader s c d)
    (hrevision : (s.revision c.request.project : ℤ) = c.request.expectedRevision)
    (hreview : ∀ p ∈ s.previews, p.project = c.request.project →
      p.operationId = c.request.operationId → p.review = d.review)
    (hs : Amends hashes s c d s' receipt) : Sound hashes s' where
  filed := filed_append h hrevision (fun _ => by rw [hs.receives]) hs.operations
  revisions project := by
    rw [applied_append hs.operations, revision_congr hs.projects, revision_upsert]
    by_cases hp : project = c.request.project
    · subst hp
      rw [if_pos ⟨rfl, by rw [operationRow, hs.receives]⟩, if_pos rfl, List.map_append,
        h.revisions, List.range'_1_concat, operationRow, hs.receives]
      simp [Nat.add_comm]
    · rw [if_neg (fun hsame => hp hsame.1.symm), if_neg hp, List.append_nil, h.revisions]
  versions project key := by
    obtain ⟨m, hm⟩ := h.versions project key
    exact versions_append hd.latest hs.declarations hm
  fresh i hi := by
    rw [hs.invalidations] at hi
    rw [revision_congr hs.projects, revision_upsert]
    rcases mem_invalidate hi with hold | ⟨hproject, hrevision⟩
    · have hle := h.fresh i hold
      split
      · rename_i hp
        rw [hp] at hle
        omega
      · exact hle
    · rw [if_pos hproject, hrevision]
  reviewed := by
    refine reviewed_append h (fun p hp hproject hid => ?_) hs.operations hs.previews
    rw [hreview p hp hproject hid, hs.receives]
    exact ⟨rfl, rfl⟩

/-- A call that commits keeps the store sound. -/
theorem sound_amend (h : Sound hashes s) : Ensures (amend reader hashes s c) (fun out => Sound hashes out.1) := by
  rintro ⟨s', reply⟩ hout
  rcases amend_cases hout with ⟨op, -, rfl, -⟩ | ⟨hnone, hrevision, d, hd, hcase⟩
  · exact h
  rcases hcase with ⟨-, hpreview⟩ | ⟨-, happly⟩
  · rcases ensures_preview _ hpreview with hsame | ⟨-, t, p, hinsert, hproject, hid, hs'⟩
    · exact hsame ▸ h
    · have hs' : s' = { s with previews := t } := hs'
      subst hs'
      refine ⟨h.filed, h.revisions, h.versions, h.fresh, fun op hop q hq hqproject hqid => ?_⟩
      rcases (Table.mem_insert? hinsert q).mp hq with hold | rfl
      · exact h.reviewed op hop q hold hqproject hqid
      · exact absurd ⟨hqproject.symm.trans hproject, hqid.symm.trans hid⟩
          (operation?_eq_none.mp hnone op hop)
  · obtain ⟨hreview, receipt, -, houtcome⟩ := ensures_apply _ happly
    have hreview (p : PreviewRow J) (hp : p ∈ s.previews)
        (hproject : p.project = c.request.project)
        (hid : p.operationId = c.request.operationId) : p.review = d.review :=
      hreview p (preview?_eq_some.mpr ⟨hp, hproject, hid⟩)
    rcases houtcome with hstands | hamends
    · exact sound_stands h hd hrevision hreview hstands
    · exact sound_amends h hd hrevision hreview hamends

end Preservation

section Promises

variable {hashes : Hashes J}

/-- The revisions and the versions of a log are without gaps. -/
structure Consistent (s : Store J) : Prop where
  count : ∀ project, s.revision project = (s.applied project).length
  once : ∀ project, ∀ a ∈ s.applied project, ∀ b ∈ s.applied project,
    a.request.expectedRevision = b.request.expectedRevision → a = b
  versions : ∀ project key,
    s.versions project key = List.range' 1 (s.versions project key).length

/-- A later log. -/
structure Extends (s s' : Store J) : Prop where
  declarations : s.declarations.rows <+: s'.declarations.rows
  operations : s.operations.rows <+: s'.operations.rows

/-- The versions that an operation adds for what a review says is affected. -/
def amendedVersions (review : Review J) (receipt : Receipt) : List (Key × ℕ) :=
  match receipt.change with
  | none => []
  | some change =>
    if review.affected = [] then [((change.kind, change.id), 1)]
    else review.affected.map (fun a => ((a.kind, a.id), a.version + 1))

/-- An operation writes what its review says. -/
structure Writes (s : Store J) (c : Call J) (review : Review J) (receipt : Receipt)
    (s' : Store J) : Prop where
  declarations : ∃ new, s'.declarations.rows = s.declarations.rows ++ new ∧
    new.map (fun d => (d.key, d.version)) = amendedVersions review receipt
  invalidations : s'.invalidations.rows =
    s.invalidations.rows ++ review.invalidations.map (invalidationRow c receipt.revision)

theorem Sound.consistent (h : Sound hashes s) : Consistent s where
  count project := by
    have hlength := congrArg List.length (h.revisions project)
    rw [List.length_map, List.length_range'] at hlength
    exact hlength.symm
  once project a ha b hb hfrom := by
    have hfiled {op : OperationRow J} (hop : op ∈ s.applied project) :
        (op.receipt.revision : ℤ) = op.request.expectedRevision + 1 := by
      obtain ⟨hmem, hop⟩ := List.mem_filter.mp hop
      simp only [Bool.and_eq_true, decide_eq_true_eq] at hop
      exact (h.filed op hmem).revision hop.2
    have hrevision : a.receipt.revision = b.receipt.revision := by
      have := hfiled ha
      have := hfiled hb
      omega
    have hnodup : ((s.applied project).map (·.receipt.revision)).Nodup := by
      rw [h.revisions]
      exact List.nodup_range'
    exact List.inj_on_of_nodup_map hnodup ha hb hrevision
  versions project key := by
    obtain ⟨n, hn⟩ := h.versions project key
    rw [hn, List.length_range']

theorem extends_refl (s : Store J) : Extends s s := ⟨List.prefix_refl _, List.prefix_refl _⟩

/-- The invalidations of a new revision are all inserted. -/
theorem invalidate_rows {n : ℕ} {items : List Invalidation} (hitems : items.Nodup)
    (hfresh : ∀ i ∈ s.invalidations, i.project = c.request.project → i.revision = n →
      (⟨i.kind, i.entityId⟩ : Invalidation) ∉ items) :
    (items.foldl (invalidate c n) s).invalidations.rows =
      s.invalidations.rows ++ items.map (invalidationRow c n) := by
  induction items generalizing s with
  | nil => simp
  | cons item rest ih =>
    rw [List.nodup_cons] at hitems
    have hinsert : ∃ t, s.invalidations.insert? (invalidationRow c n item) = some t := by
      refine Option.ne_none_iff_exists'.mp (fun hnone => ?_)
      obtain ⟨i, hi, hsame⟩ := Table.insert?_eq_none.mp hnone
      have hsame := not_not.mp hsame
      simp only [invalidationRow, Prod.mk.injEq] at hsame
      obtain ⟨hproject, hrevision, hkind, hentity⟩ := hsame
      refine hfresh i hi hproject hrevision ?_
      rw [hkind, hentity]
      exact List.mem_cons_self
    obtain ⟨t, ht⟩ := hinsert
    have hfirst : (invalidate c n s item).invalidations = t := by
      unfold invalidate
      change (s.invalidations.insert? (invalidationRow c n item)).getD _ = t
      rw [ht, Option.getD_some]
    rw [List.foldl_cons, ih hitems.2, hfirst, Table.rows_insert? ht, List.append_assoc,
      List.singleton_append, List.map_cons]
    intro i hi hproject hrevision hmem
    rw [hfirst] at hi
    rcases (Table.mem_insert? ht i).mp hi with hold | rfl
    · exact hfresh i hold hproject hrevision (List.mem_cons_of_mem _ hmem)
    · exact hitems.1 hmem

end Promises

section Runs

variable [DecidableEq J]

/-- A call, in which the process may die before its transaction commits. -/
structure Event (J : Type) where
  call : Call J
  dies : Bool := false

variable (reader : Reader J) (hashes : Hashes J)

/-- One transaction: an error or a crash leaves the tables as they were. -/
def step (s : Store J) (e : Event J) : Store J :=
  if e.dies then s
  else match amend reader hashes s e.call with
  | .ok (s', _) => s'
  | .error _ => s

def run (s : Store J) (events : List (Event J)) : Store J := events.foldl (step reader hashes) s

theorem sound_step (h : Sound hashes s) (e : Event J) : Sound hashes (step reader hashes s e) := by
  unfold step
  split
  · exact h
  · split
    · rename_i s' reply hout
      exact sound_amend h _ hout
    · exact h

theorem sound_run (h : Sound hashes s) (events : List (Event J)) :
    Sound hashes (run reader hashes s events) := by
  induction events generalizing s with
  | nil => exact h
  | cons e rest ih => exact ih (sound_step reader hashes h e)

/-- What the store promises to the next call. -/
structure Honours (s : Store J) (c : Call J) : Prop where
  /-- An applied operation is replayed. -/
  retry : ∀ op ∈ s.operations, op.receipt.status = .applied → c.request.toBody = op.request.toBody →
    c.request.expectedRevision = op.request.expectedRevision →
    amend reader hashes s c = .ok (s, .receipt .replayed op.receipt)
  /-- An operation that was previewed is applied as its preview says, or it was before. -/
  previewed : ∀ p ∈ s.previews, p.project = c.request.project →
    p.operationId = c.request.operationId → c.request.mode = .apply →
    Ensures (amend reader hashes s c) (fun out => ∃ status receipt,
      out.2 = .receipt status receipt ∧ receipt.affected = p.review.affected ∧
      receipt.invalidations = p.review.invalidations ∧
      (out.1 = s ∧ (∃ op ∈ s.operations, op.receipt = receipt) ∨
        Writes s c p.review receipt out.1))
  failed : ∀ e, amend reader hashes s c = .error e → step reader hashes s ⟨c, false⟩ = s
  crashed : step reader hashes s ⟨c, true⟩ = s

theorem extends_amend : Ensures (amend reader hashes s c) (fun out => Extends s out.1) := by
  rintro ⟨s', reply⟩ hout
  rcases amend_cases hout with ⟨op, -, rfl, -⟩ | ⟨-, -, d, -, hcase⟩
  · exact extends_refl _
  rcases hcase with ⟨-, hpreview⟩ | ⟨-, happly⟩
  · rcases ensures_preview _ hpreview with hsame | ⟨-, t, p, -, -, -, hs'⟩
    · exact hsame ▸ extends_refl _
    · have hs' : s' = { s with previews := t } := hs'
      subst hs'
      exact ⟨List.prefix_refl _, List.prefix_refl _⟩
  · obtain ⟨-, receipt, -, houtcome⟩ := ensures_apply _ happly
    rcases houtcome with hstands | hamends
    · refine ⟨?_, ?_⟩
      · exact hstands.declarations ▸ List.prefix_refl _
      · rw [hstands.operations]
        exact List.prefix_append _ _
    · refine ⟨?_, ?_⟩
      · rw [hamends.declarations]
        exact List.prefix_append _ _
      · rw [hamends.operations]
        exact List.prefix_append _ _

theorem extends_run (s : Store J) (events : List (Event J)) :
    Extends s (run reader hashes s events) := by
  induction events generalizing s with
  | nil => exact extends_refl s
  | cons e rest ih =>
    have hstep : Extends s (step reader hashes s e) := by
      unfold step
      split
      · exact extends_refl s
      · split
        · rename_i s' reply hout
          exact extends_amend reader hashes _ hout
        · exact extends_refl s
    have hrest := ih (step reader hashes s e)
    exact ⟨hstep.declarations.trans hrest.declarations, hstep.operations.trans hrest.operations⟩

theorem Sound.retry (h : Sound hashes s) {op : OperationRow J} (hop : op ∈ s.operations)
    (happlied : op.receipt.status = .applied) (hbody : c.request.toBody = op.request.toBody)
    (hrevision : c.request.expectedRevision = op.request.expectedRevision) :
    amend reader hashes s c = .ok (s, .receipt .replayed op.receipt) := by
  have hfiled := h.filed op hop
  have hfound : s.operation? c.request.project c.request.operationId = some op := by
    refine operation?_eq_some.mpr ⟨hop, ?_, ?_⟩
    · rw [hfiled.project, hbody]
    · rw [hfiled.operationId, hbody]
  have hreplay : replay hashes op c.request = .ok (.receipt .replayed op.receipt) := by
    unfold replay
    rw [if_neg (by rw [hfiled.requestHash, hbody]; simp), if_neg (by simp [hrevision]),
      if_pos happlied]
    rfl
  unfold amend
  dsimp only
  rw [hfound]
  dsimp only
  rw [hreplay]
  rfl

/-- The versions of the rows that an amendment inserts. -/
theorem declared_versions {d : Draft J} {n : ℕ} (hd : DraftOf reader s c d) :
    ((targets c d).map (declared c d n)).map (fun d => (d.key, d.version)) =
      if d.review.affected = [] then [((d.kind, d.id), 1)]
      else d.review.affected.map (fun a => ((a.kind, a.id), a.version + 1)) := by
  have hstanding {x : Declaration J} (hx : x ∈ d.latest) :
      (declared c d n x.key).version = x.version + 1 := by
    have hcurrent : currentByKey d.latest x.key = some x := by
      rw [hd.latest] at hx ⊢
      exact currentByKey_of_mem hx
    unfold declared
    dsimp only
    rw [hcurrent]
    rfl
  unfold targets
  rcases affectedRows_cases _ hd.rows with ⟨hremoval, hne, hlatest⟩ | ⟨hother, hrows⟩
  · have hsome : d.review.affected ≠ [] := by
      rw [hd.affected]
      simpa using hne
    rw [if_pos hremoval, if_neg hsome, hd.affected, List.map_map, List.map_map, List.map_map]
    refine List.map_congr_left (fun x hx => ?_)
    exact Prod.ext rfl (hstanding (hlatest x hx))
  · rw [if_neg hother, hd.affected, hrows]
    cases hcurrent : currentByKey d.latest (d.kind, d.id) with
    | none =>
      have hversion : (declared c d n (d.kind, d.id)).version = 1 := by
        unfold declared
        dsimp only
        rw [hcurrent]
        rfl
      rw [if_pos (by rfl)]
      exact congrArg (fun row => [row]) (Prod.ext rfl hversion)
    | some x =>
      obtain ⟨hx, hkey⟩ := currentByKey_eq_some hcurrent
      have hversion := hstanding hx
      rw [hkey] at hversion
      rw [if_neg (by simp)]
      exact congrArg (fun row => [row]) (Prod.ext hkey.symm hversion)

theorem Sound.writes (h : Sound hashes s) {d : Draft J} {receipt : Receipt}
    (hd : DraftOf reader s c d) (hs : Amends hashes s c d s' receipt) :
    Writes s c d.review receipt s' where
  declarations := by
    refine ⟨_, hs.declarations, ?_⟩
    rw [declared_versions reader hd, hs.receives]
    rfl
  invalidations := by
    rw [hs.invalidations, hs.receives]
    refine invalidate_rows hd.distinct (fun i hi hproject hrevision => ?_)
    have hle := h.fresh i hi
    rw [hproject, hrevision] at hle
    omega

theorem Sound.honours (h : Sound hashes s) (c : Call J) : Honours reader hashes s c where
  retry _ hop happlied hbody hrevision := h.retry reader hashes hop happlied hbody hrevision
  previewed := by
    rintro p hp hproject hid hmode ⟨s', reply⟩ hout
    rcases amend_cases hout with ⟨op, hop, rfl, hreplay⟩ | ⟨-, -, d, hd, hcase⟩
    · obtain ⟨hmem, hopproject, hopid⟩ := operation?_eq_some.mp hop
      obtain ⟨haffected, hinvalid⟩ := h.reviewed op hmem p hp (hproject.trans hopproject.symm)
        (hid.trans hopid.symm)
      have hreply : ∃ status, reply = .receipt status op.receipt := by
        unfold replay at hreplay
        split at hreplay
        · cases hreplay
        · split at hreplay <;> cases hreplay
          exact ⟨_, rfl⟩
      obtain ⟨status, rfl⟩ := hreply
      exact ⟨status, op.receipt, rfl, haffected, hinvalid, .inl ⟨rfl, op, hmem, rfl⟩⟩
    rcases hcase with ⟨hpreview, -⟩ | ⟨-, happly⟩
    · rw [hmode] at hpreview
      cases hpreview
    · obtain ⟨hreview, receipt, hreply, houtcome⟩ := ensures_apply _ happly
      have hsame := hreview p (preview?_eq_some.mpr ⟨hp, hproject, hid⟩)
      refine ⟨receipt.status.reply, receipt, hreply, ?_⟩
      rw [hsame]
      rcases houtcome with hstands | hamends
      · have hnone := hd.invalidations hstands.noop
        refine ⟨by rw [hstands.receives], by rw [hstands.receives, hnone], .inr ⟨⟨[], ?_, ?_⟩, ?_⟩⟩
        · rw [hstands.declarations, List.append_nil]
        · rw [hstands.receives]
          rfl
        · rw [hstands.invalidations, hnone, List.map_nil, List.append_nil]
      · refine ⟨by rw [hamends.receives], by rw [hamends.receives], .inr ?_⟩
        exact h.writes reader hashes hd hamends
  failed e herror := by
    unfold step
    rw [herror]
    rfl
  crashed := rfl

/-- The metadata log, whatever calls were made, retried, refused or cut off. -/
theorem metadata_log (events : List (Event J)) :
    Consistent (run reader hashes {} events) ∧
    (∀ later, Extends (run reader hashes {} events)
      (run reader hashes (run reader hashes {} events) later)) ∧
    ∀ c, Honours reader hashes (run reader hashes {} events) c := by
  have hsound := sound_run reader hashes (sound_empty hashes) events
  exact ⟨hsound.consistent, extends_run reader hashes _, hsound.honours reader hashes⟩

/-- Values without fractions. -/
def jsonReader : Reader Json where
  field v key := v.fields?.bind (fun fields => fields.lookup key)
  isNone v := v = .null
  text? v := match v with
    | .str text => some text
    | _ => none
  int? v := match v with
    | .num n => some n
    | .bool b => some b.toInt
    | _ => none
  elements v := match v with
    | .arr items => some items
    | .obj fields => some (fields.map (fun f => .str f.1))
    | .str text => some (text.toList.map (fun c => .str (String.ofList [c])))
    | _ => none
  values v := v.fields?.map (List.map Prod.snd)

def relationRequest (mode : Mode) : Call Json where
  request :=
    { project := "p"
      operationId := "operation-1"
      action := .registerRelation
      payload := .obj [("anchors", .arr [.obj [("path", .str "a.py")]]), ("id", .str "r1")]
      rest := .null
      expectedRevision := 0
      mode := mode }
  scopeDigest := "scope"
  validateSources _ := .ok []
  providerAllowlist := .null
  projectIdentities := []
  clock := 0

/-- A preview, its application and a retry: one version at revision 1. -/
example :
    let s := run jsonReader ⟨fun b => b.operationId, fun _ => "t", fun _ _ _ _ _ => "d"⟩ {}
      [⟨relationRequest .preview, false⟩, ⟨relationRequest .apply, true⟩,
        ⟨relationRequest .apply, false⟩, ⟨relationRequest .apply, false⟩]
    s.revision "p" = 1 ∧ s.versions "p" ("relation", "r1") = [1] ∧
      s.invalidations.rows.length = 6 := by
  decide +kernel

end Runs

end ProjectControl.Metadata
