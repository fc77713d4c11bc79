import ProjectControl.MetadataHistory

/-! What the removal of a registration leaves behind: the relations that name what it retires. -/

set_option autoImplicit false

namespace ProjectControl.Metadata

open Sql

variable {J : Type} {reader : Reader J} {s s' : Store J} {c : Call J} {x : Declaration J}

section Locators

/-- The locators of a payload can be listed. -/
def Located (reader : Reader J) (payload : J) : Prop := ∃ found, locators reader payload = .ok found

theorem entities_ok {id : String} {items : List J} (h : ∀ v ∈ items, Located reader v) :
    ∃ ids, entities reader id items = .ok ids := by
  obtain ⟨found, hfound, -⟩ : Commits (items.mapM (locators reader)) _ :=
    Commits.mapM (R := fun _ _ => True) (fun v hv => (h v hv).imp (fun _ hok => ⟨hok, trivial⟩))
  unfold entities
  rw [hfound]
  exact ⟨_, rfl⟩

theorem ensures_mapM {α β ε : Type} {f : α → Except ε β} {items : List α} :
    Ensures (items.mapM f) (fun _ => ∀ a ∈ items, ∃ b, f a = .ok b) := by
  induction items with
  | nil => exact Ensures.pure (fun _ h => nomatch h)
  | cons a rest ih =>
    rw [List.mapM_cons]
    refine Ensures.bind Ensures.of_eq (fun b hb => Ensures.bind ih (fun found hfound => ?_))
    exact Ensures.pure (List.forall_mem_cons.mpr ⟨⟨b, hb⟩, hfound⟩)

/-- Every stored payload was listed when it was declared. -/
def AllLocated (reader : Reader J) (s : Store J) : Prop :=
  ∀ d ∈ s.declarations, Located reader d.payload

theorem mem_latest {project : String} {d : Declaration J} : d ∈ s.latest project ↔
    d ∈ s.declarations ∧ d.project = project ∧ s.isLatest d = true := by
  unfold Store.latest
  rw [List.mem_insertionSort, List.mem_filter, Bool.and_eq_true, decide_eq_true_eq]
  exact Iff.rfl

/-- The registrations that stand. -/
def Store.live (s : Store J) (project : String) : List (Declaration J) :=
  (s.latest project).filter (fun d => !d.retired)

theorem mem_live {project : String} {d : Declaration J} :
    d ∈ s.live project ↔ d ∈ s.latest project ∧ d.retired = false := by
  rw [Store.live, List.mem_filter, Bool.not_eq_true']

variable [DecidableEq J] {hashes : Hashes J}

/-- A draft lists the locators of the request. -/
theorem draft_located :
    Ensures (draft reader hashes s c) (fun _ => Located reader c.request.payload) := by
  unfold draft
  refine Ensures.bind (P := fun _ => True) (fun _ _ => trivial) (fun sources _ => ?_)
  dsimp only
  split
  · split
    · refine Ensures.bind (P := fun _ => True) (fun _ _ => trivial) (fun rows _ => ?_)
      refine Ensures.bind (P := fun _ => ∀ v ∈ c.request.payload :: rows.map (·.payload),
        Located reader v) ?_ (fun ids hids => ?_)
      · exact Ensures.bind ensures_mapM (fun _ hfound => Ensures.pure hfound)
      · exact Ensures.pure (List.forall_mem_cons.mp hids).1
    · exact Ensures.throw
  · exact Ensures.throw

theorem located_declared {d : Draft J} {n : ℕ} {key : Key} (h : AllLocated reader s)
    (hd : DraftOf reader s c d) (hp : Located reader c.request.payload) :
    Located reader (declared c d n key).payload := by
  unfold declared
  dsimp only
  split
  · cases hcurrent : currentByKey d.latest key with
    | none => exact hp
    | some row =>
      have hrow := (currentByKey_eq_some hcurrent).1
      rw [hd.latest] at hrow
      exact h row (mem_latest.mp hrow).1
  · exact hp

theorem allLocated_amend (h : AllLocated reader s) :
    Ensures (amend reader hashes s c) (fun out => AllLocated reader out.1) := by
  unfold amend
  dsimp only
  split
  · exact Ensures.bind Ensures.of_eq (fun _ _ => Ensures.pure h)
  · refine Ensures.bind (P := fun _ => True) (fun _ _ => trivial) (fun _ _ => ?_)
    refine Ensures.ite (fun _ => Ensures.throw) (fun _ => ?_)
    refine Ensures.bind (ensures_draft.and draft_located) (fun d hd => ?_)
    split
    · refine ensures_preview.mono (fun out hout => ?_)
      rcases hout with hsame | ⟨-, t, p, -, -, -, hs'⟩
      · rw [hsame]
        exact h
      · rw [hs']
        exact h
    · refine ensures_apply.mono (fun out hout => ?_)
      obtain ⟨-, receipt, -, hstands | hamends⟩ := hout
      · intro row hrow
        rw [hstands.declarations] at hrow
        exact h row hrow
      · intro row hrow
        have hrow : row ∈ out.1.declarations.rows := hrow
        rw [hamends.declarations, List.mem_append] at hrow
        rcases hrow with hold | hnew
        · exact h row hold
        · obtain ⟨key, -, rfl⟩ := List.mem_map.mp hnew
          exact located_declared h hd.1 hd.2

theorem allLocated_run (h : AllLocated reader s) (events : List (Event J)) :
    AllLocated reader (run reader hashes s events) := by
  induction events generalizing s with
  | nil => exact h
  | cons e rest ih =>
    refine ih ?_
    unfold step
    split
    · exact h
    · split
      · rename_i s' reply hout
        exact allLocated_amend h _ hout
      · exact h

end Locators

section Declared

variable {hashes : Hashes J}

/-- The loop over targets that differ inserts a row for each that is not stored yet. -/
theorem declare_ok {d : Draft J} {n : ℕ} {keys : List Key} (hnodup : keys.Nodup)
    (hfresh : ∀ key ∈ keys, ∀ row ∈ s.declarations, row.Distinct (declared c d n key)) :
    ∃ s', keys.foldlM (declare c d n) s = .ok s' := by
  induction keys generalizing s with
  | nil => exact ⟨s, rfl⟩
  | cons key rest ih =>
    rw [List.nodup_cons] at hnodup
    obtain ⟨t, ht⟩ : ∃ t, s.declarations.insert? (declared c d n key) = some t := by
      refine Option.ne_none_iff_exists'.mp (fun hnone => ?_)
      obtain ⟨row, hrow, hsame⟩ := Table.insert?_eq_none.mp hnone
      exact hsame (hfresh key List.mem_cons_self row hrow)
    have hfirst : declare c d n s key = .ok { s with declarations := t } := by
      unfold declare
      rw [ht]
      rfl
    obtain ⟨s', hs'⟩ := ih (s := { s with declarations := t }) hnodup.2 (by
      intro other hother row hrow
      rcases (Table.mem_insert? ht row).mp hrow with hold | rfl
      · exact hfresh other (List.mem_cons_of_mem _ hother) row hold
      · intro heq
        have hkey : key = other := (Prod.mk.inj (Prod.mk.inj heq).2).1
        exact hnodup.1 (hkey ▸ hother))
    refine ⟨s', ?_⟩
    rw [List.foldlM_cons, hfirst]
    exact hs'

/-- A new row of a stored declaration has a later version. -/
theorem declared_later {d : Draft J} {n : ℕ} {row : Declaration J} (h : Sound hashes s)
    (hd : d.latest = s.latest c.request.project) (hrow : row ∈ s.declarations)
    (hproject : row.project = c.request.project) :
    row.version < (declared c d n row.key).version := by
  obtain ⟨m, hm⟩ := h.versions c.request.project row.key
  have hversion : (declared c d n row.key).version = m + 1 := by
    unfold declared
    dsimp only
    rw [hd]
    exact current_version hm
  have hmem : row.version ∈ s.versions c.request.project row.key :=
    List.mem_map_of_mem (List.mem_filter.mpr ⟨hrow, by simp [hproject]⟩)
  rw [hm] at hmem
  have := List.mem_range'_1.mp hmem
  omega

theorem declared_distinct {d : Draft J} {n : ℕ} {key : Key} {row : Declaration J}
    (h : Sound hashes s) (hd : d.latest = s.latest c.request.project)
    (hrow : row ∈ s.declarations) : row.Distinct (declared c d n key) := by
  intro heq
  simp only [Prod.mk.injEq] at heq
  obtain ⟨hproject, hkey, hversion⟩ := heq
  have hlater := declared_later (n := n) h hd hrow hproject
  have hkey : row.key = key := hkey
  rw [hkey] at hlater
  omega

/-- A row of the new tables is latest if it was and no target has its key. -/
theorem isLatest_append {d : Draft J} {n : ℕ} {keys : List Key} {row : Declaration J}
    (h : Sound hashes s) (hd : d.latest = s.latest c.request.project)
    (hs' : s'.declarations.rows = s.declarations.rows ++ keys.map (declared c d n))
    (hrow : row ∈ s.declarations) : s'.isLatest row = true ↔
      s.isLatest row = true ∧ ¬ (row.project = c.request.project ∧ row.key ∈ keys) := by
  unfold Store.isLatest
  rw [hs', List.all_append, Bool.and_eq_true, List.all_map]
  refine and_congr_right (fun _ => ?_)
  rw [List.all_eq_true]
  constructor
  · rintro hall ⟨hproject, hkey⟩
    have hle := hall row.key hkey
    have hlater := declared_later (n := n) h hd hrow hproject
    simp [declared, Declaration.key, hproject] at hle hlater
    omega
  · intro hnot key hkey
    by_cases hsame : c.request.project = row.project ∧ key = row.key
    · exact absurd ⟨hsame.1.symm, hsame.2 ▸ hkey⟩ hnot
    · simp only [Function.comp, Bool.or_eq_true, Bool.not_eq_true', Bool.and_eq_false_iff,
        decide_eq_false_iff_not]
      exact .inl (not_and_or.mp hsame)

/-- The registrations that stand after some were retired. -/
theorem live_append {d : Draft J} {n : ℕ} {keys : List Key} {row : Declaration J}
    {project : String} (h : Sound hashes s) (hd : d.latest = s.latest c.request.project)
    (hs' : s'.declarations.rows = s.declarations.rows ++ keys.map (declared c d n))
    (hremoval : c.request.action = .removeRegistration) : row ∈ s'.live project ↔
      row ∈ s.live project ∧ ¬ (project = c.request.project ∧ row.key ∈ keys) := by
  simp only [mem_live, mem_latest]
  have hmem : row ∈ s'.declarations ↔ row ∈ s.declarations ∨
      ∃ key ∈ keys, declared c d n key = row := by
    show row ∈ s'.declarations.rows ↔ _
    rw [hs', List.mem_append, List.mem_map]
    exact Iff.rfl
  rw [hmem]
  constructor
  · rintro ⟨⟨hold | ⟨key, -, rfl⟩, rfl, hlatest⟩, hlive⟩
    · obtain ⟨hlatest, hnot⟩ := (isLatest_append h hd hs' hold).mp hlatest
      exact ⟨⟨⟨hold, rfl, hlatest⟩, hlive⟩, hnot⟩
    · simp [declared, hremoval] at hlive
  · rintro ⟨⟨⟨hold, rfl, hlatest⟩, hlive⟩, hnot⟩
    exact ⟨⟨.inl hold, rfl, (isLatest_append h hd hs' hold).mpr ⟨hlatest, hnot⟩⟩, hlive⟩

/-- A new row is the latest of its declaration. -/
theorem latest_declared {d : Draft J} {n : ℕ} {keys : List Key} {key : Key}
    (h : Sound hashes s) (hd : d.latest = s.latest c.request.project)
    (hs' : s'.declarations.rows = s.declarations.rows ++ keys.map (declared c d n))
    (hkey : key ∈ keys) : declared c d n key ∈ s'.latest c.request.project := by
  have hnew : declared c d n key ∈ s'.declarations := by
    show declared c d n key ∈ s'.declarations.rows
    rw [hs']
    exact List.mem_append_right _ (List.mem_map_of_mem hkey)
  refine mem_latest.mpr ⟨hnew, rfl, List.all_eq_true.mpr (fun row hrow => ?_)⟩
  by_cases hsame : row.project = c.request.project ∧ row.key = key
  · obtain ⟨hproject, rfl⟩ := hsame
    have hle : row.version ≤ (declared c d n row.key).version := by
      rw [hs', List.mem_append] at hrow
      rcases hrow with hold | hrow
      · exact (declared_later h hd hold hproject).le
      · obtain ⟨other, -, rfl⟩ := List.mem_map.mp hrow
        exact le_rfl
    simp [hle]
  · simp only [Bool.or_eq_true, Bool.not_eq_true', Bool.and_eq_false_iff,
      decide_eq_false_iff_not]
    exact .inl (not_and_or.mp hsame)

/-- The latest versions have different keys. -/
theorem eq_of_latest {project : String} {a b : Declaration J} (ha : a ∈ s.latest project)
    (hb : b ∈ s.latest project) (hkey : a.key = b.key) : a = b := by
  have hcurrent := currentByKey_of_mem ha
  rw [hkey, currentByKey_of_mem hb] at hcurrent
  exact (Option.some.inj hcurrent).symm

theorem latest_nodup {project : String} : (s.latest project).Nodup := by
  unfold Store.latest
  refine (List.perm_insertionSort _ _).nodup_iff.mpr (List.Nodup.filter _ ?_)
  refine s.declarations.distinct.imp (fun {a b} hne heq => hne ?_)
  rw [heq]

end Declared

section Removal

variable [DecidableEq J] {hashes : Hashes J}

/-- An apply of `remove_registration` for a registration at its version and at the revision of
its project. The operation is new, or it was previewed and its review is what it was. -/
structure Removes (reader : Reader J) (hashes : Hashes J) (s : Store J)
    (c : Call J) (x : Declaration J) : Prop where
  action : c.request.action = .removeRegistration
  mode : c.request.mode = .apply
  project : c.request.project = x.project
  revision : c.request.expectedRevision = s.revision x.project
  id : (reader.field c.request.payload "id").bind reader.text? = some x.id
  kind : reader.getText c.request.payload "kind" = some x.kind
  version : (reader.field c.request.payload "version").bind reader.int? = some (x.version : ℤ)
  sources : ∃ sources, c.validateSources c.request.payload = .ok sources
  located : Located reader c.request.payload
  unused : s.operation? c.request.project c.request.operationId = none
  previewed : ∀ p, s.preview? c.request.project c.request.operationId = some p →
    checkPreview hashes (some p) c.request = .ok () ∧
      ∀ d, draft reader hashes s c = .ok d → p.review = d.review

/-- What a removal retires: the registration and the relations with an endpoint that names it. -/
def RetiredBy (reader : Reader J) (identities : List String) (x d : Declaration J) : Prop :=
  d = x ∨ related reader identities x d = true

/-- A removal retires what it should, and no relation that stands, in whatever project, names
a registration that it retired. -/
structure Closes (reader : Reader J) (identities : List String) (s s' : Store J)
    (x : Declaration J) : Prop where
  live : ∀ project d, d ∈ s'.live project ↔
    d ∈ s.live project ∧ ¬ RetiredBy reader identities x d
  retired : ∀ project, ∀ d ∈ s.live project, RetiredBy reader identities x d →
    ∃ d' ∈ s'.latest project, d'.key = d.key ∧ d'.retired = true ∧ d'.payload = d.payload
  closed : ∀ project, ∀ d ∈ s.live project, RetiredBy reader identities x d →
    ∀ other, ∀ r ∈ s'.live other, related reader identities d r = false

/-- The registration does not name itself. Every relation that names it, or names a relation of
its project that names it, is of its project and is the registration or names it directly. -/
structure OneStep (reader : Reader J) (identities : List String) (s : Store J)
    (x : Declaration J) : Prop where
  self : related reader identities x x = false
  next : ∀ d ∈ s.live x.project, RetiredBy reader identities x d →
    ∀ project, ∀ r ∈ s.live project, related reader identities d r = true →
      project = x.project ∧ RetiredBy reader identities x r

/-- The rows that a removal affects. -/
theorem draft_removal (hs : AllLocated reader s) (hx : x ∈ s.live x.project)
    (hc : Removes reader hashes s c x) : ∃ d, draft reader hashes s c = .ok d ∧ d.noop = false ∧
      d.affectedRows =
        x :: (s.latest x.project).filter (related reader c.projectIdentities x) := by
  obtain ⟨hlatest, hlive⟩ := mem_live.mp hx
  obtain ⟨sources, hsources⟩ := hc.sources
  obtain ⟨version, hversion, hint⟩ := Option.bind_eq_some_iff.mp hc.version
  have hcurrent : currentByKey (s.latest c.request.project) (x.kind, x.id) = some x := by
    rw [hc.project]
    exact currentByKey_of_mem hlatest
  have hrows : affectedRows reader c (s.latest c.request.project) x.kind x.id =
      .ok (x :: (s.latest x.project).filter (related reader c.projectIdentities x)) := by
    unfold affectedRows
    dsimp only
    rw [if_pos hc.action, hcurrent]
    dsimp only
    rw [hlive, if_neg (by simp), hversion]
    dsimp only
    rw [if_neg (by simp [hint]), hc.project]
    rfl
  have hlocated : ∀ v ∈ c.request.payload :: (x :: (s.latest x.project).filter
      (related reader c.projectIdentities x)).map (·.payload), Located reader v := by
    refine List.forall_mem_cons.mpr ⟨hc.located, List.forall_mem_map.mpr (fun row hrow => ?_)⟩
    rcases List.mem_cons.mp hrow with rfl | hrow
    · exact hs row (mem_latest.mp hlatest).1
    · exact hs row (mem_latest.mp (List.mem_filter.mp hrow).1).1
  have hentities : ∃ ids, entities reader x.id _ = .ok ids := entities_ok hlocated
  obtain ⟨ids, hids⟩ := hentities
  have hkind : (c.request.action.kind.orElse fun _ => reader.getText c.request.payload "kind") =
      some x.kind := by
    rw [hc.action, hc.kind]
    rfl
  have hnoop : isNoop c.request (some x) = false := by
    unfold isNoop
    rw [hc.action]
    rfl
  unfold draft
  simp only [hsources, hc.id, hkind, hrows, hids, hcurrent, hnoop, bind, Except.bind, pure,
    Except.pure]
  exact ⟨_, rfl, rfl, rfl⟩

theorem amend_removal (hc : Removes reader hashes s c x) {d : Draft J}
    (hd : draft reader hashes s c = .ok d) : amend reader hashes s c =
      applyAmendment hashes s c (s.preview? c.request.project c.request.operationId) d := by
  have hcheck : checkPreview hashes (s.preview? c.request.project c.request.operationId)
      c.request = .ok () := by
    cases hp : s.preview? c.request.project c.request.operationId with
    | none => rfl
    | some p => exact (hc.previewed p hp).1
  have hrevision : ¬ (s.revision c.request.project : ℤ) ≠ c.request.expectedRevision := by
    rw [hc.revision, hc.project]
    simp
  unfold amend
  dsimp only
  rw [hc.unused]
  dsimp only
  rw [hcheck]
  simp only [bind, Except.bind]
  rw [if_neg hrevision, hd, hc.mode]

/-- A removal whose targets differ is applied. -/
theorem apply_removal (h : Sound hashes s) (hc : Removes reader hashes s c x) {d : Draft J}
    (hdraft : draft reader hashes s c = .ok d) (hnoop : d.noop = false)
    (hnodup : (targets c d).Nodup) : ∃ s' receipt, amend reader hashes s c =
      .ok (s', .receipt .applied receipt) := by
  have hd := ensures_draft _ hdraft
  have hreview : ¬ (s.preview? c.request.project c.request.operationId).any
      (fun p => decide (p.review ≠ d.review)) = true := by
    cases hp : s.preview? c.request.project c.request.operationId with
    | none => simp
    | some p => simp [(hc.previewed p hp).2 d hdraft]
  obtain ⟨s₁, hs₁⟩ := declare_ok (s := upsertProject s c (s.revision c.request.project + 1))
    (n := s.revision c.request.project + 1) hnodup
    (fun key _ row hrow => declared_distinct h hd.latest hrow)
  obtain ⟨t, ht⟩ : ∃ t, s.operations.insert? (operationRow hashes c ⟨.applied,
      c.request.operationId, s.revision c.request.project + 1, d.review.affected,
      some (d.change c.request), d.review.invalidations⟩) = some t := by
    refine Option.ne_none_iff_exists'.mp (fun hnone => ?_)
    obtain ⟨op, hop, hsame⟩ := Table.insert?_eq_none.mp hnone
    have hsame := Prod.mk.inj (not_not.mp hsame)
    exact operation?_eq_none.mp hc.unused op hop hsame
  obtain ⟨-, t₁, rfl⟩ := ensures_declare (targets c d) s₁ hs₁
  obtain ⟨t₂, ht₂⟩ : ∃ t, d.review.invalidations.foldl
      (invalidate c (s.revision c.request.project + 1))
      { upsertProject s c (s.revision c.request.project + 1) with declarations := t₁ } =
        { upsertProject s c (s.revision c.request.project + 1) with
          declarations := t₁
          invalidations := t } := invalidate_frame d.review.invalidations
  have hrecord : ∀ s₂ : Store J, s₂.operations = s.operations → recordOperation hashes s₂ c
      ⟨.applied, c.request.operationId, s.revision c.request.project + 1, d.review.affected,
        some (d.change c.request), d.review.invalidations⟩ = .ok { s₂ with operations := t } := by
    intro s₂ hs₂
    unfold recordOperation
    dsimp only
    rw [hs₂]
    unfold operationRow at ht
    rw [ht]
    rfl
  rw [amend_removal hc hdraft]
  unfold applyAmendment
  dsimp only
  rw [if_neg hreview, hnoop, if_neg (by simp), hs₁]
  simp only [bind, Except.bind]
  rw [ht₂, hrecord]
  · exact ⟨_, _, rfl⟩
  · rfl

/-- The keys of what a removal retires. -/
theorem mem_targets {d : Draft J} {row : Declaration J} (hc : Removes reader hashes s c x)
    (hx : x ∈ s.live x.project) (hrows : d.affectedRows =
      x :: (s.latest x.project).filter (related reader c.projectIdentities x))
    (hrow : row ∈ s.latest x.project) :
    row.key ∈ targets c d ↔ RetiredBy reader c.projectIdentities x row := by
  unfold targets
  rw [if_pos hc.action, hrows, List.map_cons, List.mem_cons, List.mem_map]
  constructor
  · rintro (hkey | ⟨a, ha, hkey⟩)
    · exact .inl (eq_of_latest hrow (mem_live.mp hx).1 hkey)
    · obtain ⟨ha, hnames⟩ := List.mem_filter.mp ha
      rw [← eq_of_latest ha hrow hkey]
      exact .inr hnames
  · rintro (rfl | hnames)
    · exact .inl rfl
    · exact .inr ⟨row, List.mem_filter.mpr ⟨hrow, hnames⟩, rfl⟩

/-- The targets differ unless the registration names itself. -/
theorem targets_nodup_iff {d : Draft J} (hc : Removes reader hashes s c x)
    (hx : x ∈ s.live x.project) (hrows : d.affectedRows =
      x :: (s.latest x.project).filter (related reader c.projectIdentities x)) :
    (targets c d).Nodup ↔ related reader c.projectIdentities x x = false := by
  unfold targets
  rw [if_pos hc.action, hrows, List.map_cons, List.nodup_cons, List.mem_map]
  constructor
  · rintro ⟨hself, -⟩
    refine Bool.eq_false_iff.mpr (fun hnames => hself ⟨x, ?_, rfl⟩)
    exact List.mem_filter.mpr ⟨(mem_live.mp hx).1, hnames⟩
  · intro hself
    refine ⟨?_, ?_⟩
    · rintro ⟨a, ha, hkey⟩
      obtain ⟨ha, hnames⟩ := List.mem_filter.mp ha
      rw [eq_of_latest ha (mem_live.mp hx).1 hkey, hself] at hnames
      cases hnames
    · refine List.Nodup.map_on (fun a ha b hb => ?_) (latest_nodup.filter _)
      exact eq_of_latest (List.mem_filter.mp ha).1 (List.mem_filter.mp hb).1

/-- Of an applied removal it depends on the relations that stand whether it closes. -/
theorem closes_iff {d : Draft J} {n : ℕ} (h : Sound hashes s)
    (hc : Removes reader hashes s c x) (hx : x ∈ s.live x.project)
    (hd : d.latest = s.latest c.request.project) (hrows : d.affectedRows =
      x :: (s.latest x.project).filter (related reader c.projectIdentities x))
    (hs' : s'.declarations.rows =
      s.declarations.rows ++ (targets c d).map (declared c d n)) :
    Closes reader c.projectIdentities s s' x ↔ ∀ a ∈ s.live x.project,
      RetiredBy reader c.projectIdentities x a → ∀ project, ∀ r ∈ s.live project,
        related reader c.projectIdentities a r = true →
          project = x.project ∧ RetiredBy reader c.projectIdentities x r := by
  have hlive : ∀ project row, row ∈ s'.live project ↔ row ∈ s.live project ∧
      ¬ (project = x.project ∧ RetiredBy reader c.projectIdentities x row) := by
    intro project row
    rw [live_append h hd hs' hc.action, hc.project]
    refine and_congr_right (fun hrow => not_congr (and_congr_right (fun hp => ?_)))
    subst hp
    exact mem_targets hc hx hrows (mem_live.mp hrow).1
  constructor
  · intro hcloses a ha hret project r hr hnames
    by_contra hnot
    rw [hcloses.closed x.project a ha hret project r ((hlive project r).mpr ⟨hr, hnot⟩)] at hnames
    cases hnames
  · intro hnext
    -- what names the registration is of its project, like the registration
    have hhome : ∀ project, ∀ row ∈ s.live project, RetiredBy reader c.projectIdentities x row →
        project = x.project := by
      rintro project row hrow (rfl | hnames)
      · exact (mem_latest.mp (mem_live.mp hrow).1).2.1.symm
      · exact (hnext x hx (.inl rfl) project row hrow hnames).1
    refine ⟨fun project row => ?_, fun project a ha hret => ?_, fun project a ha hret other r hr => ?_⟩
    · rw [hlive]
      refine and_congr_right (fun hrow => not_congr ⟨fun hret => hret.2, fun hret => ?_⟩)
      exact ⟨hhome project row hrow hret, hret⟩
    · obtain rfl := hhome project a ha hret
      have hkey := (mem_targets hc hx hrows (mem_live.mp ha).1).mpr hret
      have hlatest := latest_declared h hd hs' hkey
      rw [hc.project] at hlatest
      refine ⟨_, hlatest, rfl, by simp [declared, hc.action], ?_⟩
      have hcurrent : currentByKey d.latest a.key = some a := by
        rw [hd, hc.project]
        exact currentByKey_of_mem (mem_live.mp ha).1
      simp [declared, hc.action, hcurrent]
    · obtain rfl := hhome project a ha hret
      obtain ⟨hr, hnot⟩ := (hlive other r).mp hr
      exact Bool.eq_false_iff.mpr (fun hnames => hnot (hnext a ha hret other r hr hnames))

/-- A removal is applied and leaves no relation that names what it retired exactly if the
registration does not name itself, and nothing else names the relations that name it. -/
theorem removal_closes_iff (events : List (Event J))
    (hx : x ∈ (run reader hashes {} events).live x.project)
    (hc : Removes reader hashes (run reader hashes {} events) c x) :
    (∃ s' receipt, amend reader hashes (run reader hashes {} events) c =
        .ok (s', .receipt .applied receipt) ∧
      Closes reader c.projectIdentities (run reader hashes {} events) s' x) ↔
    OneStep reader c.projectIdentities (run reader hashes {} events) x := by
  have hsound := sound_run reader hashes (sound_empty hashes) events
  have hempty : AllLocated reader ({} : Store J) := fun _ hd => nomatch hd
  have hlocated : AllLocated reader (run reader hashes {} events) :=
    allLocated_run hempty events
  obtain ⟨d, hdraft, hnoop, hrows⟩ := draft_removal hlocated hx hc
  have hd := ensures_draft _ hdraft
  have happlied : ∀ {s' : Store J} {receipt : Receipt}, amend reader hashes
      (run reader hashes {} events) c = .ok (s', .receipt .applied receipt) →
      s'.declarations.rows = (run reader hashes {} events).declarations.rows ++
        (targets c d).map (declared c d
          ((run reader hashes {} events).revision c.request.project + 1)) := by
    intro s' receipt hout
    rw [amend_removal hc hdraft] at hout
    obtain ⟨-, receipt', -, hstands | hamends⟩ := ensures_apply _ hout
    · rw [hstands.noop] at hnoop
      cases hnoop
    · exact hamends.declarations
  constructor
  · rintro ⟨s', receipt, hout, hcloses⟩
    have hs' := happlied hout
    have hnext := (closes_iff hsound hc hx hd.latest hrows hs').mp hcloses
    exact ⟨(targets_nodup_iff hc hx hrows).mp (targets_nodup hs'), hnext⟩
  · intro hone
    obtain ⟨s', receipt, hout⟩ := apply_removal hsound hc hdraft hnoop
      ((targets_nodup_iff hc hx hrows).mpr hone.self)
    exact ⟨s', receipt, hout,
      (closes_iff hsound hc hx hd.latest hrows (happlied hout)).mpr hone.next⟩

end Removal

section Examples

def demoHashes : Hashes Json := ⟨fun b => b.operationId, fun _ => "t", fun _ _ _ _ _ => "d"⟩

/-- A call of an operation at a revision. -/
def demoCall (action : AmendAction) (operationId : String) (revision : ℤ)
    (payload : List (String × Json)) : Call Json where
  request :=
    { project := "demo", operationId, action, payload := .obj (payload ++ [("anchors", .arr [])])
      rest := .null, expectedRevision := revision }
  scopeDigest := "scope"
  validateSources _ := .ok []
  providerAllowlist := .null
  projectIdentities := ["demo"]
  clock := 0

def endpoint (kind id : String) : Json :=
  .obj [("project_uuid", .str "demo"), ("repository", .str "main"), ("kind", .str kind),
    ("id", .str id)]

def registerCore : Call Json :=
  demoCall .registerIdentity "o1" 0
    [("id", .str "core"), ("repository", .str "main"), ("version", .str "1")]

def registerUse (operationId : String) (revision : ℤ) (id : String) (source : Json) : Call Json :=
  demoCall .registerRelation operationId revision
    [("id", .str id), ("source", source), ("target", endpoint "task" "T1"),
      ("relation", .str "uses")]

def removal (operationId : String) (revision : ℤ) (kind id : String) : Call Json :=
  demoCall .removeRegistration operationId revision
    [("id", .str id), ("kind", .str kind), ("version", .num 1)]

/-- An identity, a relation that names it, and a relation that names the relation. -/
def chained : List (Event Json) :=
  [⟨registerCore, false⟩, ⟨registerUse "o2" 1 "r1" (endpoint "identity" "core"), false⟩,
    ⟨registerUse "o3" 2 "r2" (endpoint "relation" "r1"), false⟩]

/-- A relation with itself as its source. -/
def looped : List (Event Json) :=
  [⟨registerUse "o1" 0 "r1" (endpoint "relation" "r1"), false⟩]

def liveIds (s : Store Json) : List String := (s.live "demo").map (·.id)

theorem removal_leaves_a_dangling_relation :
    let s := run jsonReader demoHashes {} chained
    let s' := step jsonReader demoHashes s ⟨removal "o4" 3 "identity" "core", false⟩
    (liveIds s, liveIds s') = (["core", "r1", "r2"], ["r2"]) ∧
      (∃ d ∈ s.live "demo", d.id = "r1" ∧
        ∃ r ∈ s'.live "demo", related jsonReader ["demo"] d r = true) ∧
      (amend jsonReader demoHashes (run jsonReader demoHashes {} looped)
        (removal "o2" 1 "relation" "r1")).toOption.isNone = true ∧
      liveIds (run jsonReader demoHashes {} looped) = ["r1"] := by
  decide +kernel

/-- An identity and a relation that names it. -/
def direct : List (Event Json) :=
  [⟨registerCore, false⟩, ⟨registerUse "o2" 1 "r1" (endpoint "identity" "core"), false⟩]

def core : Declaration Json where
  project := "demo"
  kind := "identity"
  id := "core"
  version := 1
  payload := registerCore.request.payload
  retired := false
  origin := "project_declared"
  createdAt := 0
  revision := 1

theorem removes_core : Removes jsonReader demoHashes (run jsonReader demoHashes {} direct)
    (removal "o3" 2 "identity" "core") core where
  action := rfl
  mode := rfl
  project := rfl
  revision := by decide +kernel
  id := by decide +kernel
  kind := by decide +kernel
  version := by decide +kernel
  sources := ⟨[], rfl⟩
  located := ⟨[], rfl⟩
  unused := Option.isNone_iff_eq_none.mp (by decide +kernel)
  previewed p hp := by
    have hnone : ((run jsonReader demoHashes {} direct).preview? "demo" "o3").isNone = true := by
      decide +kernel
    cases (Option.isNone_iff_eq_none.mp hnone).symm.trans hp

theorem core_is_removed :
    core ∈ (run jsonReader demoHashes {} direct).live core.project ∧
    ∃ s' receipt, amend jsonReader demoHashes (run jsonReader demoHashes {} direct)
        (removal "o3" 2 "identity" "core") = .ok (s', .receipt .applied receipt) ∧
      Closes jsonReader ["demo"] (run jsonReader demoHashes {} direct) s' core := by
  have hcore : core ∈ (run jsonReader demoHashes {} direct).live core.project := by
    decide +kernel
  have hproject : ∀ d ∈ (run jsonReader demoHashes {} direct).declarations.rows,
      d.project = "demo" := by
    decide +kernel
  have hnext : ∀ d ∈ (run jsonReader demoHashes {} direct).live "demo",
      ∀ r ∈ (run jsonReader demoHashes {} direct).live "demo",
        related jsonReader ["demo"] d r = true → related jsonReader ["demo"] core r = true := by
    decide +kernel
  refine ⟨hcore, (removal_closes_iff direct hcore removes_core).mpr ⟨by decide +kernel, ?_⟩⟩
  intro d hd _ project r hr hnames
  have hr' := mem_latest.mp (mem_live.mp hr).1
  obtain rfl : "demo" = project := (hproject r hr'.1).symm.trans hr'.2.1
  exact ⟨rfl, .inr (hnext d hd r hr hnames)⟩

end Examples

end ProjectControl.Metadata
