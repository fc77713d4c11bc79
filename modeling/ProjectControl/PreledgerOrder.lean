import ProjectControl.Agreement
import ProjectControl.PreledgerPlan

/-! The order of the records of a package and of the rows of its indexes does not matter: each
container that the compiler fills has the same members whatever the order, and every check is
about members only. -/

set_option autoImplicit false

namespace ProjectControl.Preledger

section Records

variable {v v' : Json} {keys : List String} {label : String}

theorem records_agree (h : Option.Rel List.Perm (recordItems v keys) (recordItems v' keys)) :
    Agree List.Perm (records v keys label) (records v' keys label) := by
  unfold records
  generalize recordItems v keys = x, recordItems v' keys = y at h
  cases h with
  | none => exact .error
  | @some items items' hperm =>
    have hall : items.all isObject = true ↔ items'.all isObject = true := by
      rw [hperm.all_eq]
    exact .ite hall (fun _ => .ok (hperm.filterMap _)) (fun _ => .error)

end Records

section Loading

/-- The text of a field, if `nonemptyString` takes it. -/
def text? (record : Dict) (field : String) : Option String :=
  match Dict.get record field with
  | some (.str s) => if strip s = "" then none else some (strip s)
  | _ => none

theorem nonemptyString_iff {record : Dict} {field s : String} {label : Label} :
    nonemptyString record field label = .ok s ↔ text? record field = some s := by
  unfold nonemptyString text?
  cases Dict.get record field with
  | none => simp
  | some v =>
    cases v with
    | str s =>
      by_cases hs : strip s = ""
      · simp [hs]
      · simp [hs]
    | _ => simp

/-- The task of a record that has what a task needs, whatever the other records are. -/
def task? (record : Dict) : Option Task :=
  match text? record "id", text? record "title", text? record "repository" with
  | some id, some _, some repository => if isTaskId id then some ⟨id, record, repository⟩ else none
  | _, _, _ => none

/-- Two tasks that may stand in one package. -/
def Compatible (a b : Task) : Prop :=
  a.id ≠ b.id ∧ ∀ c ∈ producedCheckpoints a.record, c ∉ producedCheckpoints b.record

theorem Compatible.symm {a b : Task} (h : Compatible a b) : Compatible b a :=
  ⟨h.1.symm, fun c hb ha => h.2 c ha hb⟩

/-- The tasks have different ids, and each checkpoint has the task that produces it. -/
structure Loaded (ts : Tasks) : Prop where
  nodup : ts.ids.Nodup
  owner : ∀ c o, ts.checkpointOwner.lookup c = some o ↔
    ∃ task ∈ ts.items, task.id = o ∧ c ∈ producedCheckpoints task.record

variable {ts ts' : Tasks} {record : Dict} {found : List Dict} {n : ℕ} {id : String}
  {owners owners' : List (String × String)} {checkpoints : List String}

theorem task?_iff {task : Task} : task? record = some task ↔ text? record "id" = some task.id ∧
    isTaskId task.id = true ∧ (∃ title, text? record "title" = some title) ∧
      text? record "repository" = some task.repository ∧ task.record = record := by
  unfold task?
  cases text? record "id" with
  | none => simp
  | some id =>
    cases text? record "title" with
    | none => simp
    | some title =>
      cases text? record "repository" with
      | none => simp
      | some repository =>
        obtain ⟨id', record', repository'⟩ := task
        simp only [Option.ite_none_right_eq_some, Option.some_inj, Task.mk.injEq, exists_eq']
        constructor
        · rintro ⟨hid, rfl, rfl, rfl⟩
          exact ⟨rfl, hid, trivial, rfl, rfl⟩
        · rintro ⟨rfl, hid, -, rfl, rfl⟩
          exact ⟨hid, rfl, rfl, rfl⟩

theorem lookup_append_singleton (owners : List (String × String)) (c o c' : String) :
    (owners ++ [(c, o)]).lookup c' = (owners.lookup c').or (if c' = c then some o else none) := by
  rw [List.lookup_append]
  by_cases hc : c' = c
  · subst hc
    simp
  · rw [if_neg hc, List.lookup_cons, beq_eq_false_iff_ne.mpr hc]
    rfl

/-- A round of the loop over the checkpoints adds the task as the producer. -/
theorem lookup_addCheckpoint {checkpoint : String}
    (h : addCheckpoint id owners checkpoint = .ok owners') (c o : String) :
    owners'.lookup c = some o ↔ owners.lookup c = some o ∨ c = checkpoint ∧ o = id := by
  unfold addCheckpoint at h
  cases howner : owners.lookup checkpoint with
  | some owner =>
    rw [howner] at h
    simp only at h
    split_ifs at h with heq
    cases h
    constructor
    · exact .inl
    · rintro (h | ⟨rfl, rfl⟩)
      · exact h
      · rw [howner, heq]
  | none =>
    rw [howner] at h
    cases h
    rw [lookup_append_singleton]
    by_cases hc : c = checkpoint
    · subst hc
      rw [howner, if_pos rfl, Option.none_or, Option.some_inj]
      simp [eq_comm]
    · rw [if_neg hc, Option.or_none]
      simp [hc]

theorem lookup_addCheckpoints
    (h : checkpoints.foldlM (addCheckpoint id) owners = .ok owners') (c o : String) :
    owners'.lookup c = some o ↔ owners.lookup c = some o ∨ c ∈ checkpoints ∧ o = id := by
  induction checkpoints generalizing owners with
  | nil =>
    cases h
    simp
  | cons checkpoint checkpoints ih =>
    rw [List.foldlM_cons] at h
    cases hfirst : addCheckpoint id owners checkpoint with
    | error e =>
      rw [hfirst] at h
      cases h
    | ok next =>
      rw [hfirst] at h
      rw [ih h, lookup_addCheckpoint hfirst, List.mem_cons]
      tauto

theorem addCheckpoints_exists
    (h : ∀ c ∈ checkpoints, ∀ o, owners.lookup c = some o → o = id) :
    ∃ owners', checkpoints.foldlM (addCheckpoint id) owners = .ok owners' := by
  induction checkpoints generalizing owners with
  | nil => exact ⟨owners, rfl⟩
  | cons checkpoint checkpoints ih =>
    rw [List.forall_mem_cons] at h
    obtain ⟨hfirst, hrest⟩ := h
    obtain ⟨next, hnext⟩ : ∃ next, addCheckpoint id owners checkpoint = .ok next := by
      unfold addCheckpoint
      cases howner : owners.lookup checkpoint with
      | none => exact ⟨_, rfl⟩
      | some owner => exact ⟨owners, if_pos (hfirst owner howner)⟩
    rw [List.foldlM_cons, hnext]
    apply ih
    intro c hc o ho
    rcases (lookup_addCheckpoint hnext c o).mp ho with ho | ⟨-, rfl⟩
    · exact hrest c hc o ho
    · rfl

theorem addTask_ensures : Ensures (addTask ts (record, n)) (fun ts' => ∃ task,
    task? record = some task ∧ task.id ∉ ts.ids ∧ ts'.items = ts.items ++ [task] ∧
      (producedCheckpoints record).foldlM (addCheckpoint task.id) ts.checkpointOwner =
        .ok ts'.checkpointOwner) := by
  unfold addTask
  refine .bind .of_eq (fun id hid => ?_)
  refine .ite (fun _ => .bind (P := fun _ => False) .throw (fun _ h => h.elim)) (fun hform => ?_)
  refine .ite (fun _ => .bind (P := fun _ => False) .throw (fun _ h => h.elim)) (fun hnew => ?_)
  refine .bind .of_eq (fun title htitle => ?_)
  refine .bind .of_eq (fun repository hrepository => ?_)
  refine .bind .of_eq (fun owners howners => .pure ?_)
  refine ⟨⟨id, record, repository⟩, task?_iff.mpr ?_, hnew, rfl, howners⟩
  have hform : isTaskId id = true := by simpa using hform
  exact ⟨nonemptyString_iff.mp hid, hform, ⟨title, nonemptyString_iff.mp htitle⟩,
    nonemptyString_iff.mp hrepository, rfl⟩

theorem addTask_exists {task : Task} (htask : task? record = some task) (hnew : task.id ∉ ts.ids)
    (howners : (producedCheckpoints record).foldlM (addCheckpoint task.id) ts.checkpointOwner =
      .ok owners) : addTask ts (record, n) = .ok ⟨ts.items ++ [task], owners⟩ := by
  obtain ⟨hid, hform, ⟨title, htitle⟩, hrepository, hrecord⟩ := task?_iff.mp htask
  subst hrecord
  have hbind {α β : Type} (a : α) (f : α → Except PreledgerError β) :
      (Except.ok a >>= f) = f a := rfl
  simp [addTask, nonemptyString_iff.mpr hid, nonemptyString_iff.mpr htitle,
    nonemptyString_iff.mpr hrepository, howners, hform, hnew, hbind, Pure.pure, Except.pure]

/-- A round of the loop over the records keeps what is known about the tasks. -/
theorem Loaded.addTask (hts : Loaded ts) : Ensures (addTask ts (record, n)) (fun ts' =>
    Loaded ts' ∧ ∃ task, task? record = some task ∧ ts'.items = ts.items ++ [task]) := by
  refine addTask_ensures.mono ?_
  rintro ts' ⟨task, htask, hnew, hitems, howners⟩
  obtain ⟨-, -, -, -, hrecord⟩ := task?_iff.mp htask
  refine ⟨⟨?_, fun c o => ?_⟩, task, htask, hitems⟩
  · rw [Tasks.ids, hitems, List.map_append, List.nodup_append]
    refine ⟨hts.nodup, List.nodup_singleton _, fun a ha b hb heq => hnew ?_⟩
    rw [List.map_singleton, List.mem_singleton] at hb
    rwa [← hb, ← heq]
  · rw [lookup_addCheckpoints howners, hts.owner, hitems]
    constructor
    · rintro (⟨t, ht, hto, hc⟩ | ⟨hc, rfl⟩)
      · exact ⟨t, List.mem_append_left _ ht, hto, hc⟩
      · exact ⟨task, List.mem_append_right _ (List.mem_singleton_self _), rfl, hrecord ▸ hc⟩
    · rintro ⟨t, ht, hto, hc⟩
      rcases List.mem_append.mp ht with ht | ht
      · exact .inl ⟨t, ht, hto, hc⟩
      · rw [List.mem_singleton.mp ht] at hto hc
        exact .inr ⟨hrecord ▸ hc, hto.symm⟩

theorem Loaded.compatible (hts : Loaded ts) : ts.items.Pairwise Compatible := by
  have hids : ts.items.Pairwise (fun a b => a.id ≠ b.id) := List.pairwise_map.mp hts.nodup
  refine hids.imp_of_mem (fun {a b} ha hb hab => ⟨hab, fun c hca hcb => hab ?_⟩)
  have howner := (hts.owner c a.id).mpr ⟨a, ha, rfl, hca⟩
  rw [(hts.owner c b.id).mpr ⟨b, hb, rfl, hcb⟩] at howner
  exact (Option.some.inj howner).symm

/-- The loop over the records keeps them all, in their order. -/
theorem load_ensures (hts : Loaded ts) : Ensures ((found.zipIdx n).foldlM addTask ts) (fun ts' =>
    Loaded ts' ∧ (∀ r ∈ found, (task? r).isSome) ∧
      ts'.items = ts.items ++ found.filterMap task?) := by
  induction found generalizing ts n with
  | nil => exact .pure ⟨hts, by simp, by simp⟩
  | cons record found ih =>
    rw [List.zipIdx_cons, List.foldlM_cons]
    refine .bind hts.addTask (fun next hnext => ?_)
    obtain ⟨hloaded, task, htask, hitems⟩ := hnext
    refine (ih hloaded).mono (fun ts' hts' => ⟨hts'.1, ?_, ?_⟩)
    · rw [List.forall_mem_cons, htask]
      exact ⟨rfl, hts'.2.1⟩
    · rw [hts'.2.2, hitems, List.filterMap_cons_some htask, List.append_assoc]
      rfl

/-- The loop accepts records whose tasks are compatible, whatever their order. -/
theorem load_exists (hts : Loaded ts) (hall : ∀ r ∈ found, (task? r).isSome)
    (hpairs : (ts.items ++ found.filterMap task?).Pairwise Compatible) :
    ∃ ts', (found.zipIdx n).foldlM addTask ts = .ok ts' := by
  induction found generalizing ts n with
  | nil => exact ⟨ts, rfl⟩
  | cons record found ih =>
    obtain ⟨hfirst, hrest⟩ := List.forall_mem_cons.mp hall
    obtain ⟨task, htask⟩ := Option.isSome_iff_exists.mp hfirst
    obtain ⟨-, -, -, -, hrecord⟩ := task?_iff.mp htask
    rw [List.filterMap_cons_some htask] at hpairs
    have happart (t : Task) (ht : t ∈ ts.items) : Compatible t task :=
      (List.pairwise_append.mp hpairs).2.2 t ht task List.mem_cons_self
    have hnew : task.id ∉ ts.ids := by
      intro hmem
      obtain ⟨t, ht, hid⟩ := List.mem_map.mp hmem
      exact (happart t ht).1 hid
    obtain ⟨owners, howners⟩ : ∃ owners, (producedCheckpoints record).foldlM
        (addCheckpoint task.id) ts.checkpointOwner = .ok owners := by
      apply addCheckpoints_exists
      intro c hc o ho
      obtain ⟨t, ht, -, hct⟩ := (hts.owner c o).mp ho
      exact absurd (hrecord ▸ hc) ((happart t ht).2 c hct)
    have hnext : Preledger.addTask ts (record, n) = .ok ⟨ts.items ++ [task], owners⟩ :=
      addTask_exists htask hnew howners
    rw [List.zipIdx_cons, List.foldlM_cons, hnext]
    refine ih (hts.addTask _ hnext).1 hrest ?_
    rw [List.append_assoc]
    exact hpairs

theorem loaded_nil : Loaded ⟨[], []⟩ where
  nodup := List.nodup_nil
  owner c o := by simp

/-- The same tasks in some order, and the same producers of checkpoints. -/
structure SameTasks (ts ts' : Tasks) : Prop where
  items : ts.items.Perm ts'.items
  nodup : ts.ids.Nodup
  owner : ∀ c, ts.checkpointOwner.lookup c = ts'.checkpointOwner.lookup c

theorem Loaded.same (hts : Loaded ts) (hts' : Loaded ts') (h : ts.items.Perm ts'.items) :
    SameTasks ts ts' := by
  refine ⟨h, hts.nodup, fun c => Option.ext (fun o => ?_)⟩
  rw [hts.owner, hts'.owner]
  simp only [h.mem_iff]

theorem loadTasks_agree {v v' : Json} (h : Option.Rel List.Perm
    (recordItems v ["tasks", "proposed_todos"]) (recordItems v' ["tasks", "proposed_todos"])) :
    Agree SameTasks (loadTasks v) (loadTasks v') := by
  refine .bind (records_agree h) (fun found found' hperm => ?_)
  have hitems : (found.filterMap task?).Perm (found'.filterMap task?) := hperm.filterMap _
  refine .of_imp (fun ts hok => ?_) (fun ts' hok => ?_)
  · obtain ⟨hts, hall, heq⟩ := load_ensures loaded_nil ts hok
    have hpairs : (found'.filterMap task?).Pairwise Compatible :=
      (heq ▸ hts.compatible).perm hitems Compatible.symm
    obtain ⟨ts', hok'⟩ := load_exists (n := 0) loaded_nil
      (fun r hr => hall r (hperm.mem_iff.mpr hr)) hpairs
    obtain ⟨hts', -, heq'⟩ := load_ensures loaded_nil ts' hok'
    exact ⟨ts', hok', hts.same hts' (by rw [heq, heq']; exact hitems)⟩
  · obtain ⟨hts', hall, heq⟩ := load_ensures loaded_nil ts' hok
    have hpairs : (found.filterMap task?).Pairwise Compatible :=
      (heq ▸ hts'.compatible).perm hitems.symm Compatible.symm
    exact load_exists loaded_nil (fun r hr => hall r (hperm.mem_iff.mp hr)) hpairs

end Loading

section Sources

/-- A pair was found in a place. -/
def Found (pairs : Sources) (pair : Pair) (source : String) : Prop :=
  ∃ sources, (pair, sources) ∈ pairs ∧ source ∈ sources

/-- Each pair stands once, and so does each place where it was found, of which there is one. -/
structure Tidy (pairs : Sources) : Prop where
  keys : (pairs.map Prod.fst).Nodup
  sources : ∀ e ∈ pairs, e.2.Nodup ∧ e.2 ≠ []

/-- What a step adds to the places where pairs were found. -/
structure Marks (f : Sources → Sources) (S : Pair → String → Prop) : Prop where
  tidy : ∀ pairs, Tidy pairs → Tidy (f pairs)
  found : ∀ pairs pair source, Found (f pairs) pair source ↔ Found pairs pair source ∨ S pair source

theorem found_cons {e : Pair × List String} {pairs : Sources} {pair : Pair} {source : String} :
    Found (e :: pairs) pair source ↔ e.1 = pair ∧ source ∈ e.2 ∨ Found pairs pair source := by
  obtain ⟨p, sources⟩ := e
  constructor
  · rintro ⟨found, hmem, hsource⟩
    rcases List.mem_cons.mp hmem with heq | hmem
    · cases heq
      exact .inl ⟨rfl, hsource⟩
    · exact .inr ⟨found, hmem, hsource⟩
  · rintro (⟨rfl, hsource⟩ | ⟨found, hmem, hsource⟩)
    · exact ⟨sources, List.mem_cons_self, hsource⟩
    · exact ⟨found, List.mem_cons_of_mem _ hmem, hsource⟩

theorem found_addSource (pairs : Sources) (pair p : Pair) (source s : String) :
    Found (addSource pairs pair source) p s ↔ Found pairs p s ∨ p = pair ∧ s = source := by
  induction pairs with
  | nil =>
    rw [addSource, found_cons, List.mem_singleton, or_comm, eq_comm]
  | cons e pairs ih =>
    obtain ⟨q, sources⟩ := e
    rw [addSource]
    by_cases hq : q = pair
    · subst hq
      rw [if_pos rfl, found_cons, found_cons]
      have hmem : s ∈ (if source ∈ sources then sources else sources ++ [source]) ↔
          s ∈ sources ∨ s = source := by
        split_ifs with hin
        · exact ⟨.inl, fun h => h.elim id (fun heq => heq ▸ hin)⟩
        · rw [List.mem_append, List.mem_singleton]
      simp only [hmem]
      tauto
    · rw [if_neg hq, found_cons, found_cons, ih, or_assoc]

theorem sources_addSource (pairs : Sources) (pair : Pair) (source : String)
    (h : ∀ e ∈ pairs, e.2.Nodup ∧ e.2 ≠ []) :
    ∀ e ∈ addSource pairs pair source, e.2.Nodup ∧ e.2 ≠ [] := by
  induction pairs with
  | nil =>
    intro e he
    rw [List.mem_singleton.mp he]
    exact ⟨List.nodup_singleton _, List.cons_ne_nil _ _⟩
  | cons e pairs ih =>
    obtain ⟨q, sources⟩ := e
    obtain ⟨⟨hnodup, hne⟩, hrest⟩ := List.forall_mem_cons.mp h
    rw [addSource]
    by_cases hq : q = pair
    · rw [if_pos hq, List.forall_mem_cons]
      refine ⟨?_, hrest⟩
      dsimp only
      split_ifs with hin
      · exact ⟨hnodup, hne⟩
      · refine ⟨?_, List.append_ne_nil_of_right_ne_nil _ (List.cons_ne_nil _ _)⟩
        rw [List.nodup_append]
        refine ⟨hnodup, List.nodup_singleton _, fun a ha b hb => ?_⟩
        rw [List.mem_singleton.mp hb]
        exact fun heq => hin (heq ▸ ha)
    · rw [if_neg hq, List.forall_mem_cons]
      exact ⟨⟨hnodup, hne⟩, ih hrest⟩

theorem marks_addSource (pair : Pair) (source : String) :
    Marks (addSource · pair source) (fun p s => p = pair ∧ s = source) where
  tidy pairs h := ⟨(adds_addSource pair source).nodup pairs h.keys,
    sources_addSource pairs pair source h.sources⟩
  found pairs p s := found_addSource pairs pair p source s

theorem marks_foldl {α : Type} {f : Sources → α → Sources} {S : α → Pair → String → Prop}
    {items : List α} (hf : ∀ a, Marks (f · a) (S a)) :
    Marks (fun pairs => items.foldl f pairs) (fun p s => ∃ a ∈ items, S a p s) := by
  induction items with
  | nil => exact ⟨fun _ h => h, fun _ _ _ => by simp⟩
  | cons a items ih =>
    refine ⟨fun pairs h => ih.tidy _ ((hf a).tidy pairs h), fun pairs p s => ?_⟩
    rw [List.foldl_cons, ih.found, (hf a).found, List.exists_mem_cons_iff, or_assoc]

/-- A task names a pair in a field. -/
def NamesIn (task : Task) (pair : Pair) (field : String) : Prop :=
  ∃ f ∈ prerequisiteFields, ∃ p ∈ fieldDependencies task.record f, pair = (task.id, p) ∧ field = f

theorem marks_addOwn (task : Task) : Marks (addOwn · task) (NamesIn task) :=
  marks_foldl (fun field => marks_foldl (fun p => marks_addSource (task.id, p) field))

/-- The same pairs, found in the same places. -/
structure SameSources (pairs pairs' : Sources) : Prop where
  tidy : Tidy pairs
  tidy' : Tidy pairs'
  found : ∀ pair source, Found pairs pair source ↔ Found pairs' pair source

variable {pairs pairs' : Sources} {ts ts' : Tasks}

theorem Tidy.mem_keys_iff (h : Tidy pairs) {pair : Pair} :
    pair ∈ pairs.map Prod.fst ↔ ∃ source, Found pairs pair source := by
  constructor
  · intro hmem
    obtain ⟨e, he, rfl⟩ := List.mem_map.mp hmem
    obtain ⟨source, hsource⟩ := List.exists_mem_of_ne_nil _ (h.sources e he).2
    exact ⟨source, e.2, he, hsource⟩
  · rintro ⟨source, sources, hmem, -⟩
    exact List.mem_map_of_mem hmem

theorem SameSources.mem_keys_iff (h : SameSources pairs pairs') {pair : Pair} :
    pair ∈ pairs.map Prod.fst ↔ pair ∈ pairs'.map Prod.fst := by
  rw [h.tidy.mem_keys_iff, h.tidy'.mem_keys_iff]
  simp only [h.found]

/-- A step that is deaf to the order keeps two collections alike. -/
theorem SameSources.marks {f g : Sources → Sources} {S T : Pair → String → Prop}
    (h : SameSources pairs pairs') (hf : Marks f S) (hg : Marks g T)
    (hST : ∀ pair source, S pair source ↔ T pair source) : SameSources (f pairs) (g pairs') where
  tidy := hf.tidy pairs h.tidy
  tidy' := hg.tidy pairs' h.tidy'
  found pair source := by rw [hf.found, hg.found, h.found, hST]

theorem sameSources_nil : SameSources [] [] where
  tidy := ⟨List.nodup_nil, fun _ he => nomatch he⟩
  tidy' := ⟨List.nodup_nil, fun _ he => nomatch he⟩
  found _ _ := Iff.rfl

theorem sameSources_own (h : SameTasks ts ts') :
    SameSources (ts.items.foldl addOwn []) (ts'.items.foldl addOwn []) := by
  refine sameSources_nil.marks (marks_foldl marks_addOwn) (marks_foldl marks_addOwn)
    (fun pair source => ?_)
  simp only [h.items.mem_iff]

theorem sameSources_supplement {index source : String} {c c' : Collected}
    {indexed indexed' : List Pair} (h : SameSources c.pairs c'.pairs)
    (hindexed : indexed.Perm indexed') :
    SameSources (indexed.foldl (supplement index source) c).pairs
      (indexed'.foldl (supplement index source) c').pairs := by
  rw [pairs_supplement, pairs_supplement]
  refine h.marks (marks_foldl (fun p => marks_addSource p source))
    (marks_foldl (fun p => marks_addSource p source)) (fun pair s => ?_)
  simp only [hindexed.mem_iff]

end Sources

section Indexes

/-- The same file with its rows in some order, below the same header. -/
structure SameIndex (index index' : String × Csv) : Prop where
  file : index.1 = index'.1
  header : index.2.headD [] = index'.2.headD []
  rows : index.2.tail.Perm index'.2.tail

variable {rows rows' : Csv} {ts ts' : Tasks} {c c' : Collected}

/-- The pair of a row. -/
def rowPair (header : List String) (dependent prerequisite : String) (row : List String) : Pair :=
  (cell header row dependent, cell header row prerequisite)

theorem csvPairs_iff {index file dependent prerequisite : String} {found : List Pair} :
    csvPairs index file rows dependent prerequisite = .ok found ↔
      (∀ row ∈ rows.tail.filter (· ≠ []),
        ¬ ((rowPair (rows.headD []) dependent prerequisite row).1 = "" ∨
          (rowPair (rows.headD []) dependent prerequisite row).2 = "")) ∧
      (rows.tail.filter (· ≠ [])).map (rowPair (rows.headD []) dependent prerequisite) = found := by
  rw [← mapM_check_iff (n := 2)
    (fun row => (rowPair (rows.headD []) dependent prerequisite row).1 = "" ∨
      (rowPair (rows.headD []) dependent prerequisite row).2 = "")
    (fun line => PreledgerError.emptyDependency index file line.2)]
  rfl

theorem csvPairs_agree (index file dependent prerequisite : String)
    (hheader : rows.headD [] = rows'.headD []) (hrows : rows.tail.Perm rows'.tail) :
    Agree List.Perm (csvPairs index file rows dependent prerequisite)
      (csvPairs index file rows' dependent prerequisite) := by
  have hbody : (rows.tail.filter (· ≠ [])).Perm (rows'.tail.filter (· ≠ [])) := hrows.filter _
  refine .of_imp (fun found hfound => ?_) (fun found hfound => ?_)
  · obtain ⟨hall, hmap⟩ := csvPairs_iff.mp hfound
    refine ⟨_, csvPairs_iff.mpr ⟨fun row hrow => ?_, rfl⟩, ?_⟩
    · rw [← hheader]
      exact hall row (hbody.mem_iff.mpr hrow)
    · rw [← hmap, ← hheader]
      exact hbody.map _
  · obtain ⟨hall, -⟩ := csvPairs_iff.mp hfound
    refine ⟨_, csvPairs_iff.mpr ⟨fun row hrow => ?_, rfl⟩⟩
    rw [hheader]
    exact hall row (hbody.mem_iff.mp hrow)

theorem csvDependencies_agree (file : String) (hheader : rows.headD [] = rows'.headD [])
    (hrows : rows.tail.Perm rows'.tail) :
    Agree (fun found found' => found.1.Perm found'.1 ∧ found.2 = found'.2)
      (csvDependencies file rows) (csvDependencies file rows') := by
  unfold csvDependencies
  rw [← hheader]
  refine .ite Iff.rfl (fun _ => .error) (fun _ => ?_)
  cases columns (rows.headD []) with
  | none => exact .error
  | some names =>
    exact .bind (csvPairs_agree _ file names.1 names.2 hheader hrows)
      (fun found found' hperm => .pure ⟨hperm, rfl⟩)

theorem csvExternalDependencies_agree (file : String) (hheader : rows.headD [] = rows'.headD [])
    (hrows : rows.tail.Perm rows'.tail) :
    Agree List.Perm (csvExternalDependencies file rows) (csvExternalDependencies file rows') := by
  unfold csvExternalDependencies
  rw [← hheader]
  exact .ite Iff.rfl (fun _ => csvPairs_agree _ file _ _ hheader hrows) (fun _ => .error)

theorem sameKeys_iff {a b : List Pair} : sameKeys a b = true ↔ ∀ pair, pair ∈ a ↔ pair ∈ b := by
  rw [sameKeys, Bool.and_eq_true, List.all_eq_true, List.all_eq_true]
  simp only [decide_eq_true_eq]
  constructor
  · exact fun h pair => ⟨h.1 pair, h.2 pair⟩
  · exact fun h => ⟨fun pair => (h pair).mp, fun pair => (h pair).mpr⟩

/-- The pairs of an index agree with those that the tasks name or not, whatever the order. -/
theorem sameKeys_filter_iff (p p' : Pair → Bool) {indexed indexed' : List Pair}
    (h : SameSources c.pairs c'.pairs) (hindexed : indexed.Perm indexed')
    (hp : ∀ pair, p pair = p' pair) :
    sameKeys indexed (c.keys.filter p) = true ↔ sameKeys indexed' (c'.keys.filter p') = true := by
  have hkeys (pair : Pair) : pair ∈ c.keys ↔ pair ∈ c'.keys := h.mem_keys_iff
  rw [sameKeys_iff, sameKeys_iff]
  simp only [hindexed.mem_iff, List.mem_filter, hkeys, hp]

theorem SameTasks.mem_ids_iff (h : SameTasks ts ts') (id : String) : id ∈ ts.ids ↔ id ∈ ts'.ids :=
  (h.items.map Task.id).mem_iff

theorem addIndex_agree {index index' : Option (String × Csv)} (hts : SameTasks ts ts')
    (hc : SameSources c.pairs c'.pairs) (hindex : Option.Rel SameIndex index index') :
    Agree (fun c c' => SameSources c.pairs c'.pairs) (addIndex ts c index)
      (addIndex ts' c' index') := by
  cases hindex with
  | none => exact .ok hc
  | @some x y h =>
    obtain ⟨file, rows⟩ := x
    obtain ⟨file', rows'⟩ := y
    obtain rfl : file = file' := h.file
    refine .bind (csvDependencies_agree file h.header h.rows) (fun found found' hfound => ?_)
    obtain ⟨indexed, complete⟩ := found
    obtain ⟨indexed', complete'⟩ := found'
    obtain ⟨hperm, rfl⟩ := hfound
    dsimp only at hperm ⊢
    have hsame := sameKeys_filter_iff (fun pair => pair.1 ∈ ts.ids ∧ pair.2 ∈ ts.ids)
      (fun pair => pair.1 ∈ ts'.ids ∧ pair.2 ∈ ts'.ids) hc hperm
      (fun pair => by simp only [hts.mem_ids_iff])
    refine .ite ?_ (fun _ => .bind (R := fun _ _ => False) .throw (fun _ _ h => h.elim))
      (fun _ => .pure (sameSources_supplement hc hperm))
    rw [Bool.not_eq_true', Bool.not_eq_true', ← Bool.not_eq_true, ← Bool.not_eq_true, hsame]

theorem addExternal_agree {index index' : Option (String × Csv)}
    (hc : SameSources c.pairs c'.pairs) (hindex : Option.Rel SameIndex index index') :
    Agree (fun c c' => SameSources c.pairs c'.pairs) (addExternal c index)
      (addExternal c' index') := by
  cases hindex with
  | none => exact .ok hc
  | @some x y h =>
    obtain ⟨file, rows⟩ := x
    obtain ⟨file', rows'⟩ := y
    obtain rfl : file = file' := h.file
    refine .bind (csvExternalDependencies_agree file h.header h.rows)
      (fun indexed indexed' hperm => ?_)
    have hsame := sameKeys_filter_iff (fun pair => isReceipt pair.2) (fun pair => isReceipt pair.2)
      hc hperm (fun _ => rfl)
    refine .ite ?_ (fun _ => .bind (R := fun _ _ => False) .throw (fun _ _ h => h.elim))
      (fun _ => .pure (sameSources_supplement hc hperm))
    rw [Bool.not_eq_true', Bool.not_eq_true', ← Bool.not_eq_true, ← Bool.not_eq_true]
    exact not_congr hsame

theorem collect_agree {index index' external external' : Option (String × Csv)}
    (hts : SameTasks ts ts') (hindex : Option.Rel SameIndex index index')
    (hexternal : Option.Rel SameIndex external external') :
    Agree (fun c c' => SameSources c.pairs c'.pairs) (collect ts index external)
      (collect ts' index' external') :=
  .bind (addIndex_agree hts (sameSources_own hts) hindex)
    (fun _ _ hc => addExternal_agree hc hexternal)

end Indexes

section Lowering

variable {ts ts' : Tasks} {pairs pairs' : Sources}

/-- A pair with its places sorted, as the compiler writes them. -/
def settled (e : Pair × List String) : Pair × List String := (e.1, e.2.insertionSort (· ≤ ·))

theorem sort_eq_of_perm {l l' : List String} (h : l.Perm l') :
    l.insertionSort (· ≤ ·) = l'.insertionSort (· ≤ ·) :=
  List.Perm.eq_of_pairwise' (List.pairwise_insertionSort _ l) (List.pairwise_insertionSort _ l')
    ((List.perm_insertionSort _ l).trans (h.trans (List.perm_insertionSort _ l').symm))

theorem Tidy.found_iff (h : Tidy pairs) {pair : Pair} {sources : List String} {source : String}
    (hmem : (pair, sources) ∈ pairs) : Found pairs pair source ↔ source ∈ sources := by
  constructor
  · rintro ⟨other, hother, hsource⟩
    have heq := List.inj_on_of_nodup_map h.keys hother hmem rfl
    rwa [(Prod.mk.inj heq).2] at hsource
  · exact fun hsource => ⟨sources, hmem, hsource⟩

/-- An entry of one collection is an entry of the other, but for the order of its places. -/
theorem SameSources.settled_mem (h : SameSources pairs pairs') {e : Pair × List String}
    (he : e ∈ pairs) : settled e ∈ pairs'.map settled := by
  obtain ⟨pair, sources⟩ := e
  have hkey : pair ∈ pairs'.map Prod.fst := h.mem_keys_iff.mp (List.mem_map_of_mem he)
  obtain ⟨⟨pair', sources'⟩, he', rfl⟩ := List.mem_map.mp hkey
  refine List.mem_map.mpr ⟨_, he', Prod.ext rfl (sort_eq_of_perm ?_)⟩
  rw [List.perm_ext_iff_of_nodup (h.tidy'.sources _ he').1 (h.tidy.sources _ he).1]
  intro source
  rw [← h.tidy'.found_iff he', ← h.found, h.tidy.found_iff he]

theorem SameSources.symm (h : SameSources pairs pairs') : SameSources pairs' pairs :=
  ⟨h.tidy', h.tidy, fun pair source => (h.found pair source).symm⟩

theorem fst_settled : Prod.fst ∘ settled = Prod.fst := rfl

theorem Tidy.settled_nodup (h : Tidy pairs) : (pairs.map settled).Nodup := by
  have hkeys : ((pairs.map settled).map Prod.fst).Nodup := by
    rw [List.map_map, fst_settled]
    exact h.keys
  exact hkeys.of_map _

theorem SameSources.settled_perm (h : SameSources pairs pairs') :
    (pairs.map settled).Perm (pairs'.map settled) := by
  rw [List.perm_ext_iff_of_nodup h.tidy.settled_nodup h.tidy'.settled_nodup]
  intro e
  constructor
  · intro he
    obtain ⟨entry, hentry, rfl⟩ := List.mem_map.mp he
    exact h.settled_mem hentry
  · intro he
    obtain ⟨entry, hentry, rfl⟩ := List.mem_map.mp he
    exact h.symm.settled_mem hentry

instance : Std.Total pairLe where
  total a b := by
    rcases lt_trichotomy a.1 b.1 with h | h | h
    · exact .inl (.inl h)
    · rcases le_total a.2 b.2 with h' | h'
      · exact .inl (.inr ⟨h, h'⟩)
      · exact .inr (.inr ⟨h.symm, h'⟩)
    · exact .inr (.inl h)

instance : IsTrans Pair pairLe where
  trans a b c := by
    rintro (hab | ⟨hab, hab'⟩) (hbc | ⟨hbc, hbc'⟩)
    · exact .inl (hab.trans hbc)
    · exact .inl (hbc ▸ hab)
    · exact .inl (hab ▸ hbc)
    · exact .inr ⟨hab.trans hbc, hab'.trans hbc'⟩

instance : Std.Antisymm pairLe where
  antisymm a b := by
    rintro (hab | ⟨hab, hab'⟩) (hba | ⟨hba, hba'⟩)
    · exact absurd hba hab.asymm
    · exact absurd hab (hba ▸ lt_irrefl _)
    · exact absurd hba (hab ▸ lt_irrefl _)
    · exact Prod.ext hab (le_antisymm hab' hba')

/-- The compiler runs through the same entries in the same order. -/
theorem sorted_settled (h : SameSources pairs pairs') :
    (pairs.insertionSort (fun a b => pairLe a.1 b.1)).map settled =
      (pairs'.insertionSort (fun a b => pairLe a.1 b.1)).map settled := by
  have hmap (pairs : Sources) : (pairs.insertionSort (fun a b => pairLe a.1 b.1)).map settled =
      (pairs.map settled).insertionSort (fun a b => pairLe a.1 b.1) :=
    List.map_insertionSort _ _ settled pairs (fun _ _ _ _ => Iff.rfl)
  rw [hmap, hmap]
  refine insertionSort_eq_of_perm h.settled_perm ?_
  rw [List.map_map, fst_settled]
  exact h.tidy.keys

theorem SameTasks.selected_mem_iff (h : SameTasks ts ts') (target id : String) :
    id ∈ (ts.selected target).map Task.id ↔ id ∈ (ts'.selected target).map Task.id :=
  ((h.items.filter _).map Task.id).mem_iff

theorem SameTasks.nodup' (h : SameTasks ts ts') : ts'.ids.Nodup :=
  (h.items.map Task.id).nodup_iff.mp h.nodup

theorem find?_iff (hnodup : ts.ids.Nodup) {id : String} {task : Task} :
    ts.items.find? (fun t => t.id = id) = some task ↔ task ∈ ts.items ∧ task.id = id := by
  constructor
  · intro h
    exact ⟨List.mem_of_find?_eq_some h, by simpa using List.find?_some h⟩
  · rintro ⟨hmem, hid⟩
    cases hfind : ts.items.find? (fun t => t.id = id) with
    | none =>
      rw [List.find?_eq_none] at hfind
      exact absurd (decide_eq_true hid) (hfind task hmem)
    | some other =>
      have hother : other.id = id := by simpa using List.find?_some hfind
      rw [List.inj_on_of_nodup_map hnodup (List.mem_of_find?_eq_some hfind) hmem
        (hother.trans hid.symm)]

theorem SameTasks.repositoryOf (h : SameTasks ts ts') (id : String) :
    ts.repositoryOf id = ts'.repositoryOf id := by
  unfold Tasks.repositoryOf
  congr 1
  refine Option.ext (fun task => ?_)
  rw [find?_iff h.nodup, find?_iff h.nodup', h.items.mem_iff]

theorem SameTasks.lowerPair (h : SameTasks ts ts') (target : String) (e : Pair × List String) :
    lowerPair ts target e = lowerPair ts' target e := by
  have hnative : native? ts target e.1.2 = native? ts' target e.1.2 := by
    unfold native?
    simp only [h.selected_mem_iff, h.owner]
  unfold Preledger.lowerPair
  rw [hnative]
  simp only [h.owner, h.repositoryOf]

theorem lowerPair_settled (target : String) (e : Pair × List String) :
    lowerPair ts target (settled e) = lowerPair ts target e := by
  have hsort : (e.2.insertionSort (· ≤ ·)).insertionSort (· ≤ ·) = e.2.insertionSort (· ≤ ·) :=
    sort_eq_of_perm (List.perm_insertionSort _ _)
  unfold lowerPair settled
  simp only [hsort]

theorem lowered_settled (ts : Tasks) (target : String) (entries : Sources) :
    (entries.filter (fun e => e.1.1 ∈ (ts.selected target).map Task.id)).map
        (lowerPair ts target) =
      ((entries.map settled).filter (fun e => e.1.1 ∈ (ts.selected target).map Task.id)).map
        (lowerPair ts target) := by
  rw [List.filter_map, List.map_map]
  apply List.map_congr_left
  intro e _
  exact (lowerPair_settled target e).symm

theorem lowerAll_agree (hts : SameTasks ts ts') (h : SameSources pairs pairs') (target : String) :
    Agree Eq (lowerAll ts target pairs) (lowerAll ts' target pairs') := by
  have hsorted (pairs : Sources) (e : Pair × List String) :
      e ∈ pairs.insertionSort (fun a b => pairLe a.1 b.1) ↔ e ∈ pairs :=
    (List.perm_insertionSort _ pairs).mem_iff
  -- the consumer of a pair of either collection is one of the other
  have hconsumers {ts ts' : Tasks} {pairs pairs' : Sources} (hts : SameTasks ts ts')
      (h : SameSources pairs pairs') (hall : ∀ e ∈ pairs, e.1.1 ∈ ts.ids) :
      ∀ e ∈ pairs', e.1.1 ∈ ts'.ids := by
    intro e he
    obtain ⟨other, hother, heq⟩ := List.mem_map.mp (h.mem_keys_iff.mpr (List.mem_map_of_mem he))
    rw [← heq, ← hts.mem_ids_iff]
    exact hall other hother
  have hsymm : SameTasks ts' ts := ⟨hts.items.symm, hts.nodup', fun c => (hts.owner c).symm⟩
  refine .bind (R := fun _ _ => True) (.of_imp (fun _ hok => ⟨(), ?_, trivial⟩)
    (fun _ hok => ⟨(), ?_⟩)) (fun _ _ _ => .pure ?_)
  · have hall := forM_check_iff.mp hok
    refine forM_check_iff.mpr (fun e he => ?_)
    exact hconsumers hts h (fun e he => hall e ((hsorted pairs e).mpr he)) e
      ((hsorted pairs' e).mp he)
  · have hall := forM_check_iff.mp hok
    refine forM_check_iff.mpr (fun e he => ?_)
    exact hconsumers hsymm h.symm (fun e he => hall e ((hsorted pairs' e).mpr he)) e
      ((hsorted pairs e).mp he)
  · rw [lowered_settled ts, lowered_settled ts', sorted_settled h]
    simp only [hts.selected_mem_iff]
    exact List.map_congr_left (fun e _ => hts.lowerPair target e)

/-- The selected tasks are the same, in the same order. -/
theorem SameTasks.sorted (h : SameTasks ts ts') (target : String) :
    (ts.selected target).insertionSort (fun a b => a.id ≤ b.id) =
      (ts'.selected target).insertionSort (fun a b => a.id ≤ b.id) := by
  refine insertionSort_eq_of_perm (f := Task.id) (r := (· ≤ ·)) (h.items.filter _) ?_
  exact h.nodup.sublist (List.filter_sublist.map Task.id)

end Lowering

section Interfaces

variable {str : Json → String} {selected : List String}

theorem duplicates_eq_nil_iff {ids : List String} :
    (ids.filter (fun id => 1 < ids.count id)).dedup = [] ↔ ids.Nodup := by
  rw [List.nodup_iff_count_le_one, List.eq_nil_iff_forall_not_mem]
  simp only [List.mem_dedup, List.mem_filter, decide_eq_true_eq, not_and, not_lt]
  constructor
  · intro h id
    by_cases hid : id ∈ ids
    · exact h id hid
    · rw [List.count_eq_zero_of_not_mem hid]
      exact Nat.zero_le 1
  · exact fun h id _ => h id

/-- The same catalog with its records in some order. -/
def SameCatalog (v v' : Json) : Prop :=
  Option.Rel List.Perm (recordItems v ["interfaces", "interface_catalog"])
    (recordItems v' ["interfaces", "interface_catalog"])

theorem lowerInterfaces_agree {catalog catalog' : Option Json}
    (h : Option.Rel SameCatalog catalog catalog') :
    Agree (fun found found' => found.1 = found'.1) (lowerInterfaces str selected catalog)
      (lowerInterfaces str selected catalog') := by
  cases h with
  | none => exact .ok rfl
  | @some v v' h =>
    refine .bind (records_agree h) (fun found found' hperm => ?_)
    have hlowered : (found.filterMap (lowerInterface str · selected)).Perm
        (found'.filterMap (lowerInterface str · selected)) := hperm.filterMap _
    have hids : ((found.filterMap (lowerInterface str · selected)).map Interface.id).Nodup ↔
        ((found'.filterMap (lowerInterface str · selected)).map Interface.id).Nodup :=
      (hlowered.map Interface.id).nodup_iff
    refine .ite ?_ (fun _ => .bind (R := fun _ _ => False) .throw (fun _ _ h => h.elim))
      (fun hnodup => .pure ?_)
    · rw [ne_eq, ne_eq, duplicates_eq_nil_iff, duplicates_eq_nil_iff, hids]
    · rw [ne_eq, not_not, duplicates_eq_nil_iff] at hnodup
      exact insertionSort_eq_of_perm (f := Interface.id) (r := (· ≤ ·)) hlowered hnodup

end Interfaces

section Plan

/-- What the compiler reports beside the plan and the warnings. -/
structure Report where
  selectedTaskCount : ℕ
  excludedTaskCount : ℕ
  internalDependencyCount : ℕ
  externalDependencies : List ExternalDependency
  interfacesImported : ℕ

def Compiled.report (c : Compiled) : Report :=
  ⟨c.selectedTaskCount, c.excludedTaskCount, c.internalDependencyCount, c.externalDependencies,
    c.interfacesImported⟩

def Rejects (x : Except CompileError Compiled) : Prop := ∃ e, x = .error e

/-- The compiler returns the plan and the report, with whatever warnings. -/
def Returns (x : Except CompileError Compiled) (plan : Plan) (report : Report) : Prop :=
  ∃ c, x = .ok c ∧ c.nativeTodoPlan = plan ∧ c.report = report

/-- The same package with its records and the rows of its indexes in some order. -/
structure Permuted (package package' : Package) : Prop where
  tasks : Option.Rel List.Perm (recordItems package.tasks ["tasks", "proposed_todos"])
    (recordItems package'.tasks ["tasks", "proposed_todos"])
  interfaces : Option.Rel SameCatalog package.interfaces package'.interfaces
  dependencyIndex : Option.Rel SameIndex package.dependencyIndex package'.dependencyIndex
  externalDependencies :
    Option.Rel SameIndex package.externalDependencies package'.externalDependencies

variable {str repr : Json → String} {package package' : Package} {targetRepository : String}
  {lowered : List Lowered}

theorem compilePlan_agree (h : Permuted package package') (digest : String) :
    Agree (fun c c' => c.nativeTodoPlan = c'.nativeTodoPlan ∧ c.report = c'.report)
      (compilePlan str repr digest package targetRepository)
      (compilePlan str repr digest package' targetRepository) := by
  unfold compilePlan
  refine .ite Iff.rfl (fun _ => .bind (R := fun _ _ => False) .throw (fun _ _ h => h.elim))
    (fun _ => ?_)
  refine .bind (.mapError (loadTasks_agree h.tasks)) (fun ts ts' hts => ?_)
  refine .bind (.mapError (collect_agree hts h.dependencyIndex h.externalDependencies))
    (fun c c' hc => ?_)
  refine .bind (.mapError (lowerAll_agree hts hc _)) (fun lowered lowered' heq => ?_)
  subst heq
  rw [hts.sorted, hts.items.length_eq]
  refine .bind (R := Eq) (.refl (fun _ _ => rfl)) (fun tasks tasks' heq => ?_)
  subst heq
  refine .bind (.mapError (lowerInterfaces_agree h.interfaces)) (fun found found' heq => ?_)
  obtain ⟨interfaces, warnings⟩ := found
  obtain ⟨interfaces', warnings'⟩ := found'
  obtain rfl : interfaces = interfaces' := heq
  exact .pure ⟨rfl, rfl⟩

theorem planTask_uniform (task : Task) :
    Uniform (fun digest => planTask digest lowered task) (fun _ => True) := by
  refine .bind_const (fun native => ?_)
  cases hkind : isUnhashable ((Dict.get task.record "task_kind").getD (.str "task")) with
  | true => exact .error
  | false => exact .ok trivial

/-- The digest is only put into the plan. -/
theorem compilePlan_uniform :
    Uniform (fun digest => compilePlan str repr digest package targetRepository) (fun f =>
      ∀ digest digest', (f digest).report = (f digest').report) := by
  unfold compilePlan
  by_cases htarget : strip targetRepository = ""
  · simp only [if_pos htarget]
    exact .error
  simp only [if_neg htarget]
  refine .bind_const (fun ts => ?_)
  refine .bind_const (fun collected => ?_)
  refine .bind_const (fun lowered => ?_)
  refine .bind (.mapM (fun task _ => planTask_uniform task)) (fun tasks _ => ?_)
  refine .bind_const (fun interfaces => ?_)
  exact .ok (fun _ _ => rfl)

/-- A package and its permuted form are both rejected, whatever their digests, or both return
the same plan, into which the digest is put, and the same report. -/
theorem order_is_ignored (h : Permuted package package') :
    (∀ digest, Rejects (compilePlan str repr digest package targetRepository) ∧
      Rejects (compilePlan str repr digest package' targetRepository)) ∨
    ∃ (plan : String → Plan) (report : Report), ∀ digest,
      Returns (compilePlan str repr digest package targetRepository) (plan digest) report ∧
      Returns (compilePlan str repr digest package' targetRepository) (plan digest) report := by
  have hagree (digest : String) : Agree
      (fun c c' => c.nativeTodoPlan = c'.nativeTodoPlan ∧ c.report = c'.report)
      (compilePlan str repr digest package targetRepository)
      (compilePlan str repr digest package' targetRepository) := compilePlan_agree h digest
  have huniform : Uniform (fun digest => compilePlan str repr digest package targetRepository)
      (fun f => ∀ digest digest', (f digest).report = (f digest').report) := compilePlan_uniform
  rcases huniform with herror | ⟨f, hf, hreport⟩
  · refine .inl (fun digest => ?_)
    obtain ⟨e, he⟩ : Rejects (compilePlan str repr digest package targetRepository) := herror digest
    have hboth := hagree digest
    rw [he] at hboth
    cases hc : compilePlan str repr digest package' targetRepository with
    | error e' => exact ⟨⟨e, he⟩, e', rfl⟩
    | ok c' =>
      rw [hc] at hboth
      cases hboth
  · refine .inr ⟨fun digest => (f digest).nativeTodoPlan, (f "").report, fun digest => ?_⟩
    have hboth := hagree digest
    have hok : compilePlan str repr digest package targetRepository = .ok (f digest) := hf digest
    rw [hok] at hboth
    refine ⟨⟨f digest, hok, rfl, hreport digest ""⟩, ?_⟩
    cases hc : compilePlan str repr digest package' targetRepository with
    | error e' =>
      rw [hc] at hboth
      cases hboth
    | ok c' =>
      rw [hc] at hboth
      cases hboth with
      | ok hsame => exact ⟨c', rfl, hsame.1.symm, hsame.2.symm.trans (hreport digest "")⟩

/-- The package of two tasks with the second task first. -/
def reversedPackage (prerequisites : List Json) : Package :=
  { samplePackage prerequisites with
    tasks := .arr [.obj (sampleTask "B" prerequisites), .obj (sampleTask "A" [])] }

theorem reversed_order_is_ignored : ∃ (plan : String → Plan) (report : Report), ∀ digest,
    Returns (compilePlan (fun _ => "") (fun _ => "") digest (samplePackage [.str "A"]) "core")
        (plan digest) report ∧
      Returns (compilePlan (fun _ => "") (fun _ => "") digest (reversedPackage [.str "A"]) "core")
        (plan digest) report := by
  have hperm : Permuted (samplePackage [.str "A"]) (reversedPackage [.str "A"]) :=
    ⟨.some (List.Perm.swap _ _ _), .none, .none, .none⟩
  refine (order_is_ignored hperm).resolve_left (fun hrejects => ?_)
  obtain ⟨e, he⟩ := (hrejects "").1
  have hok : (compilePlan (fun _ => "") (fun _ => "") "" (samplePackage [.str "A"])
      "core").isOk = true := by decide +kernel
  rw [he] at hok
  cases hok

end Plan

end ProjectControl.Preledger
