import Mathlib.Data.Prod.Lex
import Mathlib.Data.List.Lex
import Mathlib.Data.String.Basic
import ProjectControl.HostFence
import ProjectControl.HostPreemption

/-! The discovery of device bundles by the facade, and whether a reservation of what it
finds is granted. -/

set_option autoImplicit false

namespace ProjectControl.HostResources

open Sql

section Facade

variable (db : Registry)

/-- The devices that discovery combines: `list(kind="accelerator")`, as far as enabled. -/
def devices : List Resource :=
  ((db.resources.filter (fun r => r.kind = "accelerator")).insertionSort
    (fun a b => a.id ≤ b.id)).filter (·.enabled)

/-- What devices are grouped by. -/
def Resource.domain (r : Resource) : String := (r.tags.lookup "nvlink_domain").getD r.id

/-- `groups.values()`. -/
def domainGroups : List (List Resource) :=
  ((devices db).map (·.domain)).eraseDups.map (fun d => (devices db).filter (·.domain = d))

/-- The combinations within a group, or all of them if there are none. -/
def bundleCandidates (count : ℕ) : List (List Resource) :=
  let grouped := (domainGroups db).flatMap (combinations count)
  if grouped = [] then combinations count (devices db) else grouped

/-- `conflicts`. -/
def conflicts (resources : List ResourceId) : List OwnerId :=
  (((db.reservations.rows.filter (fun x => x.state = .active && x.resourceId ∈ resources)).map
    (·.ownerId)).filter
      (fun id => db.owners.rows.any (fun o => o.id = id && o.state = .active))).dedup

structure Bundle where
  resourceIds : List ResourceId
  exclusiveResources : List ResourceId
  numaLocal : Bool
  numaNodes : List String
  memoryFreeMib : ℕ
  utilizationPercentSum : ℕ
  deriving DecidableEq, Repr

variable (digits : String → Option ℕ)

/-- The bundle that is reported for a combination; `digits` is `int` of a text of digits. One that
`int` refuses, such as a superscript, raises out of the discovery; such tags are left out. -/
def bundleOf (combo : List Resource) : Bundle :=
  let numaNodes := combo.map (fun r => (r.tags.lookup "numa_node").getD "unknown")
  let total (key : String) := (combo.map (fun r =>
    ((r.tags.lookup key).bind digits).getD 0)).sum
  { resourceIds := (combo.map (·.id)).insertionSort (· ≤ ·)
    exclusiveResources := sortedSet (combo.filterMap (fun r =>
      (r.tag? "nvlink_domain").map ("interference:nvlink:" ++ ·)))
    numaLocal := decide (numaNodes.dedup.length = 1) && "unknown" ∉ numaNodes
    numaNodes := sortedSet numaNodes
    memoryFreeMib := total "memory_free_mib"
    utilizationPercentSum := total "utilization_percent" }

/-- The order in which bundles are reported. -/
def Bundle.rank (b : Bundle) : Bool ×ₗ ℤ ×ₗ ℕ ×ₗ List ResourceId :=
  toLex (!b.numaLocal, toLex (-b.memoryFreeMib, toLex (b.utilizationPercentSum, b.resourceIds)))

/-- `compound_gpu_bundles`, and what its sweep leaves. -/
def compoundGpuBundles (env : Env) (count : ℤ) : Except HostError (Registry × List Bundle) := do
  if count < 1 then throw (.value "GPU bundle count must be positive")
  let (db, _) ← sweepStale env db staleSeconds
  let bundles := ((bundleCandidates db count.toNat).map (bundleOf digits)).filter
    (fun b => conflicts db (b.resourceIds ++ b.exclusiveResources) = [])
  return (db, bundles.insertionSort (fun a b => a.rank ≤ b.rank))

end Facade

section Text

variable {α : Type} {n : ℕ} {c l : List α} {a b : List String} {x : String}

/-- The combinations of a length are the sublists of it. -/
theorem mem_combinations : c ∈ combinations n l ↔ c.Sublist l ∧ c.length = n := by
  induction l generalizing n c with
  | nil =>
    cases n with
    | zero => simp [combinations]
    | succ n =>
      simp only [combinations, List.not_mem_nil, List.sublist_nil, false_iff, not_and]
      rintro rfl h
      cases h
  | cons head rest ih =>
    cases n with
    | zero =>
      rw [combinations, List.mem_singleton, List.length_eq_zero_iff]
      exact ⟨fun h => ⟨h ▸ List.nil_sublist _, h⟩, fun h => h.2⟩
    | succ n =>
      rw [combinations, List.mem_append, List.mem_map, ih]
      constructor
      · rintro (⟨tail, htail, rfl⟩ | ⟨hsub, hlength⟩)
        · obtain ⟨hsub, hlength⟩ := ih.mp htail
          exact ⟨hsub.cons_cons head, by simp [hlength]⟩
        · exact ⟨hsub.cons head, hlength⟩
      · rintro ⟨hsub, hlength⟩
        cases hsub with
        | cons _ hsub => exact .inr ⟨hsub, hlength⟩
        | cons_cons _ hsub => exact .inl ⟨_, ih.mpr ⟨hsub, Nat.succ.inj hlength⟩, rfl⟩

theorem mem_sortedSet : x ∈ sortedSet a ↔ x ∈ a :=
  (List.mem_insertionSort _).trans List.mem_dedup

/-- Sorted lists without repetition are equal if they have the same members. -/
theorem eq_of_sorted (ha : a.Pairwise (· ≤ ·)) (hb : b.Pairwise (· ≤ ·)) (hna : a.Nodup)
    (hnb : b.Nodup) (h : ∀ x, x ∈ a ↔ x ∈ b) : a = b :=
  List.Perm.eq_of_pairwise (fun _ _ _ _ => le_antisymm) ha hb ((List.perm_ext_iff_of_nodup hna hnb).mpr h)

theorem sortedSet_sorted : (sortedSet a).Pairwise (· ≤ ·) := List.pairwise_insertionSort _ _

theorem sortedSet_congr (h : ∀ x, x ∈ a ↔ x ∈ b) : sortedSet a = sortedSet b := by
  refine eq_of_sorted sortedSet_sorted sortedSet_sorted (sortedSet_nodup a) (sortedSet_nodup b) ?_
  intro x
  rw [mem_sortedSet, mem_sortedSet, h]

end Text

section Sweep

variable {env : Env} {db db' : Registry} {window : ℚ}

theorem sweep_resources : Ensures (sweepLocked env db window)
    (fun db' => db'.resources = db.resources) := by
  refine ensures_sweep (fun db₁ id h₁ db₂ h₂ => ?_) (fun db₁ h₁ db₂ h₂ => ?_) rfl
  · cases h₂
    exact h₁
  · cases h₂
    exact h₁

/-- A statement that writes no live row. -/
theorem live_of_exec {s : Statement} {n : OwnerId} {o : Owner} (hinsert : ∀ new, s ≠ .insertOwner new)
    (hdelete : ∀ selected, s ≠ .deleteOwners selected)
    (hwrite : ∀ o o', OwnerWrite s o o' → o'.state.live = false) (h : db.exec s = .ok db')
    (ho : db'.owner? n = some o) (hlive : o.state.live = true) : db.owner? n = some o := by
  cases ho₁ : db.owner? n with
  | none =>
    rcases exec_fresh h ho₁ with hnone | ⟨new, hnew, -⟩
    · rw [hnone] at ho
      cases ho
    · exact absurd hnew (hinsert new)
  | some o₁ =>
    rcases exec_owner h ho₁ with hsame | ⟨o', ho', hw, -⟩ | ⟨selected, hs, -⟩
    · rw [hsame] at ho
      cases ho
      rfl
    · rw [ho'] at ho
      cases ho
      rw [hwrite _ _ hw] at hlive
      cases hlive
    · exact absurd hs (hdelete selected)

/-- A sweep writes no row that stays live. -/
theorem sweep_live : Ensures (sweepLocked env db window) (fun db' => ∀ n o,
    db'.owner? n = some o → o.state.live = true → db.owner? n = some o) := by
  refine ensures_sweep (fun db₁ id h₁ => ?_) (fun db₁ h₁ db₂ h₂ n o ho hlive => ?_)
    (fun _ _ h _ => h)
  · refine Ensures.bind Ensures.of_eq (fun db₂ h₂ => ?_)
    refine Ensures.bind Ensures.of_eq (fun db₃ h₃ db₄ h₄ n o ho hlive => ?_)
    have ho₃ := live_of_exec (fun _ h => by cases h) (fun _ h => by cases h)
      (fun _ _ h => by cases h) h₄ ho hlive
    have ho₂ := live_of_exec (fun _ h => by cases h) (fun _ h => by cases h)
      (fun _ _ h => by cases h; rfl) h₃ ho₃ hlive
    have ho₁ := live_of_exec (fun _ h => by cases h) (fun _ h => by cases h)
      (fun _ _ h => by cases h) h₂ ho₂ hlive
    exact h₁ n o ho₁ hlive
  · have ho₁ := live_of_exec (fun _ h => by cases h) (fun _ h => by cases h)
      (fun _ _ h => by cases h) h₂ ho hlive
    exact h₁ n o ho₁ hlive

theorem foldlM_fixed {σ α : Type} {f : σ → α → Except HostError σ} {s : σ} {items : List α}
    (h : ∀ x ∈ items, f s x = .ok s) : items.foldlM f s = .ok s := by
  induction items with
  | nil => rfl
  | cons x rest ih =>
    rw [List.foldlM_cons, h x List.mem_cons_self]
    exact ih (fun y hy => h y (List.mem_cons_of_mem _ hy))

/-- A second sweep at the same readings changes nothing. -/
theorem sweep_idempotent (h : sweepLocked env db window = .ok db') :
    sweepLocked env db' window = .ok db' := by
  have hrows : ∀ o ∈ sweepRows env db' window, sweepOwner env db' o = .ok db' := by
    intro o hmem
    obtain ⟨hrow, hsel⟩ := List.mem_filter.mp hmem
    simp only [Bool.and_eq_true, decide_eq_true_eq] at hsel
    have ho' : db'.owner? o.id = some o := owner?_eq_some.mpr ⟨hrow, rfl⟩
    have ho : db.owner? o.id = some o := sweep_live db' h o.id o ho' hsel.1
    unfold sweepOwner
    split
    · rfl
    · split
      · rfl
      · -- the first sweep has reclaimed such an owner
        rename_i hplain hdead
        have hreclaimed := sweep_reclaims ho hsel.1 (by simpa using hplain) (by simpa using hdead)
          hsel.2 db' h
        obtain ⟨o₁, ho₁, hstale, -⟩ := hreclaimed.row
        rw [ho'] at ho₁
        cases ho₁
        rw [hstale] at hsel
        cases hsel.1
  have hintents : db'.exec (.releaseOrphanIntents env.clock) = .ok db' := by
    have hlast : Ensures (sweepLocked env db window) (fun db' =>
        db'.exec (.releaseOrphanIntents env.clock) = .ok db') := by
      refine Ensures.bind (P := fun _ => True) (fun _ _ => trivial) (fun db₁ _ db₂ h₂ => ?_)
      cases h₂
      refine congrArg Except.ok ?_
      unfold Registry.updateIntents
      congr 1
      refine Table.update_eq_self (fun i hi => ?_)
      obtain ⟨i₁, hi₁, rfl⟩ := (Table.mem_update i).mp hi
      split
      · rfl
      · rename_i hkept
        exact Bool.eq_false_iff.mpr hkept
    exact hlast db' h
  unfold sweepLocked
  rw [foldlM_fixed hrows]
  exact hintents

end Sweep

section Candidates

variable {env : Env} {db db' : Registry} {combo : List Resource} {count : ℕ} {r : ResourceId}
  {ids : List ResourceId}

theorem mem_devices {x : Resource} : x ∈ devices db ↔
    x ∈ db.resources ∧ x.kind = "accelerator" ∧ x.enabled = true := by
  simp [devices, List.mem_insertionSort, and_assoc]

/-- A query on the resources returns no id twice. -/
theorem query_nodup (hkey : ResourceKeys db) (p q : Resource → Bool) :
    ((((db.resources.filter p).insertionSort (fun a b => a.id ≤ b.id)).filter q).map
      (·.id)).Nodup := by
  have hsort := List.perm_insertionSort (fun a b : Resource => a.id ≤ b.id) (db.resources.filter p)
  have hselected : ((db.resources.filter p).map (·.id)).Nodup :=
    hkey.sublist (List.filter_sublist.map _)
  have hsorted := (hsort.map (·.id)).nodup_iff.mpr hselected
  exact hsorted.sublist (List.filter_sublist.map _)

/-- A candidate is a combination of devices. -/
theorem sublist_of_candidate (h : combo ∈ bundleCandidates db count) :
    combo.Sublist (devices db) ∧ combo.length = count := by
  have hgrouped : ∀ combo ∈ (domainGroups db).flatMap (combinations count),
      combo.Sublist (devices db) ∧ combo.length = count := by
    intro combo hcombo
    obtain ⟨group, hgroup, hmem⟩ := List.mem_flatMap.mp hcombo
    obtain ⟨d, -, rfl⟩ := List.mem_map.mp hgroup
    obtain ⟨hsub, hlength⟩ := mem_combinations.mp hmem
    exact ⟨hsub.trans List.filter_sublist, hlength⟩
  unfold bundleCandidates at h
  dsimp only at h
  split at h
  · exact mem_combinations.mp h
  · exact hgrouped combo h

/-- The combinations of one domain are candidates. -/
theorem candidate_of_domain {domain : String} (hcount : count ≠ 0)
    (hsub : combo.Sublist ((devices db).filter (·.domain = domain))) (hlength : combo.length = count) :
    combo ∈ bundleCandidates db count := by
  have hdomain : domain ∈ ((devices db).map (·.domain)).eraseDups := by
    obtain ⟨x, hx⟩ := List.exists_mem_of_length_pos (l := combo) (by omega)
    obtain ⟨hmem, hd⟩ := List.mem_filter.mp (hsub.subset hx)
    rw [List.mem_eraseDups]
    exact List.mem_map.mpr ⟨x, hmem, by simpa using hd⟩
  have hgrouped : combo ∈ (domainGroups db).flatMap (combinations count) :=
    List.mem_flatMap.mpr ⟨_, List.mem_map.mpr ⟨domain, hdomain, rfl⟩,
      mem_combinations.mpr ⟨hsub, hlength⟩⟩
  unfold bundleCandidates
  dsimp only
  rw [if_neg (List.ne_nil_of_mem hgrouped)]
  exact hgrouped

/-- Only active owners count as conflicts. -/
theorem conflicts_eq_nil : conflicts db ids = [] ↔
    ∀ r ∈ ids, ∀ n, db.active r n → ¬ ∃ o, db.owner? n = some o ∧ o.state = .active := by
  have hmem (n : OwnerId) : n ∈ conflicts db ids ↔
      (∃ r ∈ ids, db.active r n) ∧ ∃ o, db.owner? n = some o ∧ o.state = .active := by
    unfold conflicts
    rw [List.mem_dedup, List.mem_filter, List.mem_map]
    refine and_congr ⟨?_, ?_⟩ ⟨?_, ?_⟩
    · rintro ⟨x, hx, rfl⟩
      obtain ⟨hx, hsel⟩ := List.mem_filter.mp hx
      simp only [Bool.and_eq_true, decide_eq_true_eq] at hsel
      exact ⟨x.resourceId, hsel.2, x, hx, rfl, rfl, hsel.1⟩
    · rintro ⟨r, hr, x, hx, rfl, rfl, hs⟩
      exact ⟨x, List.mem_filter.mpr ⟨hx, by simp [hs, hr]⟩, rfl⟩
    · intro hany
      obtain ⟨o, ho, hsel⟩ := List.any_eq_true.mp hany
      simp only [Bool.and_eq_true, decide_eq_true_eq] at hsel
      exact ⟨o, owner?_eq_some.mpr ⟨ho, hsel.1⟩, hsel.2⟩
    · rintro ⟨o, ho, hs⟩
      obtain ⟨hrow, hid⟩ := owner?_eq_some.mp ho
      exact List.any_eq_true.mpr ⟨o, hrow, by simp [hid, hs]⟩
  rw [List.eq_nil_iff_forall_not_mem]
  constructor
  · exact fun h r hr n hactive howner => h n ((hmem n).mpr ⟨⟨r, hr, hactive⟩, howner⟩)
  · intro h n hn
    obtain ⟨⟨r, hr, hactive⟩, howner⟩ := (hmem n).mp hn
    exact h r hr n hactive howner

/-- The request that reserves a bundle. -/
def Bundle.request (b : Bundle) : Request :=
  { ids := b.resourceIds, exclusiveResources := b.exclusiveResources }

/-- All the resources of a bundle. -/
def Bundle.resources (b : Bundle) : List ResourceId := b.resourceIds ++ b.exclusiveResources

theorem bundle_ids (digits : String → Option ℕ) (hkey : ResourceKeys db)
    (hsub : combo.Sublist (devices db)) :
    (bundleOf digits combo).resourceIds.Nodup ∧
      ∀ r, r ∈ (bundleOf digits combo).resourceIds ↔ ∃ x ∈ combo, x.id = r := by
  refine ⟨?_, fun r => (List.mem_insertionSort _).trans List.mem_map⟩
  refine (List.perm_insertionSort _ _).nodup_iff.mpr ?_
  exact (query_nodup hkey _ _).sublist (hsub.map _)

theorem mem_eligible {b : Bundle} {x : Resource} :
    x ∈ eligible db b.request ↔ x ∈ db.resources ∧ x.kind = "accelerator" ∧ x.enabled = true := by
  have hkind : b.request.kind = "accelerator" := rfl
  have htags : b.request.tags = [] := rfl
  unfold eligible
  rw [hkind, htags]
  simp [List.mem_insertionSort, and_comm]

/-- The request of a bundle has one bundle to try: its own resources. -/
theorem expanded_bundle (digits : String → Option ℕ) (hkey : ResourceKeys db)
    (hsub : combo.Sublist (devices db)) (hne : combo ≠ []) :
    candidateResourcesLocked db (bundleOf digits combo).request =
      .ok [sortedSet (bundleOf digits combo).resources] := by
  obtain ⟨hnodup, hids⟩ := bundle_ids digits hkey hsub
  let selected := (eligible db (bundleOf digits combo).request).filter
    (fun r => r.id ∈ (bundleOf digits combo).request.ids)
  have hmem : ∀ r, r ∈ selected.map (·.id) ↔ r ∈ (bundleOf digits combo).resourceIds := by
    intro r
    constructor
    · intro hr
      obtain ⟨x, hx, rfl⟩ := List.mem_map.mp hr
      exact of_decide_eq_true (List.mem_filter.mp hx).2
    · intro hr
      obtain ⟨x, hx, rfl⟩ := (hids r).mp hr
      refine List.mem_map.mpr ⟨x, List.mem_filter.mpr ⟨?_, decide_eq_true hr⟩, rfl⟩
      exact mem_eligible.mpr (mem_devices.mp (hsub.subset hx))
  have hselected : (selected.map (·.id)).Nodup :=
    (query_nodup hkey _ _).sublist (List.filter_sublist.map _)
  have hlength : selected.length = (bundleOf digits combo).request.ids.length := by
    rw [← List.length_map (f := (·.id))]
    exact ((List.perm_ext_iff_of_nodup hselected hnodup).mpr hmem).length_eq
  have hids_ne : (bundleOf digits combo).request.ids ≠ [] := by
    obtain ⟨x, hx⟩ := List.exists_mem_of_ne_nil combo hne
    exact List.ne_nil_of_mem ((hids x.id).mpr ⟨x, hx, rfl⟩)
  have hbundles : bundles db (bundleOf digits combo).request = .ok [selected] := by
    unfold bundles
    rw [if_pos hids_ne]
    exact congrArg Except.ok (if_pos hlength)
  unfold candidateResourcesLocked
  rw [hbundles]
  refine congrArg (fun ids => Except.ok [ids]) (sortedSet_congr (fun r => ?_))
  rw [List.mem_append, hmem, extraIds, mem_sortedSet]
  simp [Bundle.resources, Bundle.request]

end Candidates

section Agreement

variable {digits : String → Option ℕ} {hashes : Hashes} {env env' : Env}
  {db db' db₁ swept : Registry} {count : ℤ} {b : Bundle}
  {bundles : List Bundle} {combo : List Resource} {projectRoot serviceId : String} {pid : ℕ}
  {priorityClass : PriorityClass}

/-- What discovery finds: the candidates without a conflict in the registry that it swept. -/
theorem bundles_found (h : compoundGpuBundles db digits env count = .ok (db₁, bundles)) :
    1 ≤ count ∧ sweepLocked env db staleSeconds = .ok db₁ ∧ ∀ b, b ∈ bundles ↔
      ∃ combo ∈ bundleCandidates db₁ count.toNat, bundleOf digits combo = b ∧
        conflicts db₁ b.resources = [] := by
  have hfound : Ensures (compoundGpuBundles db digits env count) (fun out => 1 ≤ count ∧
      sweepLocked env db staleSeconds = .ok out.1 ∧ ∀ b, b ∈ out.2 ↔
        ∃ combo ∈ bundleCandidates out.1 count.toNat, bundleOf digits combo = b ∧
          conflicts out.1 b.resources = []) := by
    refine Ensures.ite (fun _ => Ensures.throw) (fun hcount => ?_)
    refine Ensures.bind (P := fun out => sweepLocked env db staleSeconds = .ok out.1) ?_ ?_
    · exact Ensures.bind Ensures.of_eq (fun db₁ h => Ensures.pure h)
    · rintro ⟨db₁, released⟩ hsweep
      refine Ensures.pure ⟨not_lt.mp hcount, hsweep, fun b => ?_⟩
      rw [List.mem_insertionSort, List.mem_filter, List.mem_map, decide_eq_true_eq]
      constructor
      · rintro ⟨⟨combo, hcombo, hb⟩, hfree⟩
        exact ⟨combo, hcombo, hb, hfree⟩
      · rintro ⟨combo, hcombo, hb, hfree⟩
        exact ⟨⟨combo, hcombo, hb⟩, hfree⟩
  exact hfound _ h

/-- The resources of the registry can be told apart from what else a bundle excludes. -/
theorem filter_resources (hnodup : (bundleOf digits combo).resourceIds.Nodup) :
    (sortedSet (bundleOf digits combo).resources).filter isAccelerator =
        (bundleOf digits combo).resourceIds ↔
      ∀ r ∈ (bundleOf digits combo).resourceIds, isAccelerator r = true := by
  have hexclusive : ∀ r ∈ (bundleOf digits combo).exclusiveResources, isAccelerator r = false := by
    intro r hr
    obtain ⟨x, -, hx⟩ := List.mem_filterMap.mp (mem_sortedSet.mp hr)
    obtain ⟨domain, -, rfl⟩ := Option.map_eq_some_iff.mp hx
    simp only [isAccelerator, startsWith, String.toList_append]
    rfl
  constructor
  · intro h r hr
    rw [← h] at hr
    exact (List.mem_filter.mp hr).2
  · intro h
    refine eq_of_sorted (sortedSet_sorted.filter _) (List.pairwise_insertionSort _ _)
      ((sortedSet_nodup _).filter _) hnodup (fun r => ?_)
    rw [List.mem_filter, mem_sortedSet, Bundle.resources, List.mem_append]
    constructor
    · rintro ⟨hr | hr, hacc⟩
      · exact hr
      · rw [hexclusive r hr] at hacc
        cases hacc
    · exact fun hr => ⟨.inl hr, h r hr⟩

/-- What a reservation of a bundle needs beyond the lack of a conflict: its ids are those of
accelerators, no active intent lists one of its resources, and who holds one is active. -/
structure Reservable (db : Registry) (b : Bundle) : Prop where
  accelerators : ∀ r ∈ b.resourceIds, isAccelerator r = true
  unclaimed : ∀ r ∈ b.resources, ∀ i ∈ db.intents, i.state = .active → r ∉ i.resources
  held : ∀ r ∈ b.resources, ∀ n, db.active r n →
    ∃ o, db.owner? n = some o ∧ o.state = .active

theorem select_bundle (hkey : ResourceKeys db) (hsub : combo.Sublist (devices db))
    (hne : combo ≠ [])
    (hpressure : pressureAvailable env db (bundleOf digits combo).request = true) :
    selectLocked env db (bundleOf digits combo).request = .ok
      (if ∀ r ∈ (bundleOf digits combo).resources, r ∉ activeResourceIds db then
        some (sortedSet (bundleOf digits combo).resources) else none) := by
  have hfound := expanded_bundle digits hkey hsub hne
  unfold candidateResourcesLocked at hfound
  cases hbundles : bundles db (bundleOf digits combo).request with
  | error e =>
    rw [hbundles] at hfound
    cases hfound
  | ok found =>
    rw [hbundles] at hfound
    have hexpanded : found.map (expanded (bundleOf digits combo).request) =
        [sortedSet (bundleOf digits combo).resources] := Except.ok.inj hfound
    unfold selectLocked
    rw [hpressure, hbundles]
    refine congrArg Except.ok ?_
    rw [hexpanded]
    have hall : (∀ r ∈ (bundleOf digits combo).resources, r ∉ activeResourceIds db) ↔
        (sortedSet (bundleOf digits combo).resources).all
          (fun r => r ∉ activeResourceIds db) = true := by
      simp only [List.all_eq_true, mem_sortedSet, decide_eq_true_eq]
    simp only [List.find?_singleton, hall]

theorem free_iff (hsweep : sweepLocked env db₁ staleSeconds = .ok swept)
    (hfree : conflicts db₁ b.resources = []) :
    (∀ r ∈ b.resources, r ∉ activeResourceIds swept) ↔
      (∀ r ∈ b.resources, ∀ i ∈ swept.intents, i.state = .active → r ∉ i.resources) ∧
      (∀ r ∈ b.resources, ∀ n, swept.active r n →
        ∃ o, swept.owner? n = some o ∧ o.state = .active) := by
  have hkeeps : Keeps ⟨id, id⟩ env (.sweepStale 0) (HeldIn db₁) := keeps_heldIn rfl
  have hheld : HeldIn db₁ swept := hkeeps.sweep (fun _ _ h => h) swept hsweep
  constructor
  · intro h
    refine ⟨fun r hr i hi hs hmem => ?_, fun r hr n hactive => ?_⟩
    · exact h r hr (mem_activeResourceIds.mpr (.inr ⟨i, hi, hs, hmem⟩))
    · exact absurd (mem_activeResourceIds.mpr (.inl ⟨n, hactive⟩)) (h r hr)
  · rintro ⟨hunclaimed, howners⟩ r hr hmem
    rcases mem_activeResourceIds.mp hmem with ⟨n, hactive⟩ | ⟨i, hi, hs, hclaims⟩
    · -- an active owner held it when discovery looked for conflicts
      obtain ⟨o, ho, hs⟩ := howners r hr n hactive
      have ho₁ := sweep_live swept hsweep n o ho (by rw [hs]; rfl)
      exact conflicts_eq_nil.mp hfree r hr n (hheld r n hactive) ⟨o, ho₁, hs⟩
    · exact hunclaimed r hr i hi hs hclaims

/-- The request of a bundle is granted exactly its ids. -/
def GrantedExactly (hashes : Hashes) (env : Env) (db : Registry) (projectRoot serviceId : String)
    (pid : ℕ) (priorityClass : PriorityClass) (b : Bundle) : Prop :=
  ∃ db' owner, reserveService hashes env db projectRoot serviceId b.request pid priorityClass =
    .ok (db', some (owner, b.resourceIds))

/-- What a reservation of a bundle is granted, by what its sweep leaves. -/
theorem granted_iff (hkey : ResourceKeys swept)
    (hsweep : sweepLocked env db₁ staleSeconds = .ok swept)
    (hsub : combo.Sublist (devices swept)) (hne : combo ≠ [])
    (hpressure : pressureAvailable env swept (bundleOf digits combo).request = true)
    (hfresh : Fresh swept (serviceOwnerId hashes env projectRoot serviceId)) :
    GrantedExactly hashes env db₁ projectRoot serviceId pid priorityClass
        (bundleOf digits combo) ↔
      (∀ r ∈ (bundleOf digits combo).resourceIds, isAccelerator r = true) ∧
        ∀ r ∈ (bundleOf digits combo).resources, r ∉ activeResourceIds swept := by
  let new := reservedOwner env (serviceOwnerId hashes env projectRoot serviceId) .service
    projectRoot (bundleOf digits combo).request pid priorityClass none none (some serviceId)
  have hreserve : reserveService hashes env db₁ projectRoot serviceId
      (bundleOf digits combo).request pid priorityClass =
        reserveLocked env swept (bundleOf digits combo).request new := by
    unfold reserveService
    rw [hsweep]
    rfl
  have hselect := select_bundle hkey hsub hne hpressure
  have hfilter := filter_resources (bundle_ids digits hkey hsub).1
  unfold GrantedExactly
  rw [hreserve]
  constructor
  · rintro ⟨db', owner, hgrant⟩
    obtain ⟨resources, owned, hselected, -, -, hreply⟩ := reserve_granted hgrant
    rw [hselect] at hselected
    split at hselected
    · rename_i hfree
      cases hselected
      exact ⟨hfilter.mp (congrArg Prod.snd hreply).symm, hfree⟩
    · cases hselected
  · rintro ⟨haccelerators, hfree⟩
    rw [if_pos hfree] at hselect
    obtain ⟨db', reply, hgrant⟩ : Grants _ _ _ new := grants_of_select hfresh hselect
    obtain ⟨resources, owned, hselected, -, -, hreply⟩ := reserve_granted hgrant
    rw [hselect] at hselected
    cases hselected
    rw [hfilter.mpr haccelerators] at hreply
    exact ⟨db', new.id, hreply ▸ hgrant⟩

/-- A bundle that discovery found is granted exactly if it is reservable once the sweep of the
reservation is done, and a combination of devices of one domain is found if its request would
be granted then. -/
theorem bundles_agree_with_reservation (digits : String → Option ℕ) (hashes : Hashes) (env : Env)
    (db db₁ : Registry) (count : ℤ) (bundles : List Bundle) (hkey : ResourceKeys db)
    (hfound : compoundGpuBundles db digits env count = .ok (db₁, bundles)) :
    (∀ b ∈ bundles, ∀ env' swept projectRoot serviceId pid priorityClass,
      sweepLocked env' db₁ staleSeconds = .ok swept →
      pressureAvailable env' swept b.request = true →
      Fresh swept (serviceOwnerId hashes env' projectRoot serviceId) →
      (GrantedExactly hashes env' db₁ projectRoot serviceId pid priorityClass b ↔
        Reservable swept b)) ∧
    (∀ domain combo, combo.Sublist ((devices db₁).filter (·.domain = domain)) →
      (combo.length : ℤ) = count → ∀ projectRoot serviceId pid priorityClass db' reply,
      reserveService hashes env db₁ projectRoot serviceId (bundleOf digits combo).request pid
        priorityClass = .ok (db', some reply) → bundleOf digits combo ∈ bundles) := by
  obtain ⟨hcount, hsweep₁, hmem⟩ := bundles_found hfound
  have hkeys : ∀ db' : Registry, db'.resources = db.resources → ResourceKeys db' := by
    intro db' hsame
    unfold ResourceKeys
    rw [hsame]
    exact hkey
  have hresources₁ := sweep_resources db₁ hsweep₁
  constructor
  · intro b hb env' swept projectRoot serviceId pid priorityClass hsweep hpressure hfresh
    obtain ⟨combo, hcombo, rfl, hfree⟩ := (hmem b).mp hb
    obtain ⟨hsub, hlength⟩ := sublist_of_candidate hcombo
    have hsame : swept.resources = db₁.resources := sweep_resources swept hsweep
    have hdevices : devices swept = devices db₁ := by
      unfold devices
      rw [hsame]
    have hne : combo ≠ [] := by
      rintro rfl
      simp at hlength
      omega
    rw [granted_iff (hkeys swept (hsame.trans hresources₁)) hsweep (hdevices ▸ hsub) hne hpressure hfresh,
      free_iff hsweep hfree]
    exact ⟨fun ⟨ha, hu, ho⟩ => ⟨ha, hu, ho⟩, fun h => ⟨h.accelerators, h.unclaimed, h.held⟩⟩
  · intro domain combo hsub hlength projectRoot serviceId pid priorityClass db' reply hreply
    have hne : combo ≠ [] := by
      rintro rfl
      simp at hlength
      omega
    have hresweep : sweepLocked env db₁ staleSeconds = .ok db₁ := sweep_idempotent hsweep₁
    have hreserve : Ensures (reserveService hashes env db₁ projectRoot serviceId
        (bundleOf digits combo).request pid priorityClass) (fun out => ∀ reply, out.2 = some reply →
          ∃ resources,
            selectLocked env db₁ (bundleOf digits combo).request = .ok (some resources)) := by
      refine Ensures.bind (P := fun swept => swept = db₁) ?_ ?_
      · intro swept hswept
        rw [hresweep] at hswept
        exact (Except.ok.inj hswept).symm
      · rintro _ rfl ⟨db₂, granted⟩ hgrant reply rfl
        obtain ⟨resources, -, hselected, -⟩ := reserve_granted hgrant
        exact ⟨resources, hselected⟩
    obtain ⟨resources, hselected⟩ := hreserve _ hreply reply rfl
    have hpressure : pressureAvailable env db₁ (bundleOf digits combo).request = true := by
      cases hp : pressureAvailable env db₁ (bundleOf digits combo).request with
      | true => rfl
      | false =>
        unfold selectLocked at hselected
        rw [hp] at hselected
        cases hselected
    rw [select_bundle (hkeys db₁ hresources₁) (hsub.trans List.filter_sublist) hne hpressure] at hselected
    split at hselected
    · rename_i hfree
      have hcandidate : combo ∈ bundleCandidates db₁ count.toNat :=
        candidate_of_domain (by omega) hsub (by omega)
      refine (hmem _).mpr ⟨combo, hcandidate, rfl, conflicts_eq_nil.mpr (fun r hr n hactive => ?_)⟩
      exact absurd (mem_activeResourceIds.mpr (.inl ⟨n, hactive⟩)) (hfree r hr)
    · cases hselected

end Agreement

section Runs

/-- The digits of ASCII. -/
def asciiDigits (text : String) : Option ℕ :=
  if text ≠ "" ∧ text.toList.all Char.isDigit then
    some (text.toList.foldl (fun n c => n * 10 + (c.toNat - '0'.toNat)) 0)
  else none

/-- Two devices that nobody uses. -/
def freeDevices : Registry := step plainHashes {} ⟨hostAt 0, .upsertResources [deviceA, deviceB]⟩

/-- A free device is found and granted. -/
theorem free_device_is_granted : ∃ db₁ bundles,
    compoundGpuBundles freeDevices asciiDigits (hostAt 1) 1 = .ok (db₁, bundles) ∧
    GrantedExactly plainHashes (hostAt 2) db₁ "/p" "model" 7 .activeLocalDelegation
      (bundleOf asciiDigits [deviceA]) := by
  have hruns : (compoundGpuBundles freeDevices asciiDigits (hostAt 1) 1).toOption.map (fun out =>
      (decide (bundleOf asciiDigits [deviceA] ∈ out.2),
        (sweepLocked (hostAt 2) out.1 staleSeconds).toOption.map (fun swept =>
          (pressureAvailable (hostAt 2) swept (bundleOf asciiDigits [deviceA]).request,
            swept.owners.rows.isEmpty, swept.reservations.rows.isEmpty,
            swept.intents.rows.isEmpty)))) = some (true, some (true, true, true, true)) := by
    decide +kernel
  obtain ⟨⟨db₁, bundles⟩, hfound, hfacts⟩ := Option.map_eq_some_iff.mp hruns
  simp only [Prod.mk.injEq, decide_eq_true_eq] at hfacts
  obtain ⟨hmem, hsweep⟩ := hfacts
  obtain ⟨swept, hswept, hempty⟩ := Option.map_eq_some_iff.mp hsweep
  simp only [Prod.mk.injEq, List.isEmpty_iff] at hempty
  obtain ⟨hpressure, howners, hreservations, hintents⟩ := hempty
  have hnone : ∀ x, x ∉ swept.reservations := by
    intro x hx
    have hx' : x ∈ swept.reservations.rows := hx
    rw [hreservations] at hx'
    cases hx'
  have hreservable : Reservable swept (bundleOf asciiDigits [deviceA]) := by
    refine ⟨by decide, fun r _ i hi => ?_, fun r _ n ⟨x, hx, _⟩ => absurd hx (hnone x)⟩
    have hi' : i ∈ swept.intents.rows := hi
    rw [hintents] at hi'
    cases hi'
  have hfresh : Fresh swept (serviceOwnerId plainHashes (hostAt 2) "/p" "model") := by
    refine ⟨owner?_eq_none.mpr (fun o ho => ?_), fun x hx => absurd hx (hnone x)⟩
    have ho' : o ∈ swept.owners.rows := ho
    rw [howners] at ho'
    cases ho'
  have hkeys : ResourceKeys freeDevices :=
    resourceKeys_run [⟨hostAt 0, .upsertResources [deviceA, deviceB]⟩]
  have hagree := (bundles_agree_with_reservation asciiDigits plainHashes (hostAt 1) freeDevices db₁
    1 bundles hkeys (Ensures.ok_of_toOption hfound)).1
  exact ⟨db₁, bundles, Ensures.ok_of_toOption hfound,
    (hagree _ hmem (hostAt 2) swept "/p" "model" 7 .activeLocalDelegation
      (Ensures.ok_of_toOption hswept) hpressure hfresh).mpr hreservable⟩

/-- A device that a foreground request waits for is offered, but its reservation is refused. -/
theorem claimed_device_is_offered : ∃ db₁ bundles,
    compoundGpuBundles (requested.foldl (step plainHashes) {}) asciiDigits (hostAt 2) 1 =
      .ok (db₁, bundles) ∧
    bundleOf asciiDigits [deviceA] ∈ bundles ∧
    ¬ GrantedExactly plainHashes (hostAt 2) db₁ "/p" "model" 7 .activeLocalDelegation
      (bundleOf asciiDigits [deviceA]) := by
  have hruns : (compoundGpuBundles (requested.foldl (step plainHashes) {}) asciiDigits (hostAt 2)
      1).toOption.map (fun out => (decide (bundleOf asciiDigits [deviceA] ∈ out.2),
        (reserveService plainHashes (hostAt 2) out.1 "/p" "model"
          (bundleOf asciiDigits [deviceA]).request 7 .activeLocalDelegation).toOption.map
            Prod.snd)) = some (true, some none) := by
    decide +kernel
  obtain ⟨⟨db₁, bundles⟩, hfound, hfacts⟩ := Option.map_eq_some_iff.mp hruns
  simp only [Prod.mk.injEq, decide_eq_true_eq] at hfacts
  obtain ⟨hmem, hrefused⟩ := hfacts
  refine ⟨db₁, bundles, Ensures.ok_of_toOption hfound, hmem, ?_⟩
  rintro ⟨db', owner, hgrant⟩
  rw [hgrant] at hrefused
  cases hrefused

end Runs

end ProjectControl.HostResources
