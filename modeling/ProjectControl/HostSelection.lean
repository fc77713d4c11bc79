import ProjectControl.HostBundles

/-! Which resources a request is given: the choices that meet it, and the first of them that is
free. -/

set_option autoImplicit false

namespace ProjectControl.HostResources

section Choices

/-- What `normalize_resource_request` lets through of ids and count. -/
structure Request.Normalized (request : Request) : Prop where
  distinct : request.ids.Nodup
  either : request.ids ≠ [] → request.count = 0
  count : 0 ≤ request.count

variable (db : Registry) (request : Request)

/-- The resource has each of the tags, with the value that is asked for. -/
def Tagged (r : Resource) : Prop := ∀ tag ∈ request.tags, r.tags.lookup tag.1 = some tag.2

/-- Enabled resources of the kind: just those that are asked for, or so many of them. -/
structure Fitting (choice : List Resource) : Prop where
  distinct : choice.Nodup
  enabled : ∀ r ∈ choice, r ∈ db.resources ∧ r.enabled = true ∧ r.kind = request.kind
  ids : request.ids ≠ [] → ∀ id, id ∈ choice.map (·.id) ↔ id ∈ request.ids
  count : request.ids = [] → (choice.length : ℤ) = request.count

/-- A choice of resources with all tags. -/
structure Admissible (choice : List Resource) : Prop extends Fitting db request choice where
  tagged : ∀ r ∈ choice, Tagged request r

/-- What a choice excludes besides its own resources. -/
inductive Extra (choice : List Resource) : ResourceId → Prop
  | exclusive {id : ResourceId} : id ∈ request.exclusiveResources → Extra choice id
  | pcie {r : Resource} {root : String} : request.isolatePcieRoot = true → r ∈ choice →
      r.tags.lookup "pcie_root" = some root → root ≠ "" →
      Extra choice ("interference:pcie:" ++ root)
  | nvlink {r : Resource} {domain : String} : request.isolateNvlinkDomain = true → r ∈ choice →
      r.tags.lookup "nvlink_domain" = some domain → domain ≠ "" →
      Extra choice ("interference:nvlink:" ++ domain)

/-- The resources of a choice and its extras. -/
def Takes (choice : List Resource) (id : ResourceId) : Prop :=
  id ∈ choice.map (·.id) ∨ Extra request choice id

/-- Nothing that the choice takes is reserved or claimed by a foreground intent. -/
def Free (choice : List Resource) : Prop :=
  ∀ id, Takes request choice id → id ∉ activeResourceIds db

end Choices

section Enumeration

variable {db : Registry} {request : Request} {choice choice' : List Resource} {r : Resource}
  {id : ResourceId}

theorem tag?_eq_some {key value : String} :
    r.tag? key = some value ↔ r.tags.lookup key = some value ∧ value ≠ "" := by
  rw [Resource.tag?, Option.filter_eq_some_iff, decide_eq_true_iff]

theorem mem_extraIds : id ∈ extraIds request choice ↔ Extra request choice id := by
  rw [extraIds, mem_sortedSet, List.mem_append, List.mem_append]
  constructor
  · rintro ((hid | hid) | hid)
    · exact .exclusive hid
    · split_ifs at hid with hisolate
      · obtain ⟨r, hr, heq⟩ := List.mem_filterMap.mp hid
        obtain ⟨root, htag, rfl⟩ := Option.map_eq_some_iff.mp heq
        exact .pcie hisolate hr (tag?_eq_some.mp htag).1 (tag?_eq_some.mp htag).2
      · cases hid
    · split_ifs at hid with hisolate
      · obtain ⟨r, hr, heq⟩ := List.mem_filterMap.mp hid
        obtain ⟨domain, htag, rfl⟩ := Option.map_eq_some_iff.mp heq
        exact .nvlink hisolate hr (tag?_eq_some.mp htag).1 (tag?_eq_some.mp htag).2
      · cases hid
  · rintro (hid | ⟨hisolate, hr, htag, hne⟩ | ⟨hisolate, hr, htag, hne⟩)
    · exact .inl (.inl hid)
    · rw [if_pos hisolate]
      exact .inl (.inr (List.mem_filterMap.mpr ⟨_, hr, Option.map_eq_some_iff.mpr
        ⟨_, tag?_eq_some.mpr ⟨htag, hne⟩, rfl⟩⟩))
    · rw [if_pos hisolate]
      exact .inr (List.mem_filterMap.mpr ⟨_, hr, Option.map_eq_some_iff.mpr
        ⟨_, tag?_eq_some.mpr ⟨htag, hne⟩, rfl⟩⟩)

theorem mem_expanded : id ∈ expanded request choice ↔ Takes request choice id := by
  rw [expanded, mem_sortedSet, List.mem_append, mem_extraIds, Takes]

/-- What is taken depends on the members of the choice. -/
theorem Takes.mono (hsub : ∀ r ∈ choice, r ∈ choice') (h : Takes request choice id) :
    Takes request choice' id := by
  rcases h with hid | hid | ⟨hisolate, hr, htag, hne⟩ | ⟨hisolate, hr, htag, hne⟩
  · obtain ⟨r, hr, rfl⟩ := List.mem_map.mp hid
    exact .inl (List.mem_map_of_mem (hsub r hr))
  · exact .inr (.exclusive hid)
  · exact .inr (.pcie hisolate (hsub _ hr) htag hne)
  · exact .inr (.nvlink hisolate (hsub _ hr) htag hne)

/-- The comparison of `_select_locked` and `_candidate_resources_locked`, for which a tag that is
missing is the text `None`. -/
def Matches (request : Request) (r : Resource) : Prop :=
  ∀ tag ∈ request.tags, (r.tags.lookup tag.1).getD "None" = tag.2

theorem Tagged.matches (h : Tagged request r) : Matches request r := by
  intro tag htag
  rw [h tag htag, Option.getD_some]

theorem mem_eligible_iff : r ∈ eligible db request ↔
    (r ∈ db.resources ∧ r.enabled = true ∧ r.kind = request.kind) ∧ Matches request r := by
  unfold eligible
  dsimp only
  rw [List.mem_filter, List.mem_insertionSort, List.mem_filter, List.all_eq_true]
  simp only [Bool.and_eq_true, decide_eq_true_eq, Matches]

theorem eligible_nodup (hkey : ResourceKeys db) : ((eligible db request).map (·.id)).Nodup :=
  query_nodup hkey _ _

/-- Two resources of the registry with one id are one. -/
theorem eq_of_id (hkey : ResourceKeys db) {r' : Resource} (hr : r ∈ db.resources)
    (hr' : r' ∈ db.resources) (hid : r.id = r'.id) : r = r' :=
  List.inj_on_of_nodup_map hkey hr hr' hid

/-- What is enumerated: choices that fit, of resources whose tags match. -/
theorem fitting_of_mem (hkey : ResourceKeys db) (hrequest : request.Normalized)
    {found : List (List Resource)} (hfound : bundles db request = .ok found)
    (hmem : choice ∈ found) :
    Fitting db request choice ∧ ∀ r ∈ choice, Matches request r := by
  have hrows : (eligible db request).Nodup := (eligible_nodup hkey).of_map
  have hpick (choice : List Resource) (hsub : choice.Sublist (eligible db request)) :
      choice.Nodup ∧ (∀ r ∈ choice, r ∈ db.resources ∧ r.enabled = true ∧
        r.kind = request.kind) ∧ ∀ r ∈ choice, Matches request r :=
    ⟨hrows.sublist hsub, fun r hr => (mem_eligible_iff.mp (hsub.subset hr)).1,
      fun r hr => (mem_eligible_iff.mp (hsub.subset hr)).2⟩
  rw [bundles] at hfound
  dsimp only at hfound
  split_ifs at hfound with hids hlength hneg
  · obtain rfl := Except.ok.inj hfound
    obtain rfl := List.mem_singleton.mp hmem
    obtain ⟨hdistinct, henabled, hmatches⟩ := hpick ((eligible db request).filter
      (fun r => r.id ∈ request.ids)) List.filter_sublist
    refine ⟨⟨hdistinct, henabled, fun _ id => ?_, fun hnil => absurd hnil hids⟩, hmatches⟩
    -- as many different ids as are asked for, each of them asked for
    have hnodup : (((eligible db request).filter (fun r => r.id ∈ request.ids)).map
        (·.id)).Nodup := (eligible_nodup hkey).sublist (List.filter_sublist.map _)
    have hsubset : ((eligible db request).filter (fun r => r.id ∈ request.ids)).map (·.id) ⊆
        request.ids := by
      intro id hid
      obtain ⟨r, hr, rfl⟩ := List.mem_map.mp hid
      exact of_decide_eq_true (List.mem_filter.mp hr).2
    have hperm := (List.subperm_of_subset hnodup hsubset).perm_of_length_le
      (by rw [List.length_map, hlength])
    exact hperm.mem_iff
  · obtain rfl := Except.ok.inj hfound
    cases hmem
  · obtain rfl := Except.ok.inj hfound
    obtain ⟨hsub, hlength⟩ := mem_combinations.mp hmem
    obtain ⟨hdistinct, henabled, hmatches⟩ := hpick _ hsub
    refine ⟨⟨hdistinct, henabled, fun hne => absurd hne hids, fun _ => ?_⟩, hmatches⟩
    have hcount := hrequest.count
    omega

/-- Every admissible choice is enumerated, in the order of the ids. -/
theorem exists_mem_of_admissible (hkey : ResourceKeys db) (hrequest : request.Normalized)
    {found : List (List Resource)} (hfound : bundles db request = .ok found)
    (h : Admissible db request choice) : ∃ listed ∈ found, ∀ r, r ∈ listed ↔ r ∈ choice := by
  have hrows : (eligible db request).Nodup := (eligible_nodup hkey).of_map
  have heligible (r : Resource) (hr : r ∈ choice) : r ∈ eligible db request :=
    mem_eligible_iff.mpr ⟨h.enabled r hr, (h.tagged r hr).matches⟩
  rw [bundles] at hfound
  dsimp only at hfound
  by_cases hids : request.ids = []
  · have hcount := h.count hids
    rw [if_neg (not_not.mpr hids), if_neg (not_lt.mpr hrequest.count)] at hfound
    obtain rfl := Except.ok.inj hfound
    have hlisted (r : Resource) :
        r ∈ (eligible db request).filter (fun r => r ∈ choice) ↔ r ∈ choice := by
      rw [List.mem_filter, decide_eq_true_iff]
      exact ⟨fun hr => hr.2, fun hr => ⟨heligible r hr, hr⟩⟩
    have hperm := (List.perm_ext_iff_of_nodup (hrows.filter _) h.distinct).mpr hlisted
    refine ⟨_, mem_combinations.mpr ⟨List.filter_sublist, ?_⟩, hlisted⟩
    rw [hperm.length_eq]
    omega
  · have hlisted (r : Resource) :
        r ∈ (eligible db request).filter (fun r => r.id ∈ request.ids) ↔ r ∈ choice := by
      rw [List.mem_filter, decide_eq_true_iff]
      constructor
      · rintro ⟨hr, hid⟩
        obtain ⟨r', hr', heq⟩ := List.mem_map.mp ((h.ids hids r.id).mpr hid)
        have hsame := eq_of_id hkey (h.enabled r' hr').1 (mem_eligible_iff.mp hr).1.1 heq
        exact hsame ▸ hr'
      · exact fun hr => ⟨heligible r hr, (h.ids hids r.id).mp (List.mem_map_of_mem hr)⟩
    have hperm := (List.perm_ext_iff_of_nodup (hrows.filter _) h.distinct).mpr hlisted
    have hchoice : (choice.map (·.id)).Nodup :=
      h.distinct.map_on fun r hr r' hr' => eq_of_id hkey (h.enabled r hr).1 (h.enabled r' hr').1
    have hidsPerm := (List.perm_ext_iff_of_nodup hchoice hrequest.distinct).mpr (h.ids hids)
    have hlength : ((eligible db request).filter (fun r => r.id ∈ request.ids)).length =
        request.ids.length := by
      rw [hperm.length_eq, ← hidsPerm.length_eq, List.length_map]
    rw [if_pos hids, if_pos hlength] at hfound
    obtain rfl := Except.ok.inj hfound
    exact ⟨_, List.mem_singleton_self _, hlisted⟩

theorem bundles_ok (hrequest : request.Normalized) : ∃ found, bundles db request = .ok found := by
  unfold bundles
  dsimp only
  split_ifs with hids hlength hneg
  · exact ⟨_, rfl⟩
  · exact ⟨_, rfl⟩
  · exact absurd hrequest.count (not_le.mpr hneg)
  · exact ⟨_, rfl⟩

end Enumeration

section Selection

variable {env : Env} {db : Registry} {request : Request} {choice : List Resource}

/-- `not active.intersection(expanded)`. -/
def unclaimed (db : Registry) (request : Request) (choice : List Resource) : Bool :=
  (expanded request choice).all (fun id => id ∉ activeResourceIds db)

theorem unclaimed_iff : unclaimed db request choice = true ↔ Free db request choice := by
  rw [unclaimed, List.all_eq_true]
  simp only [decide_eq_true_eq, mem_expanded, Free]

/-- The first choice of the enumeration that is free. -/
theorem selectLocked_eq (hpressure : pressureAvailable env db request = true)
    {found : List (List Resource)} (hfound : bundles db request = .ok found) :
    selectLocked env db request =
      .ok ((found.find? (unclaimed db request)).map (expanded request)) := by
  have hmap : (found.map (expanded request)).find?
      (fun ids => ids.all (fun id => id ∉ activeResourceIds db)) =
        (found.find? (unclaimed db request)).map (expanded request) := List.find?_map
  rw [selectLocked, hpressure, hfound, ← hmap]
  rfl

/-- The resources that are selected: none without a free admissible choice, and otherwise those
of the first free choice of the enumeration, which is admissible. -/
structure Selects (env : Env) (db : Registry) (request : Request) : Prop where
  complete : selectLocked env db request = .ok none ↔
    ¬ ∃ choice, Admissible db request choice ∧ Free db request choice
  sound : ∀ resources, selectLocked env db request = .ok (some resources) →
    ∃ before choice after, bundles db request = .ok (before ++ choice :: after) ∧
      candidateResourcesLocked db request = .ok
        (before.map (expanded request) ++ resources :: after.map (expanded request)) ∧
      (Admissible db request choice ∧ Free db request choice) ∧
      (∀ earlier ∈ before, ¬ Free db request earlier) ∧
      resources.Pairwise (· < ·) ∧ ∀ id, id ∈ resources ↔ Takes request choice id
  returns : ∃ result, selectLocked env db request = .ok result

/-- A resource without one of the tags is in no free choice before which there is no other free
choice. -/
def Covered (db : Registry) (request : Request) : Prop :=
  ∀ before choice after, bundles db request = .ok (before ++ choice :: after) →
    Free db request choice → (∃ r ∈ choice, ¬ Tagged request r) →
    ∃ earlier ∈ before, Free db request earlier

theorem find?_first {found : List (List Resource)} {choice : List Resource}
    (h : found.find? (unclaimed db request) = some choice) :
    ∃ before after, found = before ++ choice :: after ∧ Free db request choice ∧
      ∀ earlier ∈ before, ¬ Free db request earlier := by
  obtain ⟨hfree, before, after, hsplit, hbefore⟩ := List.find?_eq_some_iff_append.mp h
  refine ⟨before, after, hsplit, unclaimed_iff.mp hfree, fun earlier hearlier hf => ?_⟩
  have hnot := hbefore earlier hearlier
  rw [unclaimed_iff.mpr hf] at hnot
  cases hnot

theorem find?_split {before after : List (List Resource)} {choice : List Resource}
    (hfree : Free db request choice) (hbefore : ∀ earlier ∈ before, ¬ Free db request earlier) :
    (before ++ choice :: after).find? (unclaimed db request) = some choice := by
  refine List.find?_eq_some_iff_append.mpr ⟨unclaimed_iff.mpr hfree, before, after, rfl, ?_⟩
  intro earlier hearlier
  rw [Bool.not_eq_true', Bool.eq_false_iff]
  exact fun h => hbefore earlier hearlier (unclaimed_iff.mp h)

/-- With the pressure available, the selection is sound, complete and first in the enumeration
exactly when no choice of a resource without one of the tags is the first free one. -/
theorem selects_iff_covered (hkey : ResourceKeys db) (hrequest : request.Normalized)
    (hpressure : pressureAvailable env db request = true) :
    Selects env db request ↔ Covered db request := by
  obtain ⟨found, hfound⟩ : ∃ found, bundles db request = .ok found := bundles_ok hrequest
  have hselect := selectLocked_eq hpressure hfound
  constructor
  · intro h before choice after hsplit hfree ⟨r, hr, htags⟩
    by_contra hfirst
    push Not at hfirst
    obtain rfl := Except.ok.inj (hfound.symm.trans hsplit)
    rw [find?_split hfree hfirst] at hselect
    obtain ⟨before', choice', after', hsplit', _, hadmissible, hbefore', _⟩ := h.sound _ hselect
    -- only one choice is the first free one
    have hfirst' : (before' ++ choice' :: after').find? (unclaimed db request) = some choice' :=
      find?_split hadmissible.2 hbefore'
    rw [← Except.ok.inj (hfound.symm.trans hsplit'), find?_split hfree hfirst] at hfirst'
    obtain rfl := Option.some.inj hfirst'
    exact htags (hadmissible.1.tagged r hr)
  · intro hcovered
    have hadmissible {before after : List (List Resource)} {choice : List Resource}
        (hsplit : found = before ++ choice :: after) (hfree : Free db request choice)
        (hfirst : ∀ earlier ∈ before, ¬ Free db request earlier) :
        Admissible db request choice := by
      obtain ⟨hfitting, _⟩ := fitting_of_mem hkey hrequest hfound
        (hsplit ▸ List.mem_append_right before List.mem_cons_self)
      refine ⟨hfitting, fun r hr => ?_⟩
      by_contra htags
      obtain ⟨earlier, hearlier, hf⟩ :=
        hcovered before choice after (hsplit ▸ hfound) hfree ⟨r, hr, htags⟩
      exact hfirst earlier hearlier hf
    constructor
    case complete =>
      rw [hselect, Except.ok.injEq, Option.map_eq_none_iff]
      constructor
      · rintro hnone ⟨choice, hchoice, hfree⟩
        obtain ⟨listed, hlisted, hsame⟩ := exists_mem_of_admissible hkey hrequest hfound hchoice
        refine List.find?_eq_none.mp hnone listed hlisted (unclaimed_iff.mpr fun id hid => ?_)
        exact hfree id (hid.mono fun r hr => (hsame r).mp hr)
      · intro hnot
        rcases hfind : found.find? (unclaimed db request) with _ | choice
        · rfl
        · obtain ⟨before, after, hsplit, hfree, hfirst⟩ := find?_first hfind
          exact absurd ⟨choice, hadmissible hsplit hfree hfirst, hfree⟩ hnot
    case sound =>
      intro resources hresources
      rw [hselect, Except.ok.injEq, Option.map_eq_some_iff] at hresources
      obtain ⟨choice, hfind, rfl⟩ := hresources
      obtain ⟨before, after, hsplit, hfree, hfirst⟩ := find?_first hfind
      refine ⟨before, choice, after, hsplit ▸ hfound, ?_, ⟨hadmissible hsplit hfree hfirst, hfree⟩,
        hfirst, ?_, fun id => mem_expanded⟩
      · rw [candidateResourcesLocked, hfound, hsplit, ← List.map_cons, ← List.map_append]
        rfl
      · exact (List.pairwise_and_iff.mpr ⟨sortedSet_sorted, sortedSet_nodup _⟩).imp
          fun h => lt_of_le_of_ne h.1 h.2
    case returns => exact ⟨_, hselect⟩

/-- One device that has no tag at all. -/
def untaggedHost : Registry := { resources := [deviceA] }

/-- A device in the zone whose name is `None`. -/
def zoneRequest : Request := { tags := [("zone", "None")], count := 1 }

/-- The device is selected, although it has no tag `zone`. -/
theorem untagged_device_selected : ResourceKeys untaggedHost ∧ zoneRequest.Normalized ∧
    pressureAvailable (hostAt 0) untaggedHost zoneRequest = true ∧
    selectLocked (hostAt 0) untaggedHost zoneRequest = .ok (some ["accelerator:a"]) ∧
    ¬ ∃ choice, Admissible untaggedHost zoneRequest choice ∧
      Free untaggedHost zoneRequest choice := by
  refine ⟨List.nodup_singleton _, ⟨List.nodup_nil, fun h => absurd rfl h, by decide⟩, by decide,
    by decide, ?_⟩
  rintro ⟨choice, hchoice, _⟩
  have hlength := hchoice.count rfl
  obtain ⟨r, hr⟩ : ∃ r, r ∈ choice := by
    apply List.exists_mem_of_length_pos
    have hone : zoneRequest.count = 1 := rfl
    omega
  obtain rfl := List.mem_singleton.mp (hchoice.enabled r hr).1
  have htag := hchoice.tagged _ hr ("zone", "None") List.mem_cons_self
  cases htag

/-- One device out of two, of which the first is reserved. -/
def reservedHost : Registry where
  resources := [deviceA, { deviceA with id := "accelerator:b" }]
  reservations := ⟨[⟨"accelerator:a", "owner", .active, 0, 0⟩], List.pairwise_singleton _ _⟩

theorem free_device_selected : Selects (hostAt 0) reservedHost { count := 1 } := by
  have hkey : (reservedHost.resources.map (·.id)).Nodup := by decide
  refine (selects_iff_covered hkey ⟨List.nodup_nil, fun h => absurd rfl h, by decide⟩
    (by decide)).mpr ?_
  rintro before choice after _ _ ⟨r, _, htags⟩
  exact absurd (fun tag htag => absurd htag List.not_mem_nil) htags

end Selection

end ProjectControl.HostResources
