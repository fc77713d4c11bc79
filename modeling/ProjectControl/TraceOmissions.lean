import ProjectControl.TracePreview

/-! What the preview of a trace result says about the entries that it leaves out. -/

set_option autoImplicit false

namespace ProjectControl.Preview

open JsonText Rewriting

section Records

/-- How many entries a section has. -/
def entries (d : Dict) (name : String) : ℕ :=
  match d.get name with
  | some (.arr items) => items.length
  | _ => 0

/-- The provider at a place of the coverage. -/
def providerAt (d : Dict) (i : ℕ) : Dict :=
  match d.path ["coverage", "providers"] with
  | some (.arr providers) =>
    match providers[i]? with
    | some (.obj p) => p
    | _ => []
  | _ => []

def omissionsOf (d : Dict) : List Json :=
  match d.path ["payload_budget", "omissions"] with
  | some (.arr omissions) => omissions
  | _ => []

/-- A section is named with the count of all its entries and of those that are there. -/
def Recorded (omissions : List Json) (name : String) (full shown : ℕ) : Prop :=
  ∃ o : Dict, .obj o ∈ omissions ∧ o.get "section" = some (.str name) ∧
    o.get "full_count" = some (.num full) ∧ o.get "preview_count" = some (.num shown)

/-- Nothing is left out of a section, or it is named. -/
def Named (omissions : List Json) (name : String) (full shown : ℕ) : Prop :=
  shown < full → Recorded omissions name full shown

/-- A provider counts the entries of one of its lists, and those that are left out. -/
def Counted (p : Dict) (counters : String × String) (full shown : ℕ) : Prop :=
  p.get counters.1 = some (.num full) ∧ p.get counters.2 = some (.num (full - shown : ℕ))

def sections : List String :=
  ["unknown_scope", "possible_related_candidates", "nonpropagating_relations", "dependencies"]

/-- The lists of a provider with its counters for them. -/
def providerLists : List (String × String × String) :=
  [("gaps", "gaps_count", "gaps_omitted"),
    ("input_manifest", "input_manifest_count", "input_manifest_omitted")]

def SectionNamed (whole d : Dict) (name : String) : Prop :=
  Named (omissionsOf d) name (entries whole name) (entries d name)

/-- Whatever is left out of a result is named with the true counts. -/
structure Honest (whole d : Dict) : Prop where
  sections : ∀ name ∈ sections, SectionNamed whole d name
  providers : ∀ i, ∀ l ∈ providerLists,
    entries (providerAt d i) l.1 < entries (providerAt whole i) l.1 →
      Recorded (omissionsOf d) l.1 (entries (providerAt whole i) l.1)
          (entries (providerAt d i) l.1) ∨
        Counted (providerAt d i) l.2 (entries (providerAt whole i) l.1)
          (entries (providerAt d i) l.1)

theorem honest_self (d : Dict) : Honest d d :=
  ⟨fun _ _ h => absurd h (lt_irrefl _), fun _ _ _ h => absurd h (lt_irrefl _)⟩

variable {omissions : List Json} {name : String} {full shown : ℕ}

theorem Named.append (h : Named omissions name full shown) (more : List Json) :
    Named (omissions ++ more) name full shown := by
  intro hlt
  obtain ⟨o, ho, hrest⟩ := h hlt
  exact ⟨o, List.mem_append_left _ ho, hrest⟩

theorem named_omission (digest : Json → Digest) (omissions : List Json) (name : String)
    (full shown : ℕ) (whole : Json) :
    Named (omissions ++ [omission digest name full whole shown]) name full shown :=
  fun _ => ⟨_, List.mem_append_right _ (List.mem_singleton_self _), rfl, rfl, rfl⟩

/-- A section that is cut to its first entries is named. -/
theorem named_sectionOmission (digest : Json → Digest) {omissions : List Json} (name : String)
    (full : ℕ) (whole : Json) (h : ∀ o ∈ sectionOmission digest name full whole, o ∈ omissions) :
    Named omissions name full (min limit full) := by
  intro hlt
  have hlarge : ¬ full ≤ limit := by omega
  have hmin : min limit full = limit := by omega
  rw [sectionOmission, if_neg hlarge] at h
  rw [hmin]
  exact ⟨_, h _ (List.mem_singleton_self _), rfl, rfl, rfl⟩

end Records

section Providers

variable {digest : Json → Digest} {d new : Dict} {key : String}

theorem get_update_of_mem {v : Json} (h : new.get key = some v) (hkey : key ∈ new.map Prod.fst) :
    (update d new).get key = some v := by
  have hnone : Dict.get (d.filter (fun e => e.1 ∉ new.map Prod.fst)) key = none := by
    apply get_of_not_mem
    intro hmem
    obtain ⟨e, he, rfl⟩ := List.mem_map.mp hmem
    exact (of_decide_eq_true (List.mem_filter.mp he).2) hkey
  rw [update, Audit.get_append, hnone, Option.none_or, h]

theorem get_update_of_not_mem (hkey : key ∉ new.map Prod.fst) :
    (update d new).get key = d.get key := by
  have hnone : new.get key = none := get_of_not_mem hkey
  rw [update, Audit.get_append, hnone, Option.or_none]
  exact Audit.get_filterKeys (fun k => k ∉ new.map Prod.fst) d (decide_eq_true hkey)

/-- A list of so many entries has been cut to the first ones, and what is left out is counted. -/
structure Cut (p : Dict) (l : String × String × String) (full : ℕ) : Prop where
  kept : ∃ kept, p.get l.1 = some (.arr kept) ∧ kept.length = min limit full
  counted : limit < full → Counted p l.2 full limit

variable {l : String × String × String} {full : ℕ} {items : List Json}

theorem Cut.entries_eq (h : Cut d l full) : entries d l.1 = min limit full := by
  obtain ⟨kept, hkept, hlength⟩ := h.kept
  rw [entries, hkept, ← hlength]

/-- A cut is seen in the list and its counters only. -/
theorem Cut.of_get {d' : Dict} (h : Cut d l full)
    (hget : ∀ key ∈ [l.1, l.2.1, l.2.2], d'.get key = d.get key) : Cut d' l full := by
  simp only [List.forall_mem_cons] at hget
  obtain ⟨hlist, hcount, homitted, -⟩ := hget
  refine ⟨?_, fun hlt => ?_⟩
  · rw [hlist]
    exact h.kept
  · rw [Counted, hcount, homitted]
    exact h.counted hlt

theorem cut_manifest (digest : Json → Digest) (h : d.get "input_manifest" = some (.arr items)) :
    Cut (cutManifest digest d) ("input_manifest", "input_manifest_count", "input_manifest_omitted")
      items.length := by
  unfold cutManifest
  rw [h]
  dsimp only
  split_ifs with hle
  · exact ⟨⟨items, h, (min_eq_right hle).symm⟩, fun hlt => absurd hle (not_le.mpr hlt)⟩
  · exact ⟨⟨_, get_update_of_mem rfl (by simp), List.length_take⟩,
      fun _ => ⟨get_update_of_mem rfl (by simp), get_update_of_mem rfl (by simp)⟩⟩

theorem cut_gaps (digest : Json → Digest) (h : d.get "gaps" = some (.arr items)) :
    Cut (cutGaps digest d) ("gaps", "gaps_count", "gaps_omitted") items.length := by
  unfold cutGaps
  rw [h]
  dsimp only
  split_ifs with hle
  · exact ⟨⟨items, h, (min_eq_right hle).symm⟩, fun hlt => absurd hle (not_le.mpr hlt)⟩
  · exact ⟨⟨_, get_update_of_mem rfl (by simp), List.length_take⟩,
      fun _ => ⟨get_update_of_mem rfl (by simp), get_update_of_mem rfl (by simp)⟩⟩

theorem get_cutManifest (h : key ∉ ["input_manifest_count", "input_manifest_sha256",
    "input_manifest_omitted", "input_manifest_complete", "input_manifest"]) :
    (cutManifest digest d).get key = d.get key := by
  unfold cutManifest
  split
  · split_ifs
    · rfl
    · exact get_update_of_not_mem h
  · rfl

theorem get_cutGaps (h : key ∉ ["gaps_count", "gaps_sha256", "gaps_omitted", "gaps"]) :
    (cutGaps digest d).get key = d.get key := by
  unfold cutGaps
  split
  · split_ifs
    · rfl
    · exact get_update_of_not_mem h
  · rfl

/-- The lists of a provider as they are in a preview. -/
structure Summarized (p : Provider) (d : Dict) : Prop where
  gaps : Cut d ("gaps", "gaps_count", "gaps_omitted") p.gaps.length
  manifest : Cut d ("input_manifest", "input_manifest_count", "input_manifest_omitted")
    p.inputManifest.length

theorem summarized_provider (digest : Json → Digest) (p : Provider) :
    Summarized p (cutGaps digest (cutManifest digest p.fields)) := by
  have hmanifest : p.fields.get "input_manifest" = some (.arr p.inputManifest) := rfl
  have hgaps : (cutManifest digest p.fields).get "gaps" = some (.arr (p.gaps.map .str)) :=
    get_cutManifest (by decide)
  constructor
  · have hcut := cut_gaps digest hgaps
    rwa [List.length_map] at hcut
  · refine (cut_manifest digest hmanifest).of_get (fun key hkey => get_cutGaps ?_)
    simp only [List.mem_cons, List.not_mem_nil, or_false] at hkey
    rcases hkey with rfl | rfl | rfl
    · decide
    · decide
    · decide

/-- What a provider holds may be rewritten. -/
theorem Cut.everywhere (h : Cut d l full) (n : ℕ) :
    Cut (d.map (fun e => (e.1, everywhere (cutManifest digest) n e.2))) l full := by
  have hget (key : String) :
      Dict.get (d.map (fun e => (e.1, Rewriting.everywhere (cutManifest digest) n e.2))) key =
        (d.get key).map (Rewriting.everywhere (cutManifest digest) n) :=
    Audit.get_mapFields (fun _ => Rewriting.everywhere (cutManifest digest) n) d key
  refine ⟨?_, fun hlt => ?_⟩
  · obtain ⟨kept, hkept, hlength⟩ := h.kept
    obtain ⟨kept', heq, hlength'⟩ : ∃ kept', Rewriting.everywhere (cutManifest digest) n
        (.arr kept) = .arr kept' ∧ kept'.length = kept.length := everywhere_arr n kept
    exact ⟨kept', by rw [hget, hkept, Option.map_some, heq], hlength'.trans hlength⟩
  · obtain ⟨hcount, homitted⟩ := h.counted hlt
    rw [Counted, hget, hget, hcount, homitted, Option.map_some, Option.map_some, everywhere_num,
      everywhere_num]
    exact ⟨rfl, rfl⟩

theorem Summarized.nested {p : Provider} (h : Summarized p d) :
    Summarized p (summarizeObject digest d) := by
  have hsame : cutManifest digest d = d := by
    obtain ⟨kept, hkept, hlength⟩ := h.manifest.kept
    unfold cutManifest
    rw [hkept]
    exact if_pos (hlength ▸ min_le_left _ _)
  rw [summarizeObject, hsame]
  exact ⟨h.gaps.everywhere _, h.manifest.everywhere _⟩

end Providers

section Stages

variable {digest : Json → Digest} {v original : Value} {budget : ℕ} {draft : Draft}

/-- The omissions of a draft name all that is left out of it. -/
structure Tracked (original : Value) (draft : Draft) : Prop where
  unknown : Named draft.omissions "unknown_scope" original.unknown.length
    draft.value.unknown.length
  candidates : Named draft.omissions "possible_related_candidates" original.candidates.length
    draft.value.candidates.length
  nonpropagating : Named draft.omissions "nonpropagating_relations"
    original.nonpropagating.length draft.value.nonpropagating.length
  dependencies : Named draft.omissions "dependencies" original.dependencies.length
    draft.value.dependencies.length

theorem tracked_sectionsCut (v : Value) : Tracked v (sectionsCut digest v) := by
  constructor
  · have hlength : (sectionsCut digest v).value.unknown.length = min limit v.unknown.length := by
      simp [sectionsCut, summarize]
    rw [hlength]
    exact named_sectionOmission digest _ _ (.arr (v.unknown.map (Unknown.json v.edges)))
      (fun o ho => by simp [sectionsCut, ho])
  · have hlength : (sectionsCut digest v).value.candidates.length =
        min limit v.candidates.length := List.length_take
    rw [hlength]
    exact named_sectionOmission digest _ _ (.arr v.candidates)
      (fun o ho => by simp [sectionsCut, ho])
  · have hlength : (sectionsCut digest v).value.nonpropagating.length =
        min limit v.nonpropagating.length := List.length_take
    rw [hlength]
    exact named_sectionOmission digest _ _ (edgeList v.edges v.nonpropagating)
      (fun o ho => by simp [sectionsCut, ho])
  · exact fun hlt => absurd hlt (lt_irrefl _)

/-- Fewer dependencies, and a record of them. -/
theorem Tracked.fewer (h : Tracked original draft) (digest : Json → Digest) (whole : Json)
    {next : Value} {more : List Json}
    (hunknown : next.unknown = draft.value.unknown)
    (hcandidates : next.candidates = draft.value.candidates)
    (hnonpropagating : next.nonpropagating = draft.value.nonpropagating)
    (hmore : more = [omission digest "dependencies" original.dependencies.length whole
      next.dependencies.length]) : Tracked original ⟨next, draft.omissions ++ more⟩ where
  unknown := hunknown ▸ h.unknown.append more
  candidates := hcandidates ▸ h.candidates.append more
  nonpropagating := hnonpropagating ▸ h.nonpropagating.append more
  dependencies := hmore ▸ named_omission digest _ _ _ _ whole

theorem tracked_halved (h : Tracked original draft)
    (hall : draft.value.dependencies.length = original.dependencies.length) :
    Tracked original (dependenciesHalved digest original budget draft) := by
  rw [dependenciesHalved]
  split
  · exact h.fewer digest (dependenciesOf original) rfl rfl rfl (by rw [hall])
  · exact h

theorem tracked_dropped (h : Tracked original draft) :
    Tracked original (dependenciesDropped digest original budget draft) := by
  rw [dependenciesDropped]
  split
  · exact h.fewer digest (dependenciesOf original) rfl rfl rfl rfl
  · exact h

theorem tracked_draftOf (v : Value) (budget : ℕ) : Tracked v (draftOf digest v budget) :=
  tracked_dropped (tracked_halved (tracked_sectionsCut v) rfl)

/-- The later stages leave the providers alone. -/
theorem providers_draftOf (v : Value) (budget : ℕ) : (draftOf digest v budget).value.providers =
    nestedProviders digest (v.providers.map (fun p => cutGaps digest (cutManifest digest p)))
      v.delta := by
  have hdropped (draft : Draft) :
      (dependenciesDropped digest v budget draft).value.providers = draft.value.providers := by
    rw [dependenciesDropped]
    split
    · rfl
    · rfl
  have hhalved (draft : Draft) :
      (dependenciesHalved digest v budget draft).value.providers = draft.value.providers := by
    rw [dependenciesHalved]
    split
    · rfl
    · rfl
  rw [draftOf, hdropped, hhalved]
  rfl

theorem summarized_draftOf (digest : Json → Digest) (r : Result) (budget i : ℕ) {p : Provider}
    (hp : r.reported[i]? = some p) :
    ∃ d, (draftOf digest r.toValue budget).value.providers[i]? = some d ∧ Summarized p d := by
  have hcut : (r.toValue.providers.map (fun p => cutGaps digest (cutManifest digest p)))[i]? =
      some (cutGaps digest (cutManifest digest p.fields)) := by
    rw [r.providers_eq, List.getElem?_map, List.getElem?_map, hp]
    rfl
  rw [providers_draftOf]
  cases r.toValue.delta with
  | none => exact ⟨_, hcut, summarized_provider digest p⟩
  | refreshRequired => exact ⟨_, hcut, summarized_provider digest p⟩
  | changes since generation added removed changed providerStateChanged =>
    refine ⟨summarizeObject digest (cutGaps digest (cutManifest digest p.fields)), ?_,
      (summarized_provider digest p).nested⟩
    rw [nestedProviders, List.getElem?_map, hcut]
    rfl

end Stages

section Exits

variable {digest : Json → Digest} {budget : ℕ}

def Response.generation : Response → Generation
  | .refresh generation => generation
  | .result r => r.generation

/-- The preview of a response, before it is known whether it fits. -/
def previewOf (digest : Json → Digest) (budget : ℕ) : Response → Dict
  | .refresh generation =>
    refreshPreview digest generation (Response.refresh generation).fields budget
  | .result r =>
    (draftOf digest r.toValue budget).fields digest (Response.result r).fields budget

/-- The preview without the three sections and without the lists of the providers. -/
def clearedOf (digest : Json → Digest) (budget : ℕ) : Response → Dict
  | .refresh generation =>
    refreshPreview digest generation (Response.refresh generation).fields budget ++ emptySections
  | .result r =>
    (draftOf digest r.toValue budget).cleared.fields digest (Response.result r).fields budget

theorem boundResult_eq (response : Response) : boundResult digest response budget =
    if size response.fields ≤ budget then response.fields
    else firstFitting budget (previewOf digest budget response) (clearedOf digest budget response)
      (pointer digest response.generation response.fields budget) := by
  cases response with
  | refresh generation => rfl
  | result r => rfl

theorem providerAt_fields (r : Result) (i : ℕ) : providerAt (Response.result r).fields i =
    ((r.reported[i]?).map Provider.fields).getD [] := by
  have hpath : (Response.result r).fields.path ["coverage", "providers"] =
      some (.arr (r.toValue.providers.map .obj)) := rfl
  rw [providerAt, hpath, r.providers_eq]
  dsimp only
  rw [List.getElem?_map, List.getElem?_map]
  cases r.reported[i]? with
  | none => rfl
  | some p => rfl

theorem providerAt_draft (draft : Draft) (original : Dict) (i : ℕ) :
    providerAt (draft.fields digest original budget) i =
      (draft.value.providers[i]?).getD [] := by
  have hpath : (draft.fields digest original budget).path ["coverage", "providers"] =
      some (.arr (draft.value.providers.map .obj)) := rfl
  rw [providerAt, hpath]
  dsimp only
  rw [List.getElem?_map]
  cases draft.value.providers[i]? with
  | none => rfl
  | some p => rfl

theorem named_dependencies {r : Result} {draft : Draft} (original : Dict)
    (h : Named draft.omissions "dependencies" r.dependencies.length
      draft.value.dependencies.length) :
    SectionNamed (Response.result r).fields (draft.fields digest original budget)
      "dependencies" := by
  have hwhole : entries (Response.result r).fields "dependencies" = r.dependencies.length :=
    List.length_map _
  have hdraft : entries (draft.fields digest original budget) "dependencies" =
      draft.value.dependencies.length := List.length_map _
  rw [SectionNamed, hwhole, hdraft]
  exact h

theorem named_sections {r : Result} {draft : Draft} (original : Dict)
    (h : Tracked r.toValue draft) : ∀ name ∈ sections,
      SectionNamed (Response.result r).fields (draft.fields digest original budget) name := by
  intro name hname
  simp only [sections, List.mem_cons, List.not_mem_nil, or_false] at hname
  rcases hname with rfl | rfl | rfl | rfl
  · have hwhole : entries (Response.result r).fields "unknown_scope" = r.unknown.length :=
      List.length_map _
    have hdraft : entries (draft.fields digest original budget) "unknown_scope" =
        draft.value.unknown.length := List.length_map _
    rw [SectionNamed, hwhole, hdraft]
    exact h.unknown
  · exact h.candidates
  · have hwhole : entries (Response.result r).fields "nonpropagating_relations" =
        r.nonpropagating.length := List.length_map _
    have hdraft : entries (draft.fields digest original budget) "nonpropagating_relations" =
        draft.value.nonpropagating.length := List.length_map _
    rw [SectionNamed, hwhole, hdraft]
    exact h.nonpropagating
  · exact named_dependencies original h.dependencies

/-- A list of a provider that is cut has its counters. -/
theorem Cut.counts {d whole : Dict} {l : String × String × String} {full : ℕ} (h : Cut d l full)
    (hwhole : entries whole l.1 = full) (hlt : entries d l.1 < entries whole l.1) :
    Counted d l.2 (entries whole l.1) (entries d l.1) := by
  rw [h.entries_eq, hwhole] at hlt ⊢
  have hmin : min limit full = limit := by omega
  rw [hmin] at hlt ⊢
  exact h.counted hlt

/-- The preview names all that it leaves out. -/
theorem honest_previewOf (digest : Json → Digest) (budget : ℕ) (response : Response) :
    Honest response.fields (previewOf digest budget response) := by
  cases response with
  | refresh generation =>
    have hsections (name : String) (hname : name ∈ sections) :
        entries (Response.refresh generation).fields name = 0 := by
      simp only [sections, List.mem_cons, List.not_mem_nil, or_false] at hname
      rcases hname with rfl | rfl | rfl | rfl
      · rfl
      · rfl
      · rfl
      · rfl
    refine ⟨fun name hname hlt => ?_, fun i l _ hlt => ?_⟩
    · rw [hsections name hname] at hlt
      exact absurd hlt (Nat.not_lt_zero _)
    · exact absurd hlt (Nat.not_lt_zero _)
  | result r =>
    refine ⟨named_sections _ (tracked_draftOf r.toValue budget), fun i l hl hlt => .inr ?_⟩
    cases hp : r.reported[i]? with
    | none =>
      rw [providerAt_fields, hp] at hlt
      exact absurd hlt (Nat.not_lt_zero _)
    | some p =>
      obtain ⟨d, hd, hsummarized⟩ := summarized_draftOf digest r budget i hp
      have hwhole : providerAt (Response.result r).fields i = p.fields := by
        rw [providerAt_fields, hp]
        rfl
      have hpreview : providerAt (previewOf digest budget (.result r)) i = d := by
        rw [previewOf, providerAt_draft, hd]
        rfl
      rw [hwhole, hpreview] at hlt ⊢
      simp only [providerLists, List.mem_cons, List.not_mem_nil, or_false] at hl
      rcases hl with rfl | rfl
      · exact hsummarized.gaps.counts (List.length_map _) hlt
      · exact hsummarized.manifest.counts rfl hlt

/-- The dependencies are named also where the sections are emptied. -/
theorem named_clearedOf (response : Response) :
    SectionNamed response.fields (clearedOf digest budget response) "dependencies" := by
  cases response with
  | refresh generation => exact fun hlt => absurd hlt (Nat.not_lt_zero _)
  | result r =>
    have hcleared (draft : Draft) (h : Tracked r.toValue draft) :
        Named draft.cleared.omissions "dependencies" r.dependencies.length
          draft.cleared.value.dependencies.length := h.dependencies
    exact named_dependencies (Response.result r).fields
      (hcleared _ (tracked_draftOf r.toValue budget))

/-- What an answer says about the entries that it leaves out. -/
structure Discloses (digest : Json → Digest) (response : Response) (budget : ℕ) (d : Dict) :
    Prop where
  preview : size response.fields ≤ budget ∨ size (previewOf digest budget response) ≤ budget →
    Honest response.fields d
  cleared : size (clearedOf digest budget response) ≤ budget →
    SectionNamed response.fields d "dependencies"
  pointer : budget < size response.fields → budget < size (previewOf digest budget response) →
    budget < size (clearedOf digest budget response) →
    omissionsOf d = [.obj [("section", .str "trace"),
      ("full_sha256", .str (digest (.obj response.fields)).text)]]

/-- A preview names every section that it shortens, an answer with emptied sections names the
dependencies that it leaves out, and a pointer names the whole trace. -/
theorem boundResult_discloses (digest : Json → Digest) (response : Response) (budget : ℕ) :
    Discloses digest response budget (boundResult digest response budget) := by
  have hpreview := honest_previewOf digest budget response
  have hwhole := honest_self response.fields
  rw [boundResult_eq]
  by_cases hfits : size response.fields ≤ budget
  · rw [if_pos hfits]
    refine ⟨fun _ => hwhole, fun _ => hwhole.sections _ (by decide), fun hlarge => ?_⟩
    exact absurd hfits (not_le.mpr hlarge)
  rw [if_neg hfits, firstFitting]
  by_cases hfirst : size (previewOf digest budget response) ≤ budget
  · rw [if_pos hfirst]
    refine ⟨fun _ => hpreview, fun _ => hpreview.sections _ (by decide), fun _ hlarge => ?_⟩
    exact absurd hfirst (not_le.mpr hlarge)
  rw [if_neg hfirst]
  refine ⟨fun h => absurd h (not_or.mpr ⟨hfits, hfirst⟩), fun hcleared => ?_, fun _ _ hlarge => ?_⟩
  · rw [if_pos hcleared]
    exact named_clearedOf response
  · rw [if_neg (not_le.mpr hlarge)]
    rfl

/-- A result with one candidate and a seed of so many letters. -/
def longSeed (letters : ℕ) : Result :=
  { candidateOnly 1 with seeds := [.str (String.ofList (List.replicate letters 'a'))] }

theorem draftOf_longSeed (n : ℕ) : draftOf (fun _ => zeroDigest) (longSeed n).toValue budget =
    ⟨(longSeed n).toValue, []⟩ := by
  have hcut : sectionsCut (fun _ => zeroDigest) (longSeed n).toValue =
      ⟨(longSeed n).toValue, []⟩ := rfl
  have hnone : (longSeed n).toValue.dependencies = [] := rfl
  have hhalved : dependenciesHalved (fun _ => zeroDigest) (longSeed n).toValue budget
      ⟨(longSeed n).toValue, []⟩ = ⟨(longSeed n).toValue, []⟩ := by
    rw [dependenciesHalved, hnone]
    rfl
  rw [draftOf, hcut, hhalved, dependenciesDropped, if_neg (fun h => h.2 rfl)]

/-- Nothing is smaller than a field of it. -/
theorem entrySize_le_size {d : Dict} {e : String × Json} (h : Distinct (.obj d)) (he : e ∈ d) :
    entrySize e ≤ size d := by
  obtain ⟨⟨key, v⟩, rest, rfl⟩ := List.exists_cons_of_ne_nil (List.ne_nil_of_mem he)
  have hle := List.single_le_sum (fun _ _ => Nat.zero_le _) (entrySize e) (List.mem_map_of_mem he)
  rw [size_eq h, wireSize_object, entriesSize]
  omega

theorem large_of_seed {d : Dict} {n : ℕ} (h : Distinct (.obj d))
    (hseed : ("seeds", .arr [.str (String.ofList (List.replicate n 'a'))]) ∈ d) : n < size d := by
  have hle := entrySize_le_size h hseed
  rw [entrySize, wireSize_array] at hle
  simp only [List.map_cons, List.map_nil, List.sum_cons, List.sum_nil, wireSize_str,
    textSize_letters] at hle
  omega

theorem large_whole (n : ℕ) : n < size (Response.result (longSeed n)).fields := by
  refine large_of_seed ⟨by simp [longSeed, candidateOnly, Response.fields, Value.fields], ?_⟩
    (by simp [Response.fields, Value.fields, longSeed])
  simp [longSeed, candidateOnly, Response.fields, Value.fields, Distinct, DistinctFields,
    DistinctItems, Delta.json, edgeList]

theorem distinct_budgetFields (digest : Json → Digest) (n full : ℕ) (whole : Json) :
    Distinct (.obj (budgetFields digest n full whole [])) := by
  simp [budgetFields, Distinct, DistinctFields, DistinctItems]

theorem distinct_draft {draft : Draft} (original : Dict) (homissions : draft.omissions = [])
    (h : ∀ e ∈ draft.value.fields, Distinct e.2) :
    Distinct (.obj (draft.fields digest original budget)) := by
  refine ⟨by simp [Draft.fields, Value.fields], distinctFields_iff.mpr (fun e he => ?_)⟩
  rcases List.mem_append.mp he with he | he
  · simp only [Value.fields, List.forall_mem_cons] at h
    simp only [Value.fields, List.mem_cons, List.not_mem_nil, or_false] at he
    obtain ⟨-, hgeneration, hseeds, hdependencies, hcandidates, hnonpropagating, hunknown,
      hcoverage, htraversal, hcontinuation, hdelta, -, hsafe, -⟩ := h
    rcases he with rfl | rfl | rfl | rfl | rfl | rfl | rfl | rfl | rfl | rfl | rfl | rfl | rfl
    · trivial
    · exact hgeneration
    · exact hseeds
    · exact hdependencies
    · exact hcandidates
    · exact hnonpropagating
    · exact hunknown
    · exact hcoverage
    · exact htraversal
    · exact hcontinuation
    · exact hdelta
    · refine distinctItems_iff.mpr (fun v hv => ?_)
      obtain ⟨s, -, rfl⟩ := List.mem_map.mp hv
      trivial
    · exact hsafe
  · rw [List.mem_singleton.mp he, homissions]
    exact distinct_budgetFields digest _ _ _

theorem large_previewOf (budget n : ℕ) :
    n < size (previewOf (fun _ => zeroDigest) budget (.result (longSeed n))) := by
  rw [previewOf, draftOf_longSeed]
  refine large_of_seed (distinct_draft _ rfl ?_) (by simp [Draft.fields, Value.fields, longSeed])
  simp [longSeed, candidateOnly, Value.fields, Distinct, DistinctFields, DistinctItems, Delta.json,
    edgeList]

theorem large_clearedOf (budget n : ℕ) :
    n < size (clearedOf (fun _ => zeroDigest) budget (.result (longSeed n))) := by
  rw [clearedOf, draftOf_longSeed]
  refine large_of_seed (distinct_draft _ rfl ?_)
    (by simp [Draft.cleared, Draft.fields, Value.fields, longSeed])
  simp [longSeed, candidateOnly, Draft.cleared, Value.fields, Distinct, DistinctFields,
    DistinctItems, Delta.json, edgeList]

/-- A pointer does not name the candidates that are left out. -/
theorem pointer_names_no_section : ¬ Honest (Response.result (longSeed 1100)).fields
    (boundResult (fun _ => zeroDigest) (.result (longSeed 1100)) 1024) := by
  have hwhole := large_whole 1100
  have hpreview := large_previewOf 1024 1100
  have hcleared := large_clearedOf 1024 1100
  rw [boundResult_eq, if_neg (by omega), firstFitting, if_neg (by omega), if_neg (by omega)]
  intro hhonest
  obtain ⟨o, ho, hsection, -⟩ :=
    hhonest.sections "possible_related_candidates" (by decide) Nat.zero_lt_one
  obtain rfl := Json.obj.inj (List.mem_singleton.mp ho)
  have htrace : Json.str "trace" = .str "possible_related_candidates" := Option.some.inj hsection
  exact absurd (Json.str.inj htrace) (by decide)

end Exits

end ProjectControl.Preview
