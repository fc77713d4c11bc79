import Mathlib
import ProjectControl.AuditEvents
import ProjectControl.JsonRewriting
import ProjectControl.WireSize

/-! The preview of a trace result that is too large for its packet. -/

set_option autoImplicit false

namespace ProjectControl.Preview

open JsonText Rewriting

section Shape

/-- A hexadecimal SHA-256. -/
structure Digest where
  text : String
  length : text.toList.length = 64
  hexadecimal : ∀ c ∈ text.toList, c ∈ "0123456789abcdef".toList

/-- The generation of a state: at most 128 bytes, without control characters. -/
structure Generation where
  text : String
  bounded : text.utf8ByteSize ≤ 128
  printable : ∀ c ∈ text.toList, 32 ≤ c.toNat

/-- An edge that several parts of a result share: which object of the state it is. -/
abbrev Ref := ℕ

/-- What one provider reports. -/
structure Provider where
  project : String
  projectUuid : String
  repository : String
  provider : String
  generation : String
  relations : List String
  complete : Bool
  freshness : String
  inputManifest : List Json
  gaps : List String

def Provider.fields (p : Provider) : Dict :=
  [("project", .str p.project), ("project_uuid", .str p.projectUuid),
    ("repository", .str p.repository), ("provider", .str p.provider),
    ("generation", .str p.generation), ("relations", .arr (p.relations.map .str)),
    ("complete", .bool p.complete), ("freshness", .str p.freshness),
    ("input_manifest", .arr p.inputManifest), ("gaps", .arr (p.gaps.map .str))]

/-- A node that is reached, with the edges that lead to it; `details` are its other fields. -/
structure Dependency where
  node : Json
  witnessChain : List Ref
  details : Dict

inductive Unknown where
  | record (v : Json)
  | edge (reason : String) (edge : Ref)

inductive Delta where
  | none
  | refreshRequired
  | changes (since generation : String) (added : List Ref) (removed : List Json)
      (changed : List Ref) (providerStateChanged : Bool)

/-- The copy that is worked on. The providers stand under `coverage` and under `delta`, as the same
objects; so do the edges wherever they are named. -/
structure Value where
  status : String
  generation : Generation
  seeds : List Json
  dependencies : List Dependency
  candidates : List Json
  nonpropagating : List Ref
  unknown : List Unknown
  complete : Bool
  providers : List Dict
  repositories : List Json
  visitedNodes : ℕ
  examinedEdges : ℕ
  cyclesOrSharedPaths : ℕ
  omittedGroups : List Json
  continuation : Json
  delta : Delta
  warnings : List String
  edges : Ref → Dict

/-- What `_trace` returns: a whole result, whose providers have reported, or the request to trace
anew. -/
structure Result extends Value where
  reported : List Provider
  providers_eq : providers = reported.map Provider.fields

inductive Response where
  | refresh (generation : Generation)
  | result (r : Result)

def edgeList (edges : Ref → Dict) (refs : List Ref) : Json :=
  .arr (refs.map (fun r => .obj (edges r)))

def Dependency.json (edges : Ref → Dict) (d : Dependency) : Json :=
  .obj ([("node", d.node), ("witness_chain", edgeList edges d.witnessChain)] ++ d.details)

def Unknown.json (edges : Ref → Dict) : Unknown → Json
  | .record v => v
  | .edge reason r => .obj [("reason", .str reason), ("edge", .obj (edges r))]

def Delta.json (edges : Ref → Dict) (providers : List Dict) : Delta → Json
  | .none => .null
  | .refreshRequired =>
    .obj [("status", .str "refresh_required"), ("reason", .str "generation_not_retained")]
  | .changes since generation added removed changed providerStateChanged =>
    .obj [("status", .str "ok"), ("from", .str since), ("to", .str generation),
      ("added_edges", edgeList edges added), ("removed_edges", .arr removed),
      ("changed_edges", edgeList edges changed),
      ("provider_state_changed", .bool providerStateChanged),
      ("providers", .arr (providers.map .obj))]

def Value.fields (v : Value) : Dict :=
  [("status", .str v.status), ("generation", .str v.generation.text), ("seeds", .arr v.seeds),
    ("dependencies", .arr (v.dependencies.map (Dependency.json v.edges))),
    ("possible_related_candidates", .arr v.candidates),
    ("nonpropagating_relations", edgeList v.edges v.nonpropagating),
    ("unknown_scope", .arr (v.unknown.map (Unknown.json v.edges))),
    ("coverage", .obj [("complete_graph_cut", .bool v.complete),
      ("providers", .arr (v.providers.map .obj)), ("repositories", .arr v.repositories)]),
    ("traversal", .obj [("visited_nodes", .num v.visitedNodes),
      ("examined_edges", .num v.examinedEdges),
      ("cycle_or_shared_path_count", .num v.cyclesOrSharedPaths),
      ("omitted_groups", .arr v.omittedGroups)]),
    ("continuation", v.continuation), ("delta", v.delta.json v.edges v.providers),
    ("warnings", .arr (v.warnings.map .str)), ("safe_to_change", .null)]

def refreshFields (status : String) (generation : Generation) (warnings : List String) : Dict :=
  [("status", .str status), ("generation", .str generation.text),
    ("warnings", .arr (warnings.map .str)), ("refresh_required", .bool true)]

def Response.fields : Response → Dict
  | .refresh generation => refreshFields "partial" generation ["trace_refresh_required"]
  | .result r => r.toValue.fields

/-- `len(wire(value))`. -/
def size (d : Dict) : ℕ := bytes (render ⟨false, false⟩ (sortKeys (.obj d)))

end Shape

section Summaries

-- `digest` is SHA-256 of the canonical JSON text
variable (digest : Json → Digest)

/-- `d.update(new)`; the order of the fields is that of no text, since each text sorts them. -/
def update (d new : Dict) : Dict := d.filter (fun e => e.1 ∉ new.map Prod.fst) ++ new

def limit : ℕ := 8

/-- The manifest that an object is looked at for. -/
def manifestOf (d : Dict) : List (List Json) :=
  match d.get "input_manifest" with
  | some (.arr manifest) => [manifest]
  | _ => []

/-- What `summarize_manifest` makes of an object. -/
def cutManifest (d : Dict) : Dict :=
  match d.get "input_manifest" with
  | some (.arr manifest) =>
    if manifest.length ≤ limit then d
    else update d [("input_manifest_count", .num manifest.length),
      ("input_manifest_sha256", .str (digest (.arr manifest)).text),
      ("input_manifest_omitted", .num (manifest.length - limit : ℕ)),
      ("input_manifest_complete", .bool false), ("input_manifest", .arr (manifest.take limit))]
  | _ => d

def cutGaps (d : Dict) : Dict :=
  match d.get "gaps" with
  | some (.arr gaps) =>
    if gaps.length ≤ limit then d
    else update d [("gaps_count", .num gaps.length),
      ("gaps_sha256", .str (digest (.arr gaps)).text),
      ("gaps_omitted", .num (gaps.length - limit : ℕ)), ("gaps", .arr (gaps.take limit))]
  | _ => d

/-- `summarize_edge`: the edge, and its witness as far as that goes on. -/
def summarizeEdge (d : Dict) : Dict := along (cutManifest digest) "witness" (depth (.obj d)) d

def edgeManifests (d : Dict) : List (List Json) :=
  visitsAlong (cutManifest digest) manifestOf "witness" (depth (.obj d)) d

/-- `summarize_nested`. -/
def summarizeNested (v : Json) : Json := everywhere (cutManifest digest) (depth v) v

def nestedManifests (v : Json) : List (List Json) :=
  visits (cutManifest digest) manifestOf (depth v) v

/-- `summarize_nested` of an object. -/
def summarizeObject (d : Dict) : Dict :=
  (cutManifest digest d).map (fun e => (e.1, everywhere (cutManifest digest) (depthFields d) e.2))

theorem summarizeNested_object (d : Dict) :
    summarizeNested digest (.obj d) = .obj (summarizeObject digest d) := rfl

/-- The shared edges, and the manifests met so far. -/
structure Copies where
  edges : Ref → Dict
  manifests : List (List Json)

def Copies.edge (c : Copies) (r : Ref) : Copies :=
  ⟨Function.update c.edges r (summarizeEdge digest (c.edges r)),
    c.manifests ++ edgeManifests digest (c.edges r)⟩

def Copies.nestedEdge (c : Copies) (r : Ref) : Copies :=
  ⟨Function.update c.edges r (summarizeObject digest (c.edges r)),
    c.manifests ++ nestedManifests digest (.obj (c.edges r))⟩

def Copies.nested (c : Copies) (v : Json) : Copies :=
  ⟨c.edges, c.manifests ++ nestedManifests digest v⟩

def Copies.unknown (c : Copies) : Unknown → Copies
  | .record v => c.nested digest v
  | .edge _ r => c.nestedEdge digest r

def Copies.delta (providers : List Dict) (c : Copies) : Delta → Copies
  | .changes _ _ added removed changed _ =>
    let c := added.foldl (Copies.nestedEdge digest) c
    let c := removed.foldl (Copies.nested digest) c
    let c := changed.foldl (Copies.nestedEdge digest) c
    (providers.map Json.obj).foldl (Copies.nested digest) c
  | _ => c

def Unknown.summarize : Unknown → Unknown
  | .record v => .record (summarizeNested digest v)
  | .edge reason r => .edge reason r

def Delta.summarize : Delta → Delta
  | .changes since generation added removed changed providerStateChanged =>
    .changes since generation added (removed.map (summarizeNested digest)) changed
      providerStateChanged
  | delta => delta

/-- The providers stand in a delta of changes too, where all that they hold is summarized. -/
def nestedProviders (providers : List Dict) : Delta → List Dict
  | .changes .. => providers.map (summarizeObject digest)
  | _ => providers

/-- The copy with shortened manifests and gaps, and the manifests that were met. -/
def summarize (v : Value) : Value × List (List Json) :=
  let providers := v.providers.map (fun p => cutGaps digest (cutManifest digest p))
  let c : Copies := ⟨v.edges, v.providers.flatMap manifestOf⟩
  let c := (v.dependencies.flatMap (·.witnessChain)).foldl (Copies.edge digest) c
  let c := v.nonpropagating.foldl (Copies.edge digest) c
  let c := v.unknown.foldl (Copies.unknown digest) c
  let c := c.delta digest providers v.delta
  ({ v with
      providers := nestedProviders digest providers v.delta
      unknown := v.unknown.map (Unknown.summarize digest)
      delta := v.delta.summarize digest
      edges := c.edges }, c.manifests)

end Summaries

section Stages

variable (digest : Json → Digest)

def omission (name : String) (full : ℕ) (whole : Json) (preview : ℕ) : Json :=
  .obj [("section", .str name), ("full_count", .num full),
    ("full_sha256", .str (digest whole).text), ("preview_count", .num preview)]

/-- The record of a section that is cut to its first eight entries. -/
def sectionOmission (name : String) (full : ℕ) (whole : Json) : List Json :=
  if full ≤ limit then [] else [omission digest name full whole limit]

def manifestOmission (manifests : List (List Json)) : List Json :=
  let left := (manifests.map (fun m => m.length - limit)).sum
  if left = 0 then []
  else [.obj [("section", .str "input_manifests"),
    ("full_count", .num ((manifests.map List.length).sum : ℕ)),
    ("full_sha256", .str (digest (.arr (manifests.map (fun m =>
      .str (digest (.arr m)).text)))).text),
    ("omitted_count", .num left), ("preview_count", .str "summarized")]]

def omittedGroup (full kept : ℕ) (whole : Json) : Json :=
  .obj [("reason", .str "packet_payload_budget"), ("full_count", .num full),
    ("omitted_count", .num (full - kept : ℕ)), ("full_sha256", .str (digest whole).text)]

/-- A copy with the omissions that are recorded for it. -/
structure Draft where
  value : Value
  omissions : List Json

/-- Manifests and gaps shortened, and the three sections cut to eight entries each. -/
def sectionsCut (v : Value) : Draft :=
  let s := summarize digest v
  ⟨{ s.1 with
      candidates := s.1.candidates.take limit
      nonpropagating := s.1.nonpropagating.take limit
      unknown := s.1.unknown.take limit },
    sectionOmission digest "unknown_scope" v.unknown.length
        (.arr (v.unknown.map (Unknown.json v.edges))) ++
      sectionOmission digest "possible_related_candidates" v.candidates.length
        (.arr v.candidates) ++
      sectionOmission digest "nonpropagating_relations" v.nonpropagating.length
        (edgeList v.edges v.nonpropagating) ++
      manifestOmission digest s.2⟩

/-- Halved until it is empty or small enough; the first argument bounds the number of halvings. -/
def halve (large : List Dependency → Bool) : ℕ → List Dependency → List Dependency
  | n + 1, ds =>
    if ds ≠ [] ∧ large ds then halve large n (ds.take (ds.length / 2)) else ds
  | 0, ds => ds

def dependenciesOf (v : Value) : Json := .arr (v.dependencies.map (Dependency.json v.edges))

/-- The dependencies halved until the copy fits. -/
def dependenciesHalved (original : Value) (budget : ℕ) (draft : Draft) : Draft :=
  let v := draft.value
  let kept := halve (fun ds => decide (budget < size { v with dependencies := ds }.fields))
    v.dependencies.length v.dependencies
  if kept.length < v.dependencies.length then
    ⟨{ v with
        dependencies := kept
        omittedGroups := v.omittedGroups ++
          [omittedGroup digest v.dependencies.length kept.length (dependenciesOf original)]
        complete := false },
      draft.omissions ++ [omission digest "dependencies" v.dependencies.length
        (dependenciesOf original) kept.length]⟩
  else draft

/-- The last dependencies given up, where the copy is too large for them. -/
def dependenciesDropped (original : Value) (budget : ℕ) (draft : Draft) : Draft :=
  let v := draft.value
  if budget < size v.fields ∧ v.dependencies ≠ [] then
    ⟨{ v with
        dependencies := []
        omittedGroups :=
          [omittedGroup digest original.dependencies.length 0 (dependenciesOf original)]
        complete := false },
      draft.omissions ++ [omission digest "dependencies" original.dependencies.length
        (dependenciesOf original) 0]⟩
  else draft

def draftOf (v : Value) (budget : ℕ) : Draft :=
  dependenciesDropped digest v budget (dependenciesHalved digest v budget (sectionsCut digest v))

def budgetFields (budget full : ℕ) (whole : Json) (omissions : List Json) : Dict :=
  [("limit_bytes", .num budget), ("full_result_bytes", .num full),
    ("full_result_sha256", .str (digest whole).text), ("omissions", .arr omissions)]

def previewWarning : String := "impact_payload_budget_preview"

/-- The copy as a preview of `original`. -/
def Draft.fields (original : Dict) (budget : ℕ) (draft : Draft) : Dict :=
  { draft.value with
    status := "partial"
    warnings := draft.value.warnings ++ [previewWarning] }.fields ++
    [("payload_budget", .obj (budgetFields digest budget (size original) (.obj original)
      draft.omissions))]

/-- The three sections emptied, and the providers without their lists. -/
def Draft.cleared (draft : Draft) : Draft :=
  ⟨{ draft.value with
      candidates := []
      unknown := []
      nonpropagating := []
      providers := draft.value.providers.map (fun p =>
        p.filter (fun e => e.1 ∉ ["gaps", "input_manifest"])) }, draft.omissions⟩

/-- What is the same in every pointer. -/
def pointerFields : Dict :=
  [("status", .str "partial"), ("seeds", .arr []), ("dependencies", .arr []),
    ("coverage", .obj [("complete_graph_cut", .bool false), ("providers", .arr [])]),
    ("traversal", .obj [("visited_nodes", .num 0), ("examined_edges", .num 0),
      ("omitted_groups", .arr [])]),
    ("continuation", .null), ("warnings", .arr [.str previewWarning])]

/-- A pointer to the whole trace. -/
def pointer (generation : Generation) (original : Dict) (budget : ℕ) : Dict :=
  pointerFields ++ [("generation", .str generation.text),
    ("payload_budget", .obj (budgetFields digest budget (size original) (.obj original)
      [.obj [("section", .str "trace"),
        ("full_sha256", .str (digest (.obj original)).text)]]))]

/-- The preview of a request to trace anew, which has none of the sections. -/
def refreshPreview (generation : Generation) (original : Dict) (budget : ℕ) : Dict :=
  refreshFields "partial" generation ["trace_refresh_required", previewWarning] ++
    [("payload_budget", .obj (budgetFields digest budget (size original) (.obj original) []))]

def emptySections : Dict :=
  [("possible_related_candidates", .arr []), ("unknown_scope", .arr []),
    ("nonpropagating_relations", .arr [])]

/-- The first of the three that fits, and the last where neither of the others does. -/
def firstFitting (budget : ℕ) (preview cleared pointer : Dict) : Dict :=
  if size preview ≤ budget then preview else if size cleared ≤ budget then cleared else pointer

/-- `_bound_result`. -/
def boundResult (response : Response) (budget : ℕ) : Dict :=
  let original := response.fields
  if size original ≤ budget then original
  else match response with
  | .refresh generation =>
    let preview := refreshPreview digest generation original budget
    firstFitting budget preview (preview ++ emptySections)
      (pointer digest generation original budget)
  | .result r =>
    let draft := draftOf digest r.toValue budget
    firstFitting budget (draft.fields digest original budget)
      (draft.cleared.fields digest original budget) (pointer digest r.generation original budget)

end Stages

section Keeping

variable {digest : Json → Digest} {c c' c'' : Copies} {v original : Value} {d : Dict} {budget : ℕ}

/-- Each edge of the second copy is that of the first, up to shortened manifests. -/
def Kept (digest : Json → Digest) (edges edges' : Ref → Dict) : Prop :=
  ∀ r, Rewritten (cutManifest digest) (.obj (edges r)) (.obj (edges' r))

theorem kept_refl (edges : Ref → Dict) : Kept digest edges edges := fun _ => .refl _

theorem Kept.trans {e e' e'' : Ref → Dict} (h : Kept digest e e') (h' : Kept digest e' e'') :
    Kept digest e e'' := fun r => (h r).trans (h' r)

theorem kept_update (edges : Ref → Dict) (r : Ref)
    (h : Rewritten (cutManifest digest) (.obj (edges r)) (.obj d)) :
    Kept digest edges (Function.update edges r d) := by
  intro r'
  by_cases hr : r' = r
  · rw [hr, Function.update_self]
    exact h
  · rw [Function.update_of_ne hr]
    exact .refl _

theorem kept_edge (digest : Json → Digest) (c : Copies) (r : Ref) :
    Kept digest c.edges (c.edge digest r).edges :=
  kept_update c.edges r (rewritten_along _ _)

theorem kept_nestedEdge (digest : Json → Digest) (c : Copies) (r : Ref) :
    Kept digest c.edges (c.nestedEdge digest r).edges := by
  refine kept_update c.edges r ?_
  rw [← summarizeNested_object]
  exact rewritten_everywhere _ _

theorem kept_nested (digest : Json → Digest) (c : Copies) (v : Json) :
    Kept digest c.edges (c.nested digest v).edges := kept_refl c.edges

theorem kept_unknown (digest : Json → Digest) (c : Copies) (u : Unknown) :
    Kept digest c.edges (c.unknown digest u).edges := by
  cases u with
  | record v => exact kept_refl c.edges
  | edge reason r => exact kept_nestedEdge digest c r

theorem kept_foldl {α : Type} {step : Copies → α → Copies}
    (h : ∀ c x, Kept digest c.edges (step c x).edges) (xs : List α) (c : Copies) :
    Kept digest c.edges (xs.foldl step c).edges := by
  induction xs generalizing c with
  | nil => exact kept_refl c.edges
  | cons x xs ih => exact (h c x).trans (ih (step c x))

theorem kept_delta (providers : List Dict) (c : Copies) (delta : Delta) :
    Kept digest c.edges (c.delta digest providers delta).edges := by
  cases delta with
  | none => exact kept_refl c.edges
  | refreshRequired => exact kept_refl c.edges
  | changes since generation added removed changed providerStateChanged =>
    have hadded := kept_foldl (kept_nestedEdge digest) added c
    have hremoved := hadded.trans (kept_foldl (kept_nested digest) removed _)
    have hchanged := hremoved.trans (kept_foldl (kept_nestedEdge digest) changed _)
    exact hchanged.trans (kept_foldl (kept_nested digest) (providers.map .obj) _)

theorem kept_summarize (v : Value) : Kept digest v.edges (summarize digest v).1.edges := by
  have hchains := kept_foldl (kept_edge digest) (v.dependencies.flatMap (·.witnessChain))
    ⟨v.edges, v.providers.flatMap manifestOf⟩
  have hrelations := hchains.trans (kept_foldl (kept_edge digest) v.nonpropagating _)
  have hunknown := hrelations.trans (kept_foldl (kept_unknown digest) v.unknown _)
  exact hunknown.trans (kept_delta _ _ v.delta)

/-- What every stage keeps of the dependencies: the first ones with their whole chains, and the word
that some are gone. -/
structure Preserves (digest : Json → Digest) (original v : Value) : Prop where
  dependencies : v.dependencies <+: original.dependencies
  cut : v.dependencies.length < original.dependencies.length → v.complete = false
  edges : Kept digest original.edges v.edges

theorem halve_isPrefix (large : List Dependency → Bool) (n : ℕ) (ds : List Dependency) :
    halve large n ds <+: ds := by
  induction n generalizing ds with
  | zero => exact List.prefix_rfl
  | succ n ih =>
    rw [halve]
    split
    · exact (ih _).trans (List.take_prefix _ ds)
    · exact List.prefix_rfl

theorem halve_length_lt {large : List Dependency → Bool} {n : ℕ} {ds : List Dependency}
    (hn : n ≠ 0) (hne : ds ≠ []) (hlarge : large ds = true) :
    (halve large n ds).length < ds.length := by
  obtain ⟨n, rfl⟩ := Nat.exists_eq_succ_of_ne_zero hn
  rw [halve, if_pos ⟨hne, hlarge⟩]
  have hle := (halve_isPrefix large n (ds.take (ds.length / 2))).length_le
  have hpos := List.length_pos_of_ne_nil hne
  rw [List.length_take] at hle
  omega

/-- A copy that is too large with all of its dependencies loses some. -/
theorem draftOf_length_lt (hlarge : budget < size (sectionsCut digest v).value.fields)
    (hne : v.dependencies ≠ []) :
    (draftOf digest v budget).value.dependencies.length < v.dependencies.length := by
  have hhalved : (dependenciesHalved digest v budget
      (sectionsCut digest v)).value.dependencies.length < v.dependencies.length := by
    rw [dependenciesHalved]
    split
    · next hkept => exact hkept
    · next hkept =>
      refine absurd (halve_length_lt (mt List.length_eq_zero_iff.mp hne) hne ?_) hkept
      exact decide_eq_true hlarge
  rw [draftOf, dependenciesDropped]
  split
  · exact List.length_pos_of_ne_nil hne
  · exact hhalved

theorem preserves_sectionsCut (v : Value) : Preserves digest v (sectionsCut digest v).value :=
  ⟨List.prefix_rfl, fun h => absurd h (lt_irrefl _), kept_summarize v⟩

theorem preserves_halved {draft : Draft} (h : Preserves digest original draft.value) :
    Preserves digest original (dependenciesHalved digest original budget draft).value := by
  rw [dependenciesHalved]
  split
  · exact ⟨(halve_isPrefix _ _ _).trans h.dependencies, fun _ => rfl, h.edges⟩
  · exact h

theorem preserves_dropped {draft : Draft} (h : Preserves digest original draft.value) :
    Preserves digest original (dependenciesDropped digest original budget draft).value := by
  rw [dependenciesDropped]
  split
  · exact ⟨List.nil_prefix, fun _ => rfl, h.edges⟩
  · exact h

theorem preserves_cleared {draft : Draft} (h : Preserves digest original draft.value) :
    Preserves digest original draft.cleared.value := ⟨h.dependencies, h.cut, h.edges⟩

theorem preserves_draftOf (v : Value) (budget : ℕ) :
    Preserves digest v (draftOf digest v budget).value :=
  preserves_dropped (preserves_halved (preserves_sectionsCut v))

end Keeping

section Sizes

variable {digest : Json → Digest} {budget : ℕ} {d : Dict}

theorem size_eq (h : Distinct (.obj d)) : size d = wireSize (.obj d) := by
  rw [size, bytes_sortKeys _ h, wireSize]

/-- Hexadecimal digits are written as they are. -/
theorem textSize_digest (sha : Digest) : textSize sha.text = 66 := by
  have hdigit : ∀ c ∈ "0123456789abcdef".toList, bytes (escape false c) = 1 := by
    intro c hc
    fin_cases hc <;> rfl
  have htext (text : List Char) (h : ∀ c ∈ text, c ∈ "0123456789abcdef".toList) :
      bytes (text.flatMap (escape false)) = text.length := by
    induction text with
    | nil => rfl
    | cons c text ih =>
      have hc := hdigit c (h c List.mem_cons_self)
      have hrest := ih fun c' hc' => h c' (List.mem_cons_of_mem c hc')
      rw [List.flatMap_cons, bytes_append, List.length_cons, hc, hrest]
      omega
  have hmark : bytes ['"'] = 1 := rfl
  have hquote : '"'.utf8Size = 1 := rfl
  rw [textSize, quote, List.cons_append, bytes_cons, bytes_append, htext _ sha.hexadecimal,
    sha.length, hmark, hquote]

theorem textSize_generation (generation : Generation) : textSize generation.text ≤ 258 := by
  have hsize := bytes_quote_le generation.printable
  have hbounded := generation.bounded
  rw [textSize]
  omega

theorem wireSize_number {n : ℕ} (h : n < 10 ^ 20) : wireSize (.num n) ≤ 20 := by
  have hbytes := (bytes_number_le_iff (n := n) (by omega : 0 < 20)).mpr h
  rw [wireSize]
  exact hbytes

theorem wireSize_budgetFields (digest : Json → Digest) (whole : Json) {n full : ℕ}
    {items : List Json} {k : ℕ} (hn : n < 10 ^ 20) (hfull : full < 10 ^ 20)
    (hitems : wireSize (.arr items) ≤ k) :
    wireSize (.obj (budgetFields digest n full whole items)) ≤ k + 178 := by
  have hlimit : textSize "limit_bytes" = 13 := by decide +kernel
  have hbytes : textSize "full_result_bytes" = 19 := by decide +kernel
  have hsha : textSize "full_result_sha256" = 20 := by decide +kernel
  have homissions : textSize "omissions" = 11 := by decide +kernel
  have hnone : entriesSize [] = 0 := rfl
  have hn' := wireSize_number hn
  have hfull' := wireSize_number hfull
  have hdigest := textSize_digest (digest whole)
  rw [budgetFields, wireSize_object]
  simp only [entriesSize_cons, hnone, wireSize_str]
  omega

theorem distinct_pointer (digest : Json → Digest) (generation : Generation) (original : Dict)
    (budget : ℕ) : Distinct (.obj (pointer digest generation original budget)) := by
  have hkeys : (pointer digest generation original budget).map Prod.fst =
      pointerFields.map Prod.fst ++ ["generation", "payload_budget"] := rfl
  refine ⟨?_, ?_⟩
  · rw [hkeys]
    decide
  · simp [Distinct, DistinctFields, DistinctItems, pointer, pointerFields, budgetFields]

/-- The pointer takes at most 1024 bytes. -/
theorem size_pointer (generation : Generation) {original : Dict}
    (horiginal : size original < 2 ^ 64)
    (hbudget : budget ≤ 2 ^ 64) : size (pointer digest generation original budget) ≤ 1024 := by
  have hgeneration := textSize_generation generation
  have hdigest := textSize_digest (digest (.obj original))
  have homission : wireSize (.arr [.obj [("section", .str "trace"),
      ("full_sha256", .str (digest (.obj original)).text)]]) ≤ 102 := by
    have hsection : textSize "section" = 9 := by decide +kernel
    have htrace : textSize "trace" = 7 := by decide +kernel
    have hsha : textSize "full_sha256" = 13 := by decide +kernel
    have hnone : entriesSize [] = 0 := rfl
    rw [wireSize_array]
    simp only [List.map_cons, List.map_nil, List.sum_cons, List.sum_nil, List.length_cons,
      List.length_nil, wireSize_object, entriesSize_cons, hnone, wireSize_str]
    omega
  have hpayload := wireSize_budgetFields digest (.obj original) (by omega : budget < 10 ^ 20)
    (by omega : size original < 10 ^ 20) homission
  have hconstant : entriesSize pointerFields ≤ 400 := by decide +kernel
  have hkey : textSize "generation" = 12 := by decide +kernel
  have hbudgetKey : textSize "payload_budget" = 16 := by decide +kernel
  have hnone : entriesSize [] = 0 := rfl
  have hobject : wireSize (.obj (pointer digest generation original budget)) =
      entriesSize (pointer digest generation original budget) + 1 := wireSize_object _ _ _
  rw [size_eq (distinct_pointer digest generation original budget), hobject, pointer,
    entriesSize_append]
  simp only [entriesSize_cons, hnone, wireSize_str]
  omega

/-- A request to trace anew is never too large. -/
theorem size_refresh (generation : Generation) :
    size (Response.refresh generation).fields ≤ 1024 := by
  have hgeneration := textSize_generation generation
  have hstatus : entrySize ("status", .str "partial") = 19 := by decide +kernel
  have hkey : textSize "generation" = 12 := by decide +kernel
  have hrest : entriesSize [("warnings", .arr [.str "trace_refresh_required"]),
      ("refresh_required", .bool true)] ≤ 80 := by decide +kernel
  have hkeys : (Response.refresh generation).fields.map Prod.fst =
      ["status", "generation", "warnings", "refresh_required"] := rfl
  have hdistinct : Distinct (.obj (Response.refresh generation).fields) := by
    refine ⟨?_, ?_⟩
    · rw [hkeys]
      decide
    · simp [Response.fields, refreshFields, DistinctFields, DistinctItems, Distinct]
  have hsplit : entriesSize (Response.refresh generation).fields =
      entrySize ("status", .str "partial") +
        (textSize "generation" + wireSize (.str generation.text) + 2 +
          entriesSize [("warnings", .arr [.str "trace_refresh_required"]),
            ("refresh_required", .bool true)]) := by
    rw [Response.fields, refreshFields, entriesSize, List.map_cons, List.sum_cons, List.map_cons,
      List.sum_cons]
    rfl
  have hobject : wireSize (.obj (Response.refresh generation).fields) =
      entriesSize (Response.refresh generation).fields + 1 := wireSize_object _ _ _
  rw [size_eq hdistinct, hobject, hsplit, wireSize_str]
  omega

end Sizes

section Bound

variable {digest : Json → Digest} {response : Response} {budget : ℕ} {d : Dict}

/-- What a bounded answer owes to the response that it is for. -/
structure Bounded (digest : Json → Digest) (response : Response) (budget : ℕ) (d : Dict) :
    Prop where
  fits : size d ≤ budget
  marked : d ≠ response.fields → d.get "status" = some (.str "partial") ∧
    d.path ["payload_budget", "full_result_sha256"] =
      some (.str (digest (.obj response.fields)).text)
  chains : ∀ r, response = .result r → ∃ kept edges, kept <+: r.dependencies ∧
    Kept digest r.edges edges ∧
    d.get "dependencies" = some (.arr (kept.map (Dependency.json edges))) ∧
    (kept.length < r.dependencies.length →
      d.path ["coverage", "complete_graph_cut"] = some (.bool false))

theorem firstFitting_cases {preview cleared small : Dict} (hsmall : size small ≤ budget)
    {P : Dict → Prop} (hpreview : P preview) (hcleared : P cleared) (hpointer : P small) :
    size (firstFitting budget preview cleared small) ≤ budget ∧
      P (firstFitting budget preview cleared small) := by
  rw [firstFitting]
  split
  · next h => exact ⟨h, hpreview⟩
  · split
    · next h => exact ⟨h, hcleared⟩
    · exact ⟨hsmall, hpointer⟩

/-- An answer in place of a result says that it is partial, names the result, and has the first
dependencies with their whole chains. -/
structure Previews (digest : Json → Digest) (original : Value) (whole d : Dict) : Prop where
  partly : d.get "status" = some (.str "partial")
  names : d.path ["payload_budget", "full_result_sha256"] =
    some (.str (digest (.obj whole)).text)
  chains : ∃ kept edges, kept <+: original.dependencies ∧ Kept digest original.edges edges ∧
    d.get "dependencies" = some (.arr (kept.map (Dependency.json edges))) ∧
    (kept.length < original.dependencies.length →
      d.path ["coverage", "complete_graph_cut"] = some (.bool false))

theorem previews_draft {original : Value} {draft : Draft} (whole : Dict)
    (h : Preserves digest original draft.value) :
    Previews digest original whole (draft.fields digest whole budget) := by
  refine ⟨rfl, rfl, draft.value.dependencies, draft.value.edges, h.dependencies, h.edges, rfl,
    fun hcut => ?_⟩
  have hcomplete : (draft.fields digest whole budget).path ["coverage", "complete_graph_cut"] =
      some (.bool draft.value.complete) := rfl
  rw [hcomplete, h.cut hcut]

theorem previews_pointer (original : Value) (generation : Generation) (whole : Dict) :
    Previews digest original whole (pointer digest generation whole budget) :=
  ⟨rfl, rfl, [], original.edges, List.nil_prefix, kept_refl _, rfl, fun _ => rfl⟩

/-- A response that fits is returned; any other answer fits too, is marked as partial with the
digest of the response, has the first dependencies with whole witness chains, and says that the
graph is cut where dependencies are left out. -/
theorem bounded_boundResult (hbudget : 1024 ≤ budget ∧ budget ≤ 2 ^ 64)
    (hsize : size response.fields < 2 ^ 64) :
    Bounded digest response budget (boundResult digest response budget) := by
  unfold boundResult
  dsimp only
  split
  · next hfits =>
    refine ⟨hfits, fun hne => absurd rfl hne, ?_⟩
    rintro r rfl
    exact ⟨r.dependencies, r.edges, List.prefix_rfl, kept_refl _, rfl,
      fun h => absurd h (lt_irrefl _)⟩
  · next hlarge =>
    cases response with
    | refresh generation => exact absurd ((size_refresh generation).trans hbudget.1) hlarge
    | result r =>
      have hdraft : Preserves digest r.toValue (draftOf digest r.toValue budget).value :=
        preserves_draftOf r.toValue budget
      have hcleared := preserves_cleared hdraft
      have hwhole : size r.toValue.fields < 2 ^ 64 := by
        rw [Response.fields] at hsize
        exact hsize
      have hpointer : size (pointer digest r.generation r.toValue.fields budget) ≤ budget := by
        have hsmall : size (pointer digest r.generation r.toValue.fields budget) ≤ 1024 :=
          size_pointer r.generation hwhole hbudget.2
        omega
      obtain ⟨hfits, hpreviews⟩ := firstFitting_cases
        (P := Previews digest r.toValue r.toValue.fields) hpointer
        (previews_draft r.toValue.fields hdraft) (previews_draft r.toValue.fields hcleared)
        (previews_pointer r.toValue r.generation r.toValue.fields)
      refine ⟨hfits, fun _ => ⟨hpreviews.partly, hpreviews.names⟩, ?_⟩
      rintro r' hr'
      cases hr'
      exact hpreviews.chains

def zeroDigest : Digest where
  text := String.ofList (List.replicate 64 '0')
  length := by decide +kernel
  hexadecimal c hc := by
    rw [String.toList_ofList] at hc
    rw [List.eq_of_mem_replicate hc]
    decide +kernel

/-- A result with nothing in it but one candidate, which is a text of so many letters. -/
def candidateOnly (letters : ℕ) : Result where
  status := "ok"
  generation := ⟨"g", by decide +kernel, by simp⟩
  seeds := []
  dependencies := []
  candidates := [.str (String.ofList (List.replicate letters 'a'))]
  nonpropagating := []
  unknown := []
  complete := true
  providers := []
  repositories := []
  visitedNodes := 0
  examinedEdges := 0
  cyclesOrSharedPaths := 0
  omittedGroups := []
  continuation := .null
  delta := .none
  warnings := []
  edges := fun _ => []
  reported := []
  providers_eq := rfl

theorem textSize_letters (n : ℕ) : textSize (String.ofList (List.replicate n 'a')) = n + 2 := by
  have hletter : bytes (escape false 'a') = 1 := by decide +kernel
  have hmark : bytes ['"'] = 1 := rfl
  have hquote : '"'.utf8Size = 1 := rfl
  have hletters : bytes ((List.replicate n 'a').flatMap (escape false)) = n := by
    induction n with
    | zero => rfl
    | succ n ih =>
      rw [List.replicate_succ, List.flatMap_cons, bytes_append, ih, hletter, Nat.add_comm]
  rw [textSize, quote, String.toList_ofList, List.cons_append, bytes_cons, bytes_append, hletters,
    hmark, hquote]
  omega

/-- Two dependencies, the first of them small and the second larger than all the rest. -/
def smallAndLarge : Result :=
  { candidateOnly 0 with
    candidates := []
    dependencies := [⟨.num 1, [0], []⟩, ⟨.num (10 ^ 600), [0], []⟩]
    edges := fun _ => [("kind", .str "calls")] }

def keptCount (d : Dict) : ℕ :=
  match d.get "dependencies" with
  | some (.arr kept) => kept.length
  | _ => 0

theorem sectionsCut_smallAndLarge : sectionsCut (fun _ => zeroDigest) smallAndLarge.toValue =
    ⟨smallAndLarge.toValue, []⟩ := by
  have hedges : sectionsCut (fun _ => zeroDigest) smallAndLarge.toValue =
      ⟨{ smallAndLarge.toValue with
        edges := Function.update (Function.update smallAndLarge.edges 0 (smallAndLarge.edges 0)) 0
          (smallAndLarge.edges 0) }, []⟩ := rfl
  rw [hedges, Function.update_eq_self, Function.update_eq_self]

theorem size_smallAndLarge : size (Response.result smallAndLarge).fields = 1077 := by
  decide +kernel

theorem keptCount_fields (draft : Draft) (original : Dict) :
    keptCount (draft.fields digest original budget) = draft.value.dependencies.length :=
  List.length_map _

theorem keptCount_boundResult {r : Result} (hlarge : ¬size (Response.result r).fields ≤ budget)
    {n : ℕ} (hn : 0 < n)
    (hdraft : (draftOf digest r.toValue budget).value.dependencies.length < n) :
    keptCount (boundResult digest (.result r) budget) < n := by
  rw [boundResult]
  dsimp only
  rw [if_neg hlarge]
  generalize draftOf digest r.toValue budget = draft at hdraft ⊢
  rw [firstFitting]
  split_ifs
  · exact (keptCount_fields draft _).trans_lt hdraft
  · exact (keptCount_fields draft.cleared _).trans_lt hdraft
  · exact hn

/-- Of two dependencies one at most is kept. -/
theorem second_dependency_dropped :
    keptCount (boundResult (fun _ => zeroDigest) (.result smallAndLarge) 1024) < 2 ∧
      Bounded (fun _ => zeroDigest) (.result smallAndLarge) 1024
        (boundResult (fun _ => zeroDigest) (.result smallAndLarge) 1024) := by
  have hsize := size_smallAndLarge
  refine ⟨keptCount_boundResult (by omega) Nat.zero_lt_two ?_,
    bounded_boundResult ⟨le_refl _, by decide⟩ (by omega)⟩
  refine draftOf_length_lt ?_ (List.cons_ne_nil _ _)
  rw [sectionsCut_smallAndLarge]
  exact hsize.symm ▸ by decide

end Bound

end ProjectControl.Preview
