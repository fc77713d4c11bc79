import Mathlib
import ProjectControl.AuditEvents

/-! The anchors of a context fragment, merged out of four sources, and the queries that read
them. -/

set_option autoImplicit false

namespace ProjectControl.Fragments

open JsonText

section Merging

-- `loads` is `json.loads`, which has no value for a text that is no JSON
variable (loads : String → Option Json)

/-- `_object`. -/
def object : Json → Dict
  | .obj fields => fields
  | .str s => ((loads s).bind Json.fields?).getD []
  | _ => []

/-- The items of a list, and none of what is no list. -/
def items? : Json → List Json
  | .arr items => items
  | _ => []

/-- `_list`. -/
def list : Json → List Json
  | .str s => ((loads s).map items?).getD []
  | v => items? v

/-- `_first`. -/
def first (row : Dict) (names : List String) : Json :=
  ((names.map row.value).find? (fun v => !v.isNull)).getD .null

/-- `d[key] = v`. -/
def put (d : Dict) (key : String) (v : Json) : Dict :=
  if (d.get key).isSome then d.map (fun e => if e.1 = key then (key, v) else e)
  else d ++ [(key, v)]

/-- What one fragment is built from: a row of the export, the scope of its owner, and the
envelope that its content came in. -/
structure Sources where
  row : Dict
  ownerScope : Dict
  envelope : Dict

/-- The key that an anchor of the list is exposed under. -/
def keyOf (kind : String) : String :=
  if kind = "directory" ∨ kind = "file" then "path" else kind

/-- `old` with one more value: what was no list becomes the first item of one. -/
def joined (old : Option Json) (v : Json) : Json :=
  match old with
  | none => v
  | some (.arr items) => .arr (items ++ [v])
  | some old => .arr [old, v]

/-- The key and value that an item of the list is exposed with. -/
def exposed (item : Dict) : Option (String × Json) :=
  match item.get "kind" with
  | some (.str kind) => if (item.value "value").isNull then none
    else some (keyOf kind, item.value "value")
  | _ => none

def addAnchor (value item : Dict) : Dict :=
  match exposed item with
  | some (key, v) => put value key (joined (value.get key) v)
  | none => value

def scopeKeys : List String :=
  ["project", "repository", "path", "paths", "directory", "symbol", "symbols", "task_id", "run_id",
    "lane_id", "interface_id", "decision_id"]

def fillFrom (source value : Dict) (key : String) : Dict :=
  if (value.get key).isNone ∧ !(source.value key).isNull then put value key (source.value key)
  else value

/-- The anchors that the row itself carries. -/
def rowAnchors (s : Sources) : Dict :=
  object loads (first s.row ["anchors", "anchor", "anchors_json", "anchor_json"])

/-- The objects of the envelope's list, where it has one. -/
def envelopeItems (s : Sources) : Option (List Dict) :=
  match s.envelope.value "anchors" with
  | .arr entries => some (entries.filterMap Json.fields?)
  | _ => none

/-- `_anchors`. -/
def anchors (s : Sources) : Dict :=
  let value := rowAnchors loads s
  let value := match envelopeItems s with
    | some items => items.foldl addAnchor (put value "items" (.arr (items.map .obj)))
    | none => value
  scopeKeys.foldl (fun value key => fillFrom s.row (fillFrom s.ownerScope value key) key) value

/-- What the queries read of a canonical fragment. -/
structure Fragment where
  runId : Json
  laneId : Json
  taskId : Json
  anchors : Dict
  content : Json

/-- `envelope.get("content", envelope)`, where that is an object, a list or a text. -/
def contentOf (envelope : Dict) : Json :=
  match (envelope.get "content").getD (.obj envelope) with
  | .obj fields => .obj fields
  | .arr items => .arr items
  | .str s => .str s
  | _ => .obj []

def fragmentOf (s : Sources) : Fragment :=
  ⟨s.row.value "run_id", s.row.value "lane_id", s.row.value "task_id", anchors loads s,
    contentOf s.envelope⟩

def sourcesOf (row : Dict) : Sources :=
  ⟨row, object loads (first row ["owner_scope", "owner_scope_json"]),
    object loads (first row ["content", "content_json", "payload", "payload_json"])⟩

/-- The fragment that `canonical_context_fragments` builds from a row. -/
def canonicalFragment (row : Dict) : Fragment := fragmentOf loads (sourcesOf loads row)

end Merging

section Queries

variable (loads : String → Option Json) (casefold : String → String) (printable : Char → Bool)

inductive Failure where
  | attribute
  | unhashable
deriving DecidableEq

/-- `item.get("kind") in names`, of a set of names. -/
def kindIn (names : List String) : Json → Except Failure Bool
  | .obj fields => match Dict.value fields "kind" with
    | .str kind => .ok (decide (kind ∈ names))
    | .arr _ => .error .unhashable
    | .obj _ => .error .unhashable
    | _ => .ok false
  | _ => .error .attribute

/-- `item.get("kind") == name`. -/
def kindIs (name : String) : Json → Except Failure Bool
  | .obj fields => .ok (decide (Dict.value fields "kind" = .str name))
  | _ => .error .attribute

def valueOf : Json → Json
  | .obj fields => Dict.value fields "value"
  | _ => .null

/-- `[item.get("value") for item in items if test(item)]`. -/
def valuesOf (test : Json → Except Failure Bool) : List Json → Except Failure (List Json)
  | [] => .ok []
  | item :: items => do
    let taken ← test item
    let rest ← valuesOf test items
    .ok (if taken then valueOf item :: rest else rest)

def Fragment.items (f : Fragment) : List Json := items? (f.anchors.value "items")

/-- `str(value or "")`. -/
def textOr (v : Json) : String := if v.truthy then PythonText.str printable v else ""

def scopeValues (f : Fragment) (names : List String) (name : String) (own : Json) :
    Except Failure (List String) := do
  let found ← valuesOf (kindIn names) f.items
  .ok (textOr printable own :: textOr printable (f.anchors.value name) ::
    found.map (textOr printable))

/-- `wanted and wanted not in values(name)`. -/
def outside (f : Fragment) (names : List String) (name : String) (own : Json) :
    Option String → Except Failure Bool
  | none => .ok false
  | some wanted =>
    if wanted = "" then .ok false
    else do
      let found ← scopeValues printable f names name own
      .ok (decide (wanted ∉ found))

/-- `matches_scope`. -/
def matchesScope (f : Fragment) (runId laneId taskId : Option String) : Except Failure Bool := do
  if ← outside printable f ["run_id", "run"] "run_id" f.runId runId then .ok false
  else if ← outside printable f ["lane_id", "lane"] "lane_id" f.laneId laneId then .ok false
  else if ← outside printable f ["task_id", "task"] "task_id" f.taskId taskId then .ok false
  else .ok true

/-- `s.strip("/")`. -/
def stripSlash (s : String) : String :=
  String.ofList (((s.toList.dropWhile (· = '/')).reverse.dropWhile (· = '/')).reverse)

/-- One of the two is the other, or a directory above it. -/
def pathMatches (value path : String) : Bool :=
  decide (value = path) || (path.toList ++ ['/']).isPrefixOf value.toList ||
    (value.toList ++ ['/']).isPrefixOf path.toList

/-- `json.dumps({"anchors": anchors, "content": content}).casefold()`. -/
def blob (f : Fragment) : String :=
  casefold (String.ofList (render ⟨true, true⟩
    (.obj [("anchors", .obj f.anchors), ("content", f.content)])))

/-- `path_or_symbol_matches`. -/
def pathOrSymbolMatches (f : Fragment) (target kind : String) : Except Failure Bool :=
  if kind = "path" ∨ kind = "subsystem" then do
    let found ← valuesOf (kindIn ["path", "directory", "file", "subsystem"]) f.items
    let paths := f.anchors.value "path" :: f.anchors.value "directory" ::
      (list loads (f.anchors.value "paths") ++ found)
    .ok (paths.any (fun path => match path with
      | .str s => s ≠ "" && pathMatches (stripSlash target) (stripSlash s)
      | _ => false))
  else do
    let found ← valuesOf (kindIs "symbol") f.items
    let symbols := f.anchors.value "symbol" ::
      (list loads (f.anchors.value "symbols") ++ found)
    if symbols.any (fun symbol => match symbol with
      | .str s => casefold s = casefold target
      | _ => false) then .ok true
    else .ok (decide ((casefold target).toList <:+: (blob casefold f).toList))

/-- `value not in (None, "")`. -/
def named (v : Json) : Bool := !v.isNull && decide (v ≠ .str "")

/-- `repository_matches`. -/
def repositoryMatches (f : Fragment) (repository : String) : Except Failure Bool := do
  let found ← valuesOf (kindIs "repository") f.items
  let selected := ((f.anchors.value "repository" :: found).filter named).map
    (PythonText.str printable)
  .ok (decide (selected = [] ∨ repository ∈ selected))

end Queries

section Places

variable (loads : String → Option Json) (printable : Char → Bool) (s : Sources)

/-- What can be asked for; a directory is asked for as a path. -/
inductive AnchorKind where
  | run
  | lane
  | task
  | repository
  | path
  | symbol
deriving DecidableEq

/-- The kinds under which an item of a list is such an anchor. -/
def AnchorKind.names : AnchorKind → List String
  | .run => ["run_id", "run"]
  | .lane => ["lane_id", "lane"]
  | .task => ["task_id", "task"]
  | .repository => ["repository"]
  | .path => ["path", "directory", "file", "subsystem"]
  | .symbol => ["symbol"]

/-- The keys that hold one such anchor. -/
def AnchorKind.keys : AnchorKind → List String
  | .run => ["run_id"]
  | .lane => ["lane_id"]
  | .task => ["task_id"]
  | .repository => ["repository"]
  | .path => ["path", "directory"]
  | .symbol => ["symbol"]

/-- The key that holds a list of such anchors. -/
def AnchorKind.plural : AnchorKind → Option String
  | .path => some "paths"
  | .symbol => some "symbols"
  | _ => none

/-- The anchor that a value is, if it is one. -/
def AnchorKind.reads (kind : AnchorKind) (v : Json) : Option String :=
  match kind with
  | .repository => if named v then some (PythonText.str printable v) else none
  | .path | .symbol => v.text?
  | _ => if v.truthy then some (PythonText.str printable v) else none

/-- The query for an anchor. -/
def AnchorKind.query (casefold : String → String) (f : Fragment) (v : String) :
    AnchorKind → Except Failure Bool
  | .run => matchesScope printable f (some v) none none
  | .lane => matchesScope printable f none (some v) none
  | .task => matchesScope printable f none none (some v)
  | .repository => repositoryMatches printable f v
  | .path => pathOrSymbolMatches loads casefold f v "path"
  | .symbol => pathOrSymbolMatches loads casefold f v "symbol"

/-- The values of a kind under a key. -/
def AnchorKind.under (kind : AnchorKind) (key : String) (v : Json) : List Json :=
  if key ∈ kind.keys then [v] else if kind.plural = some key then list loads v else []

/-- The value of an item, if the item is of the kind. -/
def AnchorKind.valueIn (kind : AnchorKind) : Json → Option Json
  | .obj fields => match Dict.value fields "kind" with
    | .str name => if name ∈ kind.names then some (Dict.value fields "value") else none
    | _ => none
  | _ => none

/-- The values of a kind among the items of a list. -/
def AnchorKind.among (kind : AnchorKind) (items : List Json) : List Json :=
  items.filterMap kind.valueIn

/-- The places where the sources give anchors. -/
inductive Place where
  /-- A keyed field of the row's anchors. -/
  | rowAnchor (key : String)
  /-- The list of items among the row's anchors. -/
  | rowItems
  | envelopeList
  | ownerScope (key : String)
  /-- A field of the row. -/
  | rowField (key : String)

/-- The values that the envelope's list exposes under a key. -/
def listedUnder (key : String) : List Json :=
  ((envelopeItems s).getD []).filterMap (fun item =>
    (exposed item).bind (fun e => if e.1 = key then some e.2 else none))

/-- The items of the envelope's list, and those that an item of kind `items` adds. -/
def listedItems : List Json :=
  ((envelopeItems s).getD []).map .obj ++ listedUnder s "items"

/-- The values of a kind at a place. -/
def Place.values (kind : AnchorKind) : Place → List Json
  | .rowAnchor key => kind.under loads key ((rowAnchors loads s).value key)
  | .rowItems => kind.among (items? ((rowAnchors loads s).value "items"))
  | .envelopeList => kind.among (listedItems s)
  | .ownerScope key => kind.under loads key (s.ownerScope.value key)
  | .rowField key => kind.under loads key (s.row.value key)

/-- The place gives the anchor `v`. -/
def Place.Declares (place : Place) (kind : AnchorKind) (v : String) : Prop :=
  ∃ x ∈ place.values loads s kind, kind.reads printable x = some v

/-- Neither the row's anchors nor the envelope's list have the key. -/
def Vacant (key : String) : Prop :=
  (rowAnchors loads s).get key = none ∧ listedUnder s key = []

/-- The queries read the place as it is: nothing that goes before it takes its key. -/
def Place.Governs : Place → Prop
  | .rowAnchor key => listedUnder s key = [] ∨
    (key ∈ ["paths", "symbols"] ∧ ∃ items, (rowAnchors loads s).get key = some (.arr items))
  | .rowItems => envelopeItems s = none
  | .envelopeList => True
  | .ownerScope key => Vacant loads s key
  | .rowField key => key ∈ ["run_id", "lane_id", "task_id"] ∨
    (Vacant loads s key ∧ (s.ownerScope.value key).isNull = true)

/-- The items of the fragment. -/
def fragmentItems : List Json :=
  match envelopeItems s with
  | some _ => listedItems s
  | none => items? ((rowAnchors loads s).value "items")

/-- Asking an item whether it is of the kind does not raise: it is an object, and what is looked
up in a set of names can be hashed. -/
def AnchorKind.Readable (kind : AnchorKind) (item : Json) : Prop :=
  ∃ fields, item = .obj fields ∧ (kind = .repository ∨ kind = .symbol ∨
    match Dict.value fields "kind" with
    | .arr _ => False
    | .obj _ => False
    | _ => True)

/-- The list that several repositories become under one key. -/
def repositoryList : Option (List Json) :=
  match (listedUnder s "repository").foldl (fun old v => some (joined old v))
      ((rowAnchors loads s).get "repository") with
  | some (.arr items) => if listedUnder s "repository" = [] then none else some items
  | _ => none

end Places

section Merged

variable {loads : String → Option Json} {s : Sources} {d value source : Dict} {key other : String}
  {v x : Json} {kind : AnchorKind} {items : List Json}

theorem get_map_of_eq (d : Dict) : Dict.get (d.map (fun e => if e.1 = key then (key, v) else e))
    other = if other = key then (d.get key).map (fun _ => v) else d.get other := by
  induction d with
  | nil => simp [Dict.get]
  | cons e d ih =>
    obtain ⟨k, w⟩ := e
    rw [List.map_cons]
    by_cases hk : k = key
    · subst hk
      rw [if_pos rfl]
      by_cases ho : other = k
      · rw [if_pos ho, ho, Dict.get_cons_self, Dict.get_cons_self, Option.map_some]
      · rw [Dict.get_cons_of_ne _ _ ho, ih, if_neg ho, if_neg ho, Dict.get_cons_of_ne _ _ ho]
    · rw [if_neg hk, Dict.get_cons_of_ne _ _ (Ne.symm hk : key ≠ k)]
      by_cases ho : other = k
      · rw [ho, Dict.get_cons_self, if_neg hk, Dict.get_cons_self]
      · rw [Dict.get_cons_of_ne _ _ ho, ih, Dict.get_cons_of_ne _ _ ho]

theorem get_put : (put d key v).get other = if other = key then some v else d.get other := by
  rw [put]
  split
  · next hsome =>
    obtain ⟨old, hold⟩ := Option.isSome_iff_exists.mp hsome
    rw [get_map_of_eq, hold, Option.map_some]
  · next hsome =>
    have hnone : d.get key = none := Option.not_isSome_iff_eq_none.mp hsome
    rw [Audit.get_append]
    by_cases ho : other = key
    · rw [ho, hnone, if_pos rfl, Option.none_or, Dict.get_cons_self]
    · rw [if_neg ho, Dict.get_cons_of_ne _ _ ho]
      exact Option.or_none

theorem value_eq (h : d.get key = some v) : d.value key = v := by
  rw [Dict.value, h, Option.getD_some]

theorem get_of_value (h : (d.value key).isNull = false) : d.get key = some (d.value key) := by
  cases hget : d.get key with
  | none =>
    rw [Dict.value, hget, Option.getD_none] at h
    cases h
  | some v => rw [value_eq hget]

/-- What the list exposes is joined to what the key holds, item by item. -/
theorem get_foldl_addAnchor (items : List Dict) (d : Dict) (key : String) :
    (items.foldl addAnchor d).get key = (items.filterMap (fun item =>
      (exposed item).bind (fun e => if e.1 = key then some e.2 else none))).foldl
        (fun old v => some (joined old v)) (d.get key) := by
  induction items generalizing d with
  | nil => rfl
  | cons item items ih =>
    rw [List.foldl_cons, ih, List.filterMap_cons, addAnchor]
    cases hitem : exposed item with
    | none => rw [Option.bind_none]
    | some e =>
      rw [Option.bind_some]
      by_cases hkey : e.1 = key
      · rw [if_pos hkey, List.foldl_cons, get_put, if_pos hkey.symm, hkey]
      · rw [if_neg hkey, get_put, if_neg (fun h => hkey h.symm)]

/-- A key that nothing has got takes the owner's value, and else the row's. -/
def filled (s : Sources) (key : String) (old : Option Json) : Option Json :=
  if old.isSome then old
  else if (s.ownerScope.value key).isNull then
    if (s.row.value key).isNull then none else some (s.row.value key)
  else some (s.ownerScope.value key)

theorem filled_some : filled s key (some v) = some v := rfl

theorem filled_filled (old : Option Json) :
    filled s key (filled s key old) = filled s key old := by
  cases h : filled s key old with
  | some v => exact filled_some
  | none => cases old with
    | some v => cases h
    | none => exact h

theorem get_fillFrom : (fillFrom source value key).get other =
    if other = key ∧ value.get key = none ∧ (source.value key).isNull = false then
      some (source.value key) else value.get other := by
  rw [fillFrom]
  by_cases h : value.get key = none ∧ (source.value key).isNull = false
  · rw [if_pos (by simpa using h), get_put]
    simp only [h, and_true]
  · rw [if_neg (by simpa using h), if_neg (fun hand => h hand.2)]

theorem get_fillBoth : (fillFrom s.row (fillFrom s.ownerScope value key) key).get other =
    if other = key then filled s key (value.get key) else value.get other := by
  rw [get_fillFrom, get_fillFrom, get_fillFrom]
  by_cases ho : other = key
  · subst ho
    cases hv : value.get other <;> cases hown : (s.ownerScope.value other).isNull <;>
      cases hrow : (s.row.value other).isNull <;> simp [filled, hown, hrow]
  · simp [ho]

theorem get_foldl_fill (keys : List String) (value : Dict) (other : String) :
    (keys.foldl (fun value key => fillFrom s.row (fillFrom s.ownerScope value key) key) value).get
      other = if other ∈ keys then filled s other (value.get other) else value.get other := by
  induction keys generalizing value with
  | nil => rfl
  | cons key keys ih =>
    rw [List.foldl_cons, ih, get_fillBoth]
    by_cases ho : other = key
    · subst ho
      rw [if_pos rfl, if_pos List.mem_cons_self, filled_filled, ite_self]
    · rw [if_neg ho]
      simp only [List.mem_cons, ho, false_or]

/-- The row's own value and what the list exposes under the key. -/
theorem get_anchors (hkey : key ≠ "items") : (anchors loads s).get key =
    if key ∈ scopeKeys then filled s key ((listedUnder s key).foldl
      (fun old v => some (joined old v)) ((rowAnchors loads s).get key))
    else (listedUnder s key).foldl (fun old v => some (joined old v))
      ((rowAnchors loads s).get key) := by
  rw [anchors, get_foldl_fill, listedUnder]
  cases henv : envelopeItems s with
  | none => rfl
  | some items =>
    simp only [get_foldl_addAnchor, get_put, if_neg hkey, Option.getD_some]

theorem foldl_joined_list (vs items : List Json) :
    vs.foldl (fun old v => some (joined old v)) (some (.arr items)) = some (.arr (items ++ vs)) := by
  induction vs generalizing items with
  | nil => rw [List.append_nil, List.foldl_nil]
  | cons v vs ih => rw [List.foldl_cons, joined, ih, List.append_assoc, List.singleton_append]

/-- A key that the list adds to holds a list, unless it holds the only value added. -/
theorem foldl_joined_cases (vs : List Json) (old : Option Json) :
    (vs = [] ∧ vs.foldl (fun old v => some (joined old v)) old = old) ∨
      (∃ v, vs = [v] ∧ vs.foldl (fun old v => some (joined old v)) old = some v) ∨
      (vs ≠ [] ∧
        ∃ items, vs.foldl (fun old v => some (joined old v)) old = some (.arr items)) := by
  have hlist : ∀ y v, ∃ items, joined (some y) v = .arr items := by
    intro y v
    cases y <;> exact ⟨_, rfl⟩
  have hgrown : ∀ y v vs, ∃ items, (v :: vs).foldl (fun old v => some (joined old v)) (some y) =
      some (.arr items) := by
    intro y v vs
    obtain ⟨items, hitems⟩ := hlist y v
    exact ⟨items ++ vs, by rw [List.foldl_cons, hitems, foldl_joined_list]⟩
  cases vs with
  | nil => exact .inl ⟨rfl, rfl⟩
  | cons v vs =>
    right
    cases old with
    | some y => exact .inr ⟨List.cons_ne_nil v vs, hgrown y v vs⟩
    | none =>
      cases vs with
      | nil => exact .inl ⟨v, rfl, rfl⟩
      | cons v' vs => exact .inr ⟨List.cons_ne_nil v _, hgrown v v' vs⟩

theorem anchors_fragmentOf : (fragmentOf loads s).anchors = anchors loads s := by
  rw [fragmentOf]

theorem items_fragmentOf : (fragmentOf loads s).items = fragmentItems loads s := by
  have hscope : "items" ∉ scopeKeys := by decide
  rw [Fragment.items, fragmentOf, fragmentItems, Dict.value, anchors, get_foldl_fill,
    if_neg hscope]
  cases henv : envelopeItems s with
  | none => rfl
  | some items =>
    simp only [get_foldl_addAnchor, get_put, if_true, foldl_joined_list, Option.getD_some, items?]
    rw [listedItems, listedUnder, henv, Option.getD_some]

end Merged

section Reading

variable {loads : String → Option Json} {casefold : String → String} {printable : Char → Bool}
  {s : Sources} {f : Fragment} {kind : AnchorKind} {place : Place} {key v : String} {x y : Json}
  {items : List Json}

/-- The fragment's own field of a kind. -/
def AnchorKind.own (f : Fragment) : AnchorKind → List Json
  | .run => [f.runId]
  | .lane => [f.laneId]
  | .task => [f.taskId]
  | _ => []

/-- All values that a query of the kind looks at. -/
def AnchorKind.seen (loads : String → Option Json) (f : Fragment) (kind : AnchorKind) :
    List Json :=
  kind.own f ++ (kind.keys ++ kind.plural.toList).flatMap (fun key =>
    kind.under loads key (f.anchors.value key)) ++ kind.among f.items

theorem reads_isNull (h : kind.reads printable x = some v) : x.isNull = false := by
  cases x with
  | null => cases kind <;> cases h
  | _ => rfl

theorem valuesOf_eq {test : Json → Except Failure Bool} {among : Json → Option Json}
    (h : ∀ item ∈ items, ∃ taken, test item = .ok taken ∧
      among item = if taken then some (valueOf item) else none) :
    valuesOf test items = .ok (items.filterMap among) := by
  induction items with
  | nil => rfl
  | cons item items ih =>
    obtain ⟨taken, htest, hamong⟩ := h item List.mem_cons_self
    have hrest := ih fun item hitem => h item (List.mem_cons_of_mem _ hitem)
    rw [valuesOf, htest, hrest, List.filterMap_cons, hamong]
    cases taken <;> rfl

/-- Where the kinds can be hashed, the test of a set of names takes the items of the kind. -/
theorem valuesOf_kindIn (hset : kind ≠ .repository ∧ kind ≠ .symbol)
    (h : ∀ item ∈ items, kind.Readable item) :
    valuesOf (kindIn kind.names) items = .ok (kind.among items) := by
  refine valuesOf_eq fun item hitem => ?_
  obtain ⟨fields, rfl, hkind⟩ := h item hitem
  replace hkind := (hkind.resolve_left hset.1).resolve_left hset.2
  rw [kindIn, AnchorKind.valueIn]
  cases hname : Dict.value fields "kind" with
  | arr _ => rw [hname] at hkind; cases hkind
  | obj _ => rw [hname] at hkind; cases hkind
  | str name => exact ⟨decide (name ∈ kind.names), rfl, by simp [valueOf]⟩
  | _ => exact ⟨false, rfl, rfl⟩

theorem valuesOf_kindIs {name : String} (hname : kind.names = [name])
    (h : ∀ item ∈ items, kind.Readable item) :
    valuesOf (kindIs name) items = .ok (kind.among items) := by
  refine valuesOf_eq fun item hitem => ?_
  obtain ⟨fields, rfl, -⟩ := h item hitem
  refine ⟨decide (Dict.value fields "kind" = .str name), rfl, ?_⟩
  rw [AnchorKind.valueIn, hname]
  cases Dict.value fields "kind" <;> simp [valueOf]

theorem textOr_eq (h : kind.reads printable x = some v)
    (hid : kind ≠ .repository ∧ kind ≠ .path ∧ kind ≠ .symbol) : textOr printable x = v := by
  have hreads : (if x.truthy then some (PythonText.str printable x) else none) = some v := by
    cases kind with
    | repository => exact absurd rfl hid.1
    | path => exact absurd rfl hid.2.1
    | symbol => exact absurd rfl hid.2.2
    | _ => exact h
  rw [textOr]
  split at hreads
  · next htruthy => rw [if_pos htruthy, Option.some.inj hreads]
  · cases hreads

theorem outside_of_seen {name : String} {own : Json} (hset : kind ≠ .repository ∧ kind ≠ .symbol)
    (h : ∀ item ∈ f.items, kind.Readable item)
    (hseen : x = own ∨ x = f.anchors.value name ∨ x ∈ kind.among f.items)
    (hx : textOr printable x = v) :
    outside printable f kind.names name own (some v) = .ok false := by
  rw [outside]
  split
  · rfl
  · rw [scopeValues, valuesOf_kindIn hset h]
    refine congrArg Except.ok (decide_eq_false (not_not.mpr ?_))
    subst hx
    rcases hseen with rfl | rfl | hseen
    · exact List.mem_cons_self
    · exact List.mem_cons_of_mem _ List.mem_cons_self
    · exact List.mem_cons_of_mem _ (List.mem_cons_of_mem _ (List.mem_map_of_mem hseen))

theorem pathMatches_self (p : String) : pathMatches p p = true := by
  rw [pathMatches, decide_eq_true rfl, Bool.true_or, Bool.true_or]

theorem repository_list (h : AnchorKind.repository.reads printable (.arr items) = some v) :
    v = PythonText.str printable (.arr items) := by
  have hnamed : named (.arr items) = true := rfl
  rw [AnchorKind.reads, if_pos hnamed] at h
  exact (Option.some.inj h).symm

theorem reads_text (hkind : kind = .path ∨ kind = .symbol) (h : kind.reads printable x = some v) :
    x = .str v ∧ v ≠ "" := by
  have htext : x.text? = some v := by
    rcases hkind with rfl | rfl <;> exact h
  cases x with
  | str t =>
    rw [Json.text?] at htext
    split at htext
    · cases htext
    · next ht =>
      obtain rfl := Option.some.inj htext
      exact ⟨rfl, ht⟩
  | _ => cases htext

/-- A path is found by its own query, and a text that is no path takes nothing from the others. -/
theorem pathQuery_of_seen (h : ∀ item ∈ f.items, AnchorKind.path.Readable item)
    (hseen : x ∈ AnchorKind.path.seen loads f) (hx : AnchorKind.path.reads printable x = some v) :
    pathOrSymbolMatches loads casefold f v "path" = .ok true := by
  obtain ⟨rfl, hv⟩ := reads_text (.inl rfl) hx
  have hmem : Json.str v ∈ f.anchors.value "path" :: f.anchors.value "directory" ::
      (list loads (f.anchors.value "paths") ++ AnchorKind.path.among f.items) := by
    simpa [AnchorKind.seen, AnchorKind.own, AnchorKind.keys, AnchorKind.plural,
      AnchorKind.under] using hseen
  have hfound : valuesOf (kindIn ["path", "directory", "file", "subsystem"]) f.items =
      .ok (AnchorKind.path.among f.items) :=
    valuesOf_kindIn ⟨(by decide : AnchorKind.path ≠ .repository), by decide⟩ h
  rw [pathOrSymbolMatches, if_pos (.inl rfl), hfound]
  refine congrArg Except.ok (List.any_eq_true.mpr ⟨.str v, hmem, ?_⟩)
  simp only [pathMatches_self, Bool.and_true, decide_not, Bool.not_eq_true', decide_eq_false hv]

theorem symbolQuery_of_seen (h : ∀ item ∈ f.items, AnchorKind.symbol.Readable item)
    (hseen : x ∈ AnchorKind.symbol.seen loads f)
    (hx : AnchorKind.symbol.reads printable x = some v) :
    pathOrSymbolMatches loads casefold f v "symbol" = .ok true := by
  obtain ⟨rfl, -⟩ := reads_text (.inr rfl) hx
  have hmem : Json.str v ∈ f.anchors.value "symbol" ::
      (list loads (f.anchors.value "symbols") ++ AnchorKind.symbol.among f.items) := by
    simpa [AnchorKind.seen, AnchorKind.own, AnchorKind.keys, AnchorKind.plural,
      AnchorKind.under] using hseen
  have hfound : valuesOf (kindIs "symbol") f.items = .ok (AnchorKind.symbol.among f.items) :=
    valuesOf_kindIs rfl h
  rw [pathOrSymbolMatches, if_neg (by decide), hfound]
  refine if_pos ?_
  exact List.any_eq_true.mpr ⟨Json.str v, hmem, decide_eq_true rfl⟩

theorem seen_repository : AnchorKind.repository.seen loads f =
    f.anchors.value "repository" :: AnchorKind.repository.among f.items := by
  simp [AnchorKind.seen, AnchorKind.own, AnchorKind.keys, AnchorKind.plural, AnchorKind.under]

/-- What a repository query selects: the texts of all named values that it looks at. -/
theorem repositoryMatches_eq (loads : String → Option Json)
    (h : ∀ item ∈ f.items, AnchorKind.repository.Readable item)
    (w : String) : repositoryMatches printable f w = .ok (decide (
      (AnchorKind.repository.seen loads f).filterMap (AnchorKind.repository.reads printable) = [] ∨
      w ∈ (AnchorKind.repository.seen loads f).filterMap
        (AnchorKind.repository.reads printable))) := by
  have hfound : valuesOf (kindIs "repository") f.items =
      .ok (AnchorKind.repository.among f.items) := valuesOf_kindIs rfl h
  have hselected : ∀ xs : List Json, (xs.filter named).map (PythonText.str printable) =
      xs.filterMap (AnchorKind.repository.reads printable) := fun xs => by
    rw [← List.filterMap_eq_map, List.filterMap_filter]
    rfl
  rw [repositoryMatches, hfound, seen_repository, ← hselected]
  rfl

/-- A query finds every value that it looks at. -/
theorem query_of_seen (h : ∀ item ∈ f.items, kind.Readable item) (hseen : x ∈ kind.seen loads f)
    (hx : kind.reads printable x = some v) :
    kind.query loads printable casefold f v = .ok true := by
  have hids : ∀ name own, kind ≠ .repository ∧ kind ≠ .path ∧ kind ≠ .symbol →
      (x = own ∨ x = f.anchors.value name ∨ x ∈ kind.among f.items) →
      outside printable f kind.names name own (some v) = .ok false := fun name own hid hmem =>
    outside_of_seen ⟨hid.1, hid.2.2⟩ h hmem (textOr_eq hx hid)
  have hunscoped : ∀ names name own, outside printable f names name own none = .ok false :=
    fun _ _ _ => rfl
  cases kind with
  | run =>
    have hrun := hids "run_id" f.runId (by decide) (by
      simpa [AnchorKind.seen, AnchorKind.own, AnchorKind.keys, AnchorKind.plural,
        AnchorKind.under, or_assoc] using hseen)
    rw [AnchorKind.names] at hrun
    rw [AnchorKind.query, matchesScope, hrun, hunscoped, hunscoped]
    rfl
  | lane =>
    have hlane := hids "lane_id" f.laneId (by decide) (by
      simpa [AnchorKind.seen, AnchorKind.own, AnchorKind.keys, AnchorKind.plural,
        AnchorKind.under, or_assoc] using hseen)
    rw [AnchorKind.names] at hlane
    rw [AnchorKind.query, matchesScope, hlane, hunscoped, hunscoped]
    rfl
  | task =>
    have htask := hids "task_id" f.taskId (by decide) (by
      simpa [AnchorKind.seen, AnchorKind.own, AnchorKind.keys, AnchorKind.plural,
        AnchorKind.under, or_assoc] using hseen)
    rw [AnchorKind.names] at htask
    rw [AnchorKind.query, matchesScope, htask, hunscoped, hunscoped]
    rfl
  | repository =>
    rw [AnchorKind.query, repositoryMatches_eq loads h]
    exact congrArg Except.ok (decide_eq_true (.inr (List.mem_filterMap.mpr ⟨x, hseen, hx⟩)))
  | path => exact pathQuery_of_seen h hseen hx
  | symbol => exact symbolQuery_of_seen h hseen hx

end Reading

section Precedence

variable {loads : String → Option Json} {casefold : String → String} {printable : Char → Bool}
  {s : Sources} {kind : AnchorKind} {place : Place} {key v w : String} {x y : Json}

/-- Every key that holds anchors is filled from the owner's scope and from the row. -/
theorem key_of_under (h : x ∈ kind.under loads key y) : key ∈ kind.keys ++ kind.plural.toList ∧
    key ∈ scopeKeys ∧ key ≠ "items" := by
  have hkey : key ∈ kind.keys ++ kind.plural.toList := by
    rw [AnchorKind.under] at h
    split at h
    · next hkey => exact List.mem_append_left _ hkey
    · split at h
      · next hplural =>
        rw [hplural]
        exact List.mem_append_right _ (List.mem_singleton_self key)
      · cases h
  have hall : ∀ kind : AnchorKind, ∀ key ∈ kind.keys ++ kind.plural.toList,
      key ∈ scopeKeys ∧ key ≠ "items" := by
    intro kind
    cases kind <;> decide
  exact ⟨hkey, hall kind key hkey⟩

theorem isNull_of_under (h : x ∈ kind.under loads key y) (hx : x.isNull = false) :
    y.isNull = false := by
  rw [AnchorKind.under] at h
  split at h
  · rw [← List.mem_singleton.mp h]
    exact hx
  · split at h
    · cases y with
      | null => cases h
      | _ => rfl
    · cases h

theorem seen_of_under {f : Fragment} (key : String)
    (h : x ∈ kind.under loads key (f.anchors.value key)) :
    x ∈ kind.seen loads f :=
  List.mem_append_left _ (List.mem_append_right _
    (List.mem_flatMap.mpr ⟨key, (key_of_under h).1, h⟩))

/-- A vacant key holds the owner's value, and the row's where the owner has none. -/
theorem get_anchors_of_vacant (hvacant : Vacant loads s key) (hscope : key ∈ scopeKeys)
    (hitems : key ≠ "items") : (anchors loads s).get key = filled s key none := by
  rw [get_anchors hitems, if_pos hscope, hvacant.1, hvacant.2, List.foldl_nil]

/-- The fragment has the value of a place that governs. -/
theorem seen_of_governs (hgoverns : place.Governs loads s)
    (hmem : x ∈ place.values loads s kind) (hx : x.isNull = false) :
    x ∈ kind.seen loads (fragmentOf loads s) := by
  cases place with
  | rowAnchor key =>
    obtain ⟨-, hscope, hitems⟩ := key_of_under hmem
    have hget := get_of_value (isNull_of_under hmem hx)
    rcases hgoverns with hfree | ⟨hplural, items, hlist⟩
    · -- nothing of the envelope's list under the key
      have hkept : (anchors loads s).get key = some ((rowAnchors loads s).value key) := by
        rw [get_anchors hitems, if_pos hscope, hfree, List.foldl_nil, hget, filled_some]
      apply seen_of_under key
      rw [fragmentOf, value_eq hkept]
      exact hmem
    · -- a list only grows
      have hgrown : (anchors loads s).get key = some (.arr (items ++ listedUnder s key)) := by
        rw [get_anchors hitems, if_pos hscope, hlist, foldl_joined_list, filled_some]
      have hsingular : key ∉ kind.keys := by
        have hall : ∀ kind : AnchorKind, ∀ key ∈ ["paths", "symbols"], key ∉ kind.keys := by
          intro kind
          cases kind <;> decide
        exact hall kind key hplural
      apply seen_of_under key
      rw [fragmentOf, value_eq hgrown]
      rw [Place.values, value_eq hlist] at hmem
      rw [AnchorKind.under, if_neg hsingular] at hmem ⊢
      split at hmem
      · next hkind =>
        rw [if_pos hkind]
        exact List.mem_append_left _ hmem
      · cases hmem
  | rowItems =>
    apply List.mem_append_right
    rw [items_fragmentOf, fragmentItems, hgoverns]
    exact hmem
  | envelopeList =>
    apply List.mem_append_right
    rw [items_fragmentOf, fragmentItems]
    cases henv : envelopeItems s with
    | some _ => exact hmem
    | none =>
      rw [Place.values, listedItems, listedUnder, henv] at hmem
      cases hmem
  | ownerScope key =>
    obtain ⟨-, hscope, hitems⟩ := key_of_under hmem
    have hown : (s.ownerScope.value key).isNull = false := isNull_of_under hmem hx
    have hkept : (anchors loads s).get key = some (s.ownerScope.value key) := by
      rw [get_anchors_of_vacant hgoverns hscope hitems, filled, hown]
      rfl
    apply seen_of_under key
    rw [fragmentOf, value_eq hkept]
    exact hmem
  | rowField key =>
    obtain ⟨-, hscope, hitems⟩ := key_of_under hmem
    have hrow : (s.row.value key).isNull = false := isNull_of_under hmem hx
    rcases hgoverns with hid | ⟨hvacant, hown⟩
    · -- run, lane and task are fields of the fragment too
      apply List.mem_append_left
      apply List.mem_append_left
      fin_cases hid <;> cases kind <;> first | exact hmem | cases hmem
    · have hkept : (anchors loads s).get key = some (s.row.value key) := by
        rw [get_anchors_of_vacant hvacant hscope hitems, filled, hown, hrow]
        rfl
      apply seen_of_under key
      rw [fragmentOf, value_eq hkept]
      exact hmem

theorem among_of_listedUnder (h : x ∈ listedUnder s "repository") :
    x ∈ AnchorKind.repository.among (listedItems s) := by
  obtain ⟨item, hitem, hx⟩ := List.mem_filterMap.mp h
  refine List.mem_filterMap.mpr ⟨.obj item,
    List.mem_append_left _ (List.mem_map_of_mem hitem), ?_⟩
  obtain ⟨⟨other, y⟩, hexposed, hkey⟩ := Option.bind_eq_some_iff.mp hx
  rw [exposed] at hexposed
  split at hexposed
  · next name hname =>
    split at hexposed
    · cases hexposed
    · obtain ⟨rfl, rfl⟩ := Prod.mk.inj (Option.some.inj hexposed)
      dsimp only at hkey
      split at hkey
      · next hrepository =>
        -- no other kind is exposed as a repository
        have hplain : name = "repository" := by
          rw [keyOf] at hrepository
          split at hrepository
          · exact absurd hrepository (by decide)
          · exact hrepository
        rw [AnchorKind.valueIn, value_eq hname, hplain, ← Option.some.inj hkey]
        rfl
      · cases hkey
  · cases hexposed

/-- The repository of the fragment stands at a place of the sources, unless it is a list that the
envelope's list made. -/
theorem repository_source (hvalue : (anchors loads s).value "repository" = x)
    (hx : x.isNull = false) : (∃ place : Place, x ∈ place.values loads s .repository) ∨
      ∃ items, repositoryList loads s = some items ∧ x = .arr items := by
  have hget := get_of_value (hvalue ▸ hx)
  rw [hvalue, get_anchors (by decide), if_pos (by decide)] at hget
  rcases foldl_joined_cases (listedUnder s "repository") ((rowAnchors loads s).get "repository")
    with ⟨hfree, hfold⟩ | ⟨y, hone, hfold⟩ | ⟨hsome, items, hfold⟩
  · left
    rw [hfold] at hget
    cases hrow : (rowAnchors loads s).get "repository" with
    | some y =>
      rw [hrow, filled_some] at hget
      refine ⟨.rowAnchor "repository", ?_⟩
      rw [Place.values, value_eq hrow, Option.some.inj hget]
      exact List.mem_singleton_self x
    | none =>
      rw [hrow, filled] at hget
      dsimp only [Option.isSome_none] at hget
      rw [if_neg Bool.false_ne_true] at hget
      split at hget
      · split at hget
        · cases hget
        · exact ⟨.rowField "repository", List.mem_singleton.mpr (Option.some.inj hget).symm⟩
      · exact ⟨.ownerScope "repository", List.mem_singleton.mpr (Option.some.inj hget).symm⟩
  · left
    rw [hfold, filled_some] at hget
    refine ⟨.envelopeList, among_of_listedUnder ?_⟩
    rw [hone, Option.some.inj hget]
    exact List.mem_singleton_self x
  · right
    rw [hfold, filled_some] at hget
    refine ⟨items, ?_, (Option.some.inj hget).symm⟩
    rw [repositoryList, hfold]
    exact if_neg hsome

/-- The values that the sources give as repositories, from all places. -/
def repositoryValues (loads : String → Option Json) (s : Sources) : List Json :=
  ((rowAnchors loads s).value "repository") :: s.ownerScope.value "repository" ::
    s.row.value "repository" ::
      (AnchorKind.repository.among (items? ((rowAnchors loads s).value "items")) ++
        AnchorKind.repository.among (listedItems s))

theorem not_declares (h : w ∉ (repositoryValues loads s).filterMap
    (AnchorKind.repository.reads printable)) (place : Place) :
    ¬place.Declares loads printable s .repository w := by
  rintro ⟨x, hmem, hx⟩
  refine h (List.mem_filterMap.mpr ⟨x, ?_, hx⟩)
  have hunder : ∀ key y, x ∈ AnchorKind.repository.under loads key y →
      key = "repository" ∧ x = y := by
    intro key y h
    rw [AnchorKind.under] at h
    split at h
    · next hkey => exact ⟨List.mem_singleton.mp hkey, List.mem_singleton.mp h⟩
    · cases h
  cases place with
  | rowAnchor key =>
    obtain ⟨rfl, rfl⟩ := hunder _ _ hmem
    simp [repositoryValues]
  | ownerScope key =>
    obtain ⟨rfl, rfl⟩ := hunder _ _ hmem
    simp [repositoryValues]
  | rowField key =>
    obtain ⟨rfl, rfl⟩ := hunder _ _ hmem
    simp [repositoryValues]
  | rowItems =>
    rw [Place.values] at hmem
    simp [repositoryValues, hmem]
  | envelopeList =>
    rw [Place.values] at hmem
    simp [repositoryValues, hmem]

/-- Every anchor that a source declares is found, and once one names a repository, no repository
that none of them names is accepted. -/
def AnchorsKept (loads : String → Option Json) (casefold : String → String)
    (printable : Char → Bool) (s : Sources) : Prop :=
  (∀ (kind : AnchorKind) (place : Place) (v : String), place.Declares loads printable s kind v →
    kind.query loads printable casefold (fragmentOf loads s) v = .ok true) ∧
  ∀ w, (∃ (place : Place) (v : String), place.Declares loads printable s .repository v) →
    (∀ place : Place, ¬place.Declares loads printable s .repository w) →
    repositoryMatches printable (fragmentOf loads s) w = .ok false

/-- The owner's run gives way to the one among the row's anchors. -/
def movedNote : Sources :=
  sourcesOf (fun _ => none) [("owner_scope", .obj [("run_id", .str "RUN-1")]),
    ("anchors", .obj [("run_id", .str "RUN-2")])]

/-- The kind of its item is a list. -/
def oddNote : Sources :=
  sourcesOf (fun _ => none) [("run_id", .str "RUN-1"),
    ("content", .obj [("anchors", .arr [.obj [("kind", .arr []), ("value", .str "RUN-1")]])])]

/-- The owner's repository gives way to an empty one. -/
def blankNote : Sources :=
  sourcesOf (fun _ => none) [("owner_scope", .obj [("repository", .str "source")]),
    ("anchors", .obj [("repository", .str "")])]

theorem notes_lose_anchors : ¬AnchorsKept (fun _ => none) id (fun _ => true) movedNote ∧
    ¬AnchorsKept (fun _ => none) id (fun _ => true) oddNote ∧
    ¬AnchorsKept (fun _ => none) id (fun _ => true) blankNote := by
  refine ⟨fun h => ?_, fun h => ?_, fun h => ?_⟩
  · have hfound := h.1 .run (.ownerScope "run_id") "RUN-1"
      ⟨.str "RUN-1", by decide +kernel, by decide +kernel⟩
    have hquery : AnchorKind.run.query (fun _ => none) (fun _ => true) id
        (fragmentOf (fun _ => none) movedNote) "RUN-1" = .ok false := by decide +kernel
    cases hquery.symm.trans hfound
  · have hfound := h.1 .run (.rowField "run_id") "RUN-1"
      ⟨.str "RUN-1", by decide +kernel, by decide +kernel⟩
    have hquery : AnchorKind.run.query (fun _ => none) (fun _ => true) id
        (fragmentOf (fun _ => none) oddNote) "RUN-1" = .error .unhashable := by decide +kernel
    cases hquery.symm.trans hfound
  · have hrejected := h.2 "other" ⟨.ownerScope "repository", "source", .str "source",
      by decide +kernel, by decide +kernel⟩ (not_declares (by decide +kernel))
    have hquery : repositoryMatches (fun _ => true) (fragmentOf (fun _ => none) blankNote) "other" =
        .ok true := by decide +kernel
    cases hquery.symm.trans hrejected

/-- What the precedence of the sources keeps. An anchor is found at every place that governs: the
envelope's list and the row's own run, lane and task always, the row's anchors where the list does
not take their key, and the owner's scope and the other fields of the row where those before them
leave the key free. Once such a place names a repository, no repository that is nowhere named is
accepted, the text of a list that several became aside. -/
theorem governing_anchors_found (s : Sources) :
    (∀ (kind : AnchorKind) (place : Place) (v : String), place.Governs loads s →
      place.Declares loads printable s kind v →
      (∀ item ∈ fragmentItems loads s, kind.Readable item) →
      kind.query loads printable casefold (fragmentOf loads s) v = .ok true) ∧
    ∀ (place : Place) (v w : String), place.Governs loads s →
      place.Declares loads printable s .repository v →
      (∀ item ∈ fragmentItems loads s, AnchorKind.repository.Readable item) →
      (∀ other : Place, ¬other.Declares loads printable s .repository w) →
      (∀ items, repositoryList loads s = some items → w ≠ PythonText.str printable (.arr items)) →
      repositoryMatches printable (fragmentOf loads s) w = .ok false := by
  constructor
  · rintro kind place v hgoverns ⟨x, hmem, hx⟩ hitems
    have hseen := seen_of_governs hgoverns hmem (reads_isNull hx)
    rw [← items_fragmentOf] at hitems
    exact query_of_seen hitems hseen hx
  · rintro place v w hgoverns ⟨x, hmem, hx⟩ hitems hnowhere hlist
    have hseen := seen_of_governs hgoverns hmem (reads_isNull hx)
    have hread : v ∈ (AnchorKind.repository.seen loads (fragmentOf loads s)).filterMap
        (AnchorKind.repository.reads printable) := List.mem_filterMap.mpr ⟨x, hseen, hx⟩
    have houtside : w ∉ (AnchorKind.repository.seen loads (fragmentOf loads s)).filterMap
        (AnchorKind.repository.reads printable) := by
      intro hw
      obtain ⟨y, hseen, hy⟩ := List.mem_filterMap.mp hw
      have hplace : (∃ other : Place, y ∈ other.values loads s .repository) ∨
          ∃ items, repositoryList loads s = some items ∧ y = .arr items := by
        rw [seen_repository, anchors_fragmentOf] at hseen
        rcases List.mem_cons.mp hseen with hkeyed | hamong
        · exact repository_source hkeyed.symm (reads_isNull hy)
        · left
          rw [items_fragmentOf, fragmentItems] at hamong
          cases henv : envelopeItems s with
          | some _ =>
            rw [henv] at hamong
            exact ⟨.envelopeList, hamong⟩
          | none =>
            rw [henv] at hamong
            exact ⟨.rowItems, hamong⟩
      rcases hplace with ⟨other, hother⟩ | ⟨items, hitems, rfl⟩
      · exact hnowhere other ⟨y, hother, hy⟩
      · exact hlist items hitems (repository_list hy)
    rw [← items_fragmentOf] at hitems
    rw [repositoryMatches_eq loads hitems]
    refine congrArg Except.ok (decide_eq_false ?_)
    rintro (hnone | hw)
    · rw [hnone] at hread
      cases hread
    · exact houtside hw

/-- A note of an older task for a newer one, in one repository. -/
def successorNote : Sources :=
  sourcesOf (fun _ => none) [("task_id", .str "OLD-TASK"),
    ("owner_scope", .obj [("run_id", .str "RUN-1"), ("paths", .arr [.str "docs"])]),
    ("content", .obj [("anchors", .arr [.obj [("kind", .str "task"), ("value", .str "T-A")],
      .obj [("kind", .str "repository"), ("value", .str "source")]])])]

theorem successorNote_anchors_found :
    (AnchorKind.task.query (fun _ => none) (fun _ => true) id
      (fragmentOf (fun _ => none) successorNote) "T-A" = .ok true ∧
    AnchorKind.path.query (fun _ => none) (fun _ => true) id
      (fragmentOf (fun _ => none) successorNote) "docs" = .ok true) ∧
    repositoryMatches (fun _ => true) (fragmentOf (fun _ => none) successorNote) "other" =
      .ok false := by
  have hitems : ∀ kind : AnchorKind, ∀ item ∈ fragmentItems (fun _ => none) successorNote,
      kind.Readable item := by
    intro kind item hitem
    have hlist : fragmentItems (fun _ => none) successorNote =
        [.obj [("kind", .str "task"), ("value", .str "T-A")],
          .obj [("kind", .str "repository"), ("value", .str "source")]] := by decide +kernel
    rw [hlist] at hitem
    fin_cases hitem <;> exact ⟨_, rfl, .inr (.inr trivial)⟩
  have hkept := @governing_anchors_found (fun _ => none) id (fun _ => true) successorNote
  refine ⟨⟨hkept.1 .task .envelopeList "T-A" trivial ?_ (hitems _),
    hkept.1 .path (.ownerScope "paths") "docs" ?_ ?_ (hitems _)⟩,
    hkept.2 .envelopeList "source" "other" trivial ?_ (hitems _) (not_declares ?_) ?_⟩
  · exact ⟨.str "T-A", by decide +kernel, by decide +kernel⟩
  · exact ⟨by decide +kernel, by decide +kernel⟩
  · exact ⟨.str "docs", by decide +kernel, by decide +kernel⟩
  · exact ⟨.str "source", by decide +kernel, by decide +kernel⟩
  · decide +kernel
  · intro items hlist
    have hone : repositoryList (fun _ => none) successorNote = none := by decide +kernel
    cases hone.symm.trans hlist

end Precedence

end ProjectControl.Fragments
