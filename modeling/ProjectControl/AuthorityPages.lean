import Mathlib
import ProjectControl.ChildOperations
import ProjectControl.Cursors
import ProjectControl.Keyed
import ProjectControl.SectionPages
import ProjectControl.SortedKeys
import ProjectControl.Transaction
import ProjectControl.WireSize

/-! The pages in which the native front door hands out the read model of an authority: rows of
named sections, so many at a time and so many bytes at a time, and the token of the next page. -/

set_option autoImplicit false

namespace ProjectControl.AuthorityPages

open ChildOperations (Error requiredText)
open Cursors (Platform decoded encodeDocument)
open JsonText (sortKeys wireSize)
open Paging (Position)
open Values (Value Fields)

section Tokens

def authorityPageBytes : ℕ := 160 * 1024

structure Selector where
  taskId : Option String
  runId : Option String
  deriving DecidableEq

def Selector.toJson (s : Selector) : Json :=
  .obj [("run_id", Json.ofText? s.runId), ("task_id", Json.ofText? s.taskId)]

/-- A decoded page token. -/
structure Cursor where
  projectId : Value
  authorityId : Value
  semanticRevision : Value
  position : Position
  reviewSelector : Value

/-- `set(fields) == set(names)`. -/
def keysAre (names : List String) (fields : Fields) : Bool :=
  names.all (fields.map Prod.fst).contains && (fields.map Prod.fst).all names.contains

def cursorKeys : List String :=
  ["project_id", "authority_id", "semantic_revision", "section_index", "row_offset"]

def isInt : Value → Bool
  | .int _ => true
  | _ => false

def natural? : Value → Option ℕ
  | .int n => if n < 0 then none else some n.toNat
  | _ => none

def isSelector : Value → Bool
  | .null => true
  | .obj fields => keysAre ["task_id", "run_id"] fields &&
      fields.all (fun e => match e.2 with
        | .null => true
        | .str _ => true
        | _ => false)
  | _ => false

def cursorOf : Value → Option Cursor
  | .obj fields =>
    let projectId := Fields.get fields "project_id"
    let authorityId := Fields.get fields "authority_id"
    let revision := Fields.get fields "semantic_revision"
    let selector := Fields.get fields "review_selector"
    if (keysAre cursorKeys fields || keysAre (cursorKeys ++ ["review_selector"]) fields) &&
        isInt revision && isSelector selector then do
      let sectionIndex ← natural? (Fields.get fields "section_index")
      let rowOffset ← natural? (Fields.get fields "row_offset")
      pure ⟨projectId, authorityId, revision, ⟨sectionIndex, rowOffset⟩, selector⟩
    else none
  | _ => none

variable (p : Platform)

/-- `_authority_cursor`. -/
def authorityCursor (value : Json) : Except Error (Option Cursor) :=
  if value.isNull then pure none
  else do
    let token ← requiredText value "page_token" 2048
    match decoded p token with
    | .ok v =>
      match cursorOf v with
      | some cursor => pure (some cursor)
      | none => throw (.value "page_token_invalid")
    | .error .value => throw (.value "page_token_invalid")
    | .error .recursion => throw (.other none false)

def selectorField : Option Selector → List (String × Json)
  | none => []
  | some selector => [("review_selector", selector.toJson)]

/-- The document of a page token, with its keys sorted. -/
def tokenPayload (projectId authorityId revision : Json) (selector : Option Selector)
    (next : Position) : Json :=
  .obj ([("authority_id", sortKeys authorityId), ("project_id", sortKeys projectId)] ++
    selectorField selector ++
    [("row_offset", .num next.rowOffset), ("section_index", .num next.sectionIndex),
      ("semantic_revision", sortKeys revision)])

end Tokens

section Pages

/-- What a page holds while it is filled: the bytes that are counted, and the rows. -/
structure Filling where
  encodedSize : ℕ
  taken : ℕ

/-- The loop over the rows of one section, from the row at an index on. `following` is the next
section that has rows. -/
def takeRows (limit sectionI : ℕ) (following : Option ℕ) :
    ℕ → List Json → Filling → Except Error (List Json × Filling × Option Position)
  | _, [], f => pure ([], f, none)
  | rowI, row :: rows, f =>
    if authorityPageBytes < wireSize row then throw (.native "todo_authority_row_too_large")
    else if 0 < f.taken ∧ (limit ≤ f.taken ∨ authorityPageBytes < f.encodedSize + wireSize row) then
      pure ([], f, some ⟨sectionI, rowI⟩)
    else if f.taken = 0 ∧ authorityPageBytes < f.encodedSize + wireSize row then
      throw (.native "todo_authority_row_too_large")
    else
      let f' : Filling := ⟨f.encodedSize + wireSize row, f.taken + 1⟩
      if limit ≤ f'.taken then
        pure ([row], f', if rows.isEmpty then following.map (⟨·, 0⟩) else some ⟨sectionI, rowI + 1⟩)
      else do
        let (more, f'', next) ← takeRows limit sectionI following (rowI + 1) rows f'
        pure (row :: more, f'', next)

/-- The loop over the sections; those that it does not reach stay without rows. -/
def takeSections (limit : ℕ) :
    ℕ → ℕ → List Json → Filling → Except Error (List (List Json) × Filling × Option Position)
  | _, _, [], f => pure ([], f, none)
  | sectionI, offset, .arr rows :: rest, f =>
    if rows.length < offset then throw (.value "page_token_invalid")
    else do
      let following := (rest.findIdx? Json.truthy).map (sectionI + 1 + ·)
      let (taken, f', next) ← takeRows limit sectionI following offset (rows.drop offset) f
      match next with
      | some position => pure (taken :: rest.map (fun _ => []), f', some position)
      | none => do
        let (more, f'', next) ← takeSections limit (sectionI + 1) 0 rest f'
        pure (taken :: more, f'', next)
  | _, _, _ :: _, _ => throw (.native "native_authority_sections_invalid")

/-- `len` of a section; other values than containers have none. -/
def lengthOf : Json → Except Error ℕ
  | .arr rows => pure rows.length
  | .obj fields => pure fields.length
  | .str s => pure s.length
  | _ => throw (.other none false)

/-- What a review selector asks of a row: nothing, or a text in one of its fields. -/
def asked (wanted : Option String) (field : String) (row : Dict) : Bool :=
  match wanted with
  | none => true
  | some text => Dict.value row field = .str text

/-- `review_selector` as it is given: both keys, and texts that are short and not blank. -/
def selectorOf : Json → Except Error (Option Selector)
  | .null => pure none
  | .obj fields =>
    let text? (v : Json) : Option (Option String) := match v with
      | .null => some none
      | .str s => if s.toList.all Processes.isSpace || 128 < s.utf8ByteSize then none else some (some s)
      | _ => none
    match text? (Dict.value fields "task_id"), text? (Dict.value fields "run_id") with
    | some taskId, some runId =>
      if ["task_id", "run_id"].all (fields.map Prod.fst).contains &&
          (fields.map Prod.fst).all ["task_id", "run_id"].contains then pure (some ⟨taskId, runId⟩)
      else throw (.value "review_selector_invalid")
    | _, _ => throw (.value "review_selector_invalid")
  | _ => throw (.value "review_selector_invalid")

/-- `attempts_by_id`, the attempts of the run. -/
def attemptsById (s : Selector) (attempts : List Json) : List (String × Json) :=
  attempts.foldl (fun byId row =>
    match row with
    | .obj fields =>
      match Dict.value fields "attempt_id" with
      | .str attemptId => if asked s.runId "run_id" fields then Keyed.assign byId attemptId row else byId
      | _ => byId
    | _ => byId) []

/-- Whether a candidate is pending, of the task and of one of the attempts; an identifier that no
dictionary can look up raises. -/
def candidateSelected (s : Selector) (byId : List (String × Json)) : Json → Except Error Bool
  | .obj fields =>
    if Dict.value fields "state" = .str "pending" && asked s.taskId "work_item_id" fields then
      match Dict.value fields "attempt_id" with
      | .str attemptId => pure ((byId.map Prod.fst).contains attemptId)
      | .arr _ => throw (.other none false)
      | .obj _ => throw (.other none false)
      | _ => pure false
    else pure false
  | _ => pure false

def attemptIdOf : Json → Json
  | .obj fields => Dict.value fields "attempt_id"
  | _ => .null

/-- The sections that a review selector leaves: pending candidates, and their attempts. -/
def selectSections (s : Selector) (sections : Dict) : Except Error Dict :=
  match (Dict.get sections "attempts").getD (.arr []),
      (Dict.get sections "outcome_candidates").getD (.arr []) with
  | .arr attempts, .arr candidates => do
    let byId := attemptsById s attempts
    let selected ← candidates.filterM (candidateSelected s byId)
    let kept := byId.filter (fun e => (selected.map attemptIdOf).contains (.str e.1))
    pure [("attempts", .arr (kept.map Prod.snd)), ("outcome_candidates", .arr selected)]
  | _, _ => throw (.native "native_authority_sections_invalid")

/-- `{**d, **e}`. -/
def override (d e : Dict) : Dict := e ++ d.filter (fun field => !(e.map Prod.fst).contains field.1)

/-- The answer of a page, and what it is made of. -/
structure Page where
  value : Dict
  names : List String
  sections : List (List Json)
  counts : List ℕ
  limit : ℕ
  taken : ℕ
  nextPageToken : Option String
  reviewSelector : Option Selector

def natJson (n : ℕ) : Json := .num n

def Page.omissions (page : Page) : List Json :=
  ((page.names.zip (page.counts.zip page.sections)).filter (fun e => e.2.2.length < e.2.1)).map
    (fun e => .obj [("section", .str e.1), ("omitted_count", natJson (e.2.1 - e.2.2.length))])

def Page.toDict (page : Page) : Dict :=
  override page.value ([("sections", .obj (page.names.zip (page.sections.map .arr))),
    ("section_counts", .obj (page.names.zip (page.counts.map natJson))),
    ("page", .obj [("limit", natJson page.limit), ("included_rows", natJson page.taken),
      ("complete", .bool page.nextPageToken.isNone),
      ("next_page_token", Json.ofText? page.nextPageToken),
      ("omissions", .arr page.omissions)])] ++ selectorField page.reviewSelector)

variable (p : Platform)

/-- Whether a cursor is for the authority and its revision. -/
def Cursor.names (c : Cursor) (value : Dict) : Bool :=
  Value.same c.projectId (Values.ofJson (Dict.value value "project_id")) &&
    Value.same c.authorityId (Values.ofJson (Dict.value value "authority_id")) &&
    Value.same c.semanticRevision (Values.ofJson (Dict.value value "semantic_revision"))

/-- Where a page begins. -/
def startOf (cursor : Option Cursor) (value : Dict) (selector : Option Selector) :
    Except Error Position :=
  match cursor with
  | none => pure ⟨0, 0⟩
  | some c =>
    if !c.names value then throw (.native "todo_read_cursor_stale")
    else if !Value.same c.reviewSelector
        (Values.ofJson ((selector.map Selector.toJson).getD .null)) then
      throw (.value "page_token_scope_mismatch")
    else pure c.position

/-- `value.pop("sections", {})` of a read model. -/
def sectionsOf (model : Dict) : Except Error Dict :=
  match (Dict.get model "sections").getD (.obj []) with
  | .obj sections => pure sections
  | _ => throw (.native "native_authority_sections_invalid")

/-- The sections as a selector leaves them, under sorted names. -/
def chosenSections (sections : Dict) (selector : Option Selector) : Except Error Dict := do
  let chosen ← match selector with
    | none => pure sections
    | some s => selectSections s sections
  pure (chosen.insertionSort (fun a b => a.1 ≤ b.1))

def metadataOf (model : Dict) : Dict := model.filter (fun field => field.1 ≠ "sections")

/-- The token of the page after, where there is one. -/
def tokenOf (value : Dict) (selector : Option Selector) (next : Position) : String :=
  encodeDocument (tokenPayload (Dict.value value "project_id") (Dict.value value "authority_id")
    (Dict.value value "semantic_revision") selector next)

/-- `_authority_page`; `model` is what `session.read_model` gives or raises. -/
def authorityPage (model : Except Error Dict) (limit : ℤ) (pageToken reviewSelector : Json) :
    Except Error Page :=
  if limit < 1 ∨ 200 < limit then throw (.value "limit_invalid")
  else do
    let cursor ← authorityCursor p pageToken
    let model ← model
    let value := metadataOf model
    let sections ← sectionsOf model
    let selector ← selectorOf reviewSelector
    let chosen ← chosenSections sections selector
    let start ← startOf cursor value selector
    if chosen.length < start.sectionIndex then throw (.value "page_token_invalid")
    else do
      let (more, f, next) ← takeSections limit.toNat start.sectionIndex start.rowOffset
        ((chosen.map Prod.snd).drop start.sectionIndex) ⟨wireSize (.obj value), 0⟩
      let counts ← (chosen.map Prod.snd).mapM lengthOf
      pure {
        value
        names := chosen.map Prod.fst
        sections := List.replicate start.sectionIndex [] ++ more
        counts
        limit := limit.toNat
        taken := f.taken
        nextPageToken := next.map (tokenOf value selector)
        reviewSelector := selector }

end Pages

section Results

variable {ε α β : Type}

theorem pure_eq_ok {a b : α} : (pure a : Except ε α) = .ok b ↔ a = b := by
  rw [show (pure a : Except ε α) = .ok a from rfl, Except.ok.injEq]

end Results

section Rows

def rowsOf : Json → List Json
  | .arr rows => rows
  | _ => []

theorem rowsOf_of_falsy (v : Json) (h : v.truthy = false) : rowsOf v = [] := by
  cases v with
  | arr rows =>
    rw [Json.truthy, Bool.not_eq_false'] at h
    rw [rowsOf, List.isEmpty_iff.mp h]
  | _ => rfl

/-- The rows are no more than the limit, and they are within the bytes of a page. -/
def Filling.Within (limit : ℕ) (f : Filling) : Prop :=
  f.taken ≤ limit ∧ (0 < f.taken → f.encodedSize ≤ authorityPageBytes)

variable {limit i j : ℕ} {following : Option ℕ} {rows taken : List Json} {f f' : Filling}
  {next : Option Position}

/-- Where the loop over the rows of a section leaves a reading that goes on. -/
def GoesOn (i j : ℕ) (following : Option ℕ) (rows taken : List Json) (p : Position) : Prop :=
  (∃ rest, rows = taken ++ rest ∧ p = ⟨i, j + taken.length⟩) ∨
    (taken = rows ∧ ∃ s, following = some s ∧ p = ⟨s, 0⟩)

/-- What the loop over the rows of a section does. -/
structure RowsTaken (limit i j : ℕ) (following : Option ℕ) (rows : List Json) (f : Filling)
    (taken : List Json) (f' : Filling) (next : Option Position) : Prop where
  taken_eq : f'.taken = f.taken + taken.length
  size_eq : f'.encodedSize = f.encodedSize + (taken.map wireSize).sum
  within : f.Within limit → f'.Within limit
  all : next = none → taken = rows
  goesOn : ∀ p, next = some p → 0 < f'.taken ∧ GoesOn i j following rows taken p

theorem takeRows_spec (hlimit : 0 < limit)
    (h : takeRows limit i following j rows f = .ok (taken, f', next)) :
    RowsTaken limit i j following rows f taken f' next := by
  induction rows generalizing j f taken f' next with
  | nil =>
    rw [takeRows] at h
    cases h
    exact ⟨rfl, rfl, id, fun _ => rfl, fun p hp => absurd hp (by simp)⟩
  | cons row rows ih =>
    rw [takeRows] at h
    by_cases hlarge : authorityPageBytes < wireSize row
    · rw [if_pos hlarge] at h
      cases h
    · rw [if_neg hlarge] at h
      by_cases hfull : 0 < f.taken ∧ (limit ≤ f.taken ∨ authorityPageBytes < f.encodedSize + wireSize row)
      · rw [if_pos hfull] at h
        cases h
        refine ⟨rfl, rfl, id, fun hnext => absurd hnext (by simp), ?_⟩
        intro p hp
        rw [Option.some_inj] at hp
        exact ⟨hfull.1, Or.inl ⟨row :: rows, rfl, hp.symm⟩⟩
      · rw [if_neg hfull] at h
        by_cases hfirst : f.taken = 0 ∧ authorityPageBytes < f.encodedSize + wireSize row
        · rw [if_pos hfirst] at h
          cases h
        · rw [if_neg hfirst] at h
          -- the row is taken: it is the first, or there is room left and bytes for it
          have hroom : f.encodedSize + wireSize row ≤ authorityPageBytes := by
            by_contra hover
            rcases Nat.eq_zero_or_pos f.taken with hzero | hpos
            · exact hfirst ⟨hzero, by omega⟩
            · exact hfull ⟨hpos, Or.inr (by omega)⟩
          have hwithin (hf : f.Within limit) :
              Filling.Within limit ⟨f.encodedSize + wireSize row, f.taken + 1⟩ := by
            refine ⟨?_, fun _ => hroom⟩
            have hless : f.taken < limit := by
              rcases Nat.eq_zero_or_pos f.taken with hzero | hpos
              · omega
              · by_contra hreached
                exact hfull ⟨hpos, Or.inl (by omega)⟩
            exact hless
          by_cases hlast : limit ≤ f.taken + 1
          · rw [if_pos hlast] at h
            cases h
            refine ⟨rfl, by simp, hwithin, ?_, ?_⟩
            · intro hnext
              cases rows with
              | nil => rfl
              | cons next rows => simp at hnext
            · intro p hp
              refine ⟨Nat.succ_pos _, ?_⟩
              cases rows with
              | nil =>
                rw [List.isEmpty_nil, if_pos rfl] at hp
                obtain ⟨s, hs, rfl⟩ := Option.map_eq_some_iff.mp hp
                exact Or.inr ⟨rfl, s, hs, rfl⟩
              | cons next rows =>
                rw [List.isEmpty_cons, if_neg Bool.false_ne_true, Option.some_inj] at hp
                exact Or.inl ⟨next :: rows, rfl, hp.symm⟩
          · rw [if_neg hlast] at h
            obtain ⟨⟨more, _, _⟩, hmore, h⟩ := Ensures.bind_eq_ok.mp h
            cases h
            have hrest := ih hmore
            refine ⟨?_, ?_, fun hf => hrest.within (hwithin hf), ?_, ?_⟩
            · have htaken : f'.taken = f.taken + 1 + more.length := hrest.taken_eq
              rw [List.length_cons]
              omega
            · have hbytes : f'.encodedSize =
                  f.encodedSize + wireSize row + (more.map wireSize).sum := hrest.size_eq
              rw [List.map_cons, List.sum_cons]
              omega
            · intro hnext
              rw [hrest.all hnext]
            · intro p hp
              obtain ⟨hpos, hgoes⟩ := hrest.goesOn p hp
              refine ⟨hpos, ?_⟩
              rcases hgoes with ⟨rest, hrows, hp⟩ | ⟨hrows, hs⟩
              · refine Or.inl ⟨rest, by rw [hrows, List.cons_append], ?_⟩
                rw [hp, List.length_cons]
                congr 1
                omega
              · exact Or.inr ⟨by rw [hrows], hs⟩

/-- Rows that are small enough for a page of their own are all taken, on this page or later. -/
theorem takeRows_succeeds {size : ℕ} (hsize : f.taken = 0 → f.encodedSize = size)
    (hrows : ∀ row ∈ rows, size + wireSize row ≤ authorityPageBytes) :
    ∃ result, takeRows limit i following j rows f = .ok result := by
  induction rows generalizing j f with
  | nil => exact ⟨_, rfl⟩
  | cons row rows ih =>
    have hrow := hrows row List.mem_cons_self
    rw [takeRows, if_neg (by omega : ¬ authorityPageBytes < wireSize row)]
    by_cases hfull : 0 < f.taken ∧ (limit ≤ f.taken ∨ authorityPageBytes < f.encodedSize + wireSize row)
    · rw [if_pos hfull]
      exact ⟨_, rfl⟩
    · have hfirst : ¬ (f.taken = 0 ∧ authorityPageBytes < f.encodedSize + wireSize row) := by
        rintro ⟨hzero, hover⟩
        have := hsize hzero
        omega
      rw [if_neg hfull, if_neg hfirst]
      by_cases hlast : limit ≤ f.taken + 1
      · rw [if_pos hlast]
        exact ⟨_, rfl⟩
      · rw [if_neg hlast]
        have hrest (row') (hmem : row' ∈ rows) := hrows row' (List.mem_cons_of_mem row hmem)
        obtain ⟨⟨more, f'', next⟩, hmore⟩ := ih (j := j + 1)
          (f := ⟨f.encodedSize + wireSize row, f.taken + 1⟩) (fun hzero => absurd hzero (by simp)) hrest
        rw [hmore]
        exact ⟨_, rfl⟩

end Rows

section Sections

open Paging (leftAt join count)

variable {limit i offset : ℕ} {sections : List Json} {pages : List (List Json)} {f f' : Filling}
  {next : Option Position}

/-- What the loop over the sections does: the rows that it takes and those that are left where it
goes on are the rows from where it began. -/
structure SectionsTaken (limit i offset : ℕ) (sections : List Json) (f : Filling)
    (pages : List (List Json)) (f' : Filling) (next : Option Position) : Prop where
  length_eq : pages.length = sections.length
  taken_eq : f'.taken = f.taken + count pages
  size_eq : f'.encodedSize = f.encodedSize + (pages.flatten.map wireSize).sum
  within : f.Within limit → f'.Within limit
  all : next = none → pages = leftAt 0 offset (sections.map rowsOf)
  goesOn : ∀ p, next = some p → 0 < f'.taken ∧ ∃ d, p.sectionIndex = i + d ∧
    (∃ v, sections[d]? = some v ∧ p.rowOffset ≤ (rowsOf v).length) ∧
    join pages (leftAt d p.rowOffset (sections.map rowsOf)) = leftAt 0 offset (sections.map rowsOf)

theorem takeSections_spec (hlimit : 0 < limit)
    (h : takeSections limit i offset sections f = .ok (pages, f', next)) :
    SectionsTaken limit i offset sections f pages f' next := by
  induction sections generalizing i offset f pages f' next with
  | nil =>
    rw [takeSections] at h
    cases h
    exact ⟨rfl, rfl, rfl, id, fun _ => rfl, fun p hp => absurd hp (by simp)⟩
  | cons v rest ih =>
    cases v with
    | arr rows =>
      rw [takeSections] at h
      by_cases hoffset : rows.length < offset
      · rw [if_pos hoffset] at h
        cases h
      · rw [if_neg hoffset] at h
        obtain ⟨⟨taken, g, position⟩, hrows, h⟩ := Ensures.bind_eq_ok.mp h
        have hspec := takeRows_spec hlimit hrows
        have hleft : leftAt 0 offset ((Json.arr rows :: rest).map rowsOf) =
            rows.drop offset :: rest.map rowsOf := rfl
        cases position with
        | some position =>
          simp only at h
          cases h
          have hcount : count (taken :: rest.map fun _ => []) = taken.length := by
            simp [count]
          have hempty : join (rest.map fun _ => ([] : List Json)) (rest.map rowsOf) =
              rest.map rowsOf := by
            have hjoin := Paging.join_empty (rest.map rowsOf)
            rwa [List.map_map] at hjoin
          have hflatten : (taken :: rest.map fun _ => ([] : List Json)).flatten = taken := by
            simp
          refine ⟨by simp, by rw [hcount, hspec.taken_eq], by rw [hflatten, hspec.size_eq],
            hspec.within,
            fun hnext => absurd hnext (by simp), ?_⟩
          intro p hp
          rw [Option.some_inj] at hp
          obtain ⟨hpos, hgoes⟩ := hspec.goesOn position rfl
          refine ⟨hpos, ?_⟩
          rw [← hp, hleft]
          rcases hgoes with ⟨more, hmore, hposition⟩ | ⟨htaken, s, hs, hposition⟩
          · -- the section is not done: the rows from there on follow those that are taken
            have hlength := congrArg List.length hmore
            rw [List.length_drop, List.length_append] at hlength
            have hdrop : rows.drop (offset + taken.length) = more := by
              rw [← List.drop_drop, hmore, List.drop_left]
            refine ⟨0, by rw [hposition]; rfl, ⟨.arr rows, rfl, ?_⟩, ?_⟩
            · rw [hposition]
              show offset + taken.length ≤ rows.length
              omega
            · rw [hposition, List.map_cons, rowsOf, Paging.leftAt_here, Paging.join_cons, hempty,
                hdrop, hmore]
          · -- the section is done: those up to the next one with rows have none
            obtain ⟨k, hk, rfl⟩ := Option.map_eq_some_iff.mp hs
            have hskip := Paging.leftAt_skip rowsOf_of_falsy hk
            obtain ⟨hless, _⟩ := List.findIdx?_eq_some_iff_getElem.mp hk
            have hindex : i + 1 + k = i + (k + 1) := by omega
            refine ⟨k + 1, by rw [hposition]; exact hindex, ⟨rest[k], ?_, ?_⟩, ?_⟩
            · rw [List.getElem?_cons_succ, List.getElem?_eq_getElem hless]
            · rw [hposition]
              exact Nat.zero_le _
            · rw [hposition, List.map_cons, Paging.leftAt_later, hskip, Paging.join_cons, hempty,
                htaken, List.append_nil]
        | none =>
          simp only at h
          obtain ⟨⟨more, g', position⟩, hmore, h⟩ := Ensures.bind_eq_ok.mp h
          cases h
          have hrest := ih hmore
          have htaken := hspec.all rfl
          have hcount : count (taken :: more) = taken.length + count more := by
            simp [count]
          refine ⟨by rw [List.length_cons, List.length_cons, hrest.length_eq], ?_, ?_,
            fun hf => hrest.within (hspec.within hf), ?_, ?_⟩
          · rw [hcount, hrest.taken_eq, hspec.taken_eq, Nat.add_assoc]
          · rw [List.flatten_cons, List.map_append, List.sum_append, hrest.size_eq, hspec.size_eq,
              Nat.add_assoc]
          · intro hnext
            rw [hleft, htaken, hrest.all hnext, Paging.leftAt_start]
          · intro p hp
            obtain ⟨hpos, d, hd, ⟨v, hv, hrow⟩, hjoin⟩ := hrest.goesOn p hp
            refine ⟨hpos, d + 1, by omega, ⟨v, ?_, hrow⟩, ?_⟩
            · rw [List.getElem?_cons_succ, hv]
            · rw [hleft, List.map_cons, Paging.leftAt_later, Paging.join_cons, hjoin, htaken,
                List.append_nil, Paging.leftAt_start]
    | null | bool | num | str | obj => rw [takeSections] at h; cases h; simp

/-- Sections of small enough rows make a page, wherever it begins in them. -/
theorem takeSections_succeeds {size : ℕ} (hlimit : 0 < limit)
    (hsize : f.taken = 0 → f.encodedSize = size)
    (hoffset : ∀ v ∈ sections.head?, offset ≤ (rowsOf v).length)
    (hsections : ∀ v ∈ sections, ∃ rows, v = .arr rows ∧
      ∀ row ∈ rows, size + wireSize row ≤ authorityPageBytes) :
    ∃ result, takeSections limit i offset sections f = .ok result := by
  induction sections generalizing i offset f with
  | nil => exact ⟨_, rfl⟩
  | cons v rest ih =>
    obtain ⟨rows, rfl, hrows⟩ := hsections v List.mem_cons_self
    have hhead : offset ≤ rows.length := hoffset (.arr rows) rfl
    have hdropped (row) (hmem : row ∈ rows.drop offset) := hrows row (List.mem_of_mem_drop hmem)
    obtain ⟨⟨taken, g, position⟩, htake⟩ : ∃ result, takeRows limit i
        ((rest.findIdx? Json.truthy).map (i + 1 + ·)) offset (rows.drop offset) f = .ok result :=
      takeRows_succeeds hsize hdropped
    rw [takeSections, if_neg (by omega)]
    simp only [htake, bind, Except.bind]
    cases position with
    | some position => exact ⟨_, rfl⟩
    | none =>
      have hspec := takeRows_spec hlimit htake
      have hsize' : g.taken = 0 → g.encodedSize = size := by
        intro hzero
        have htaken := hspec.taken_eq
        have hnil : taken = [] := List.length_eq_zero_iff.mp (by omega)
        rw [hspec.size_eq, hnil]
        exact hsize (by omega)
      have hrest (v) (hmem : v ∈ rest) := hsections v (List.mem_cons_of_mem _ hmem)
      obtain ⟨⟨more, g', position⟩, hmore⟩ : ∃ result,
          takeSections limit (i + 1) 0 rest g = .ok result :=
        ih hsize' (fun _ _ => Nat.zero_le _) hrest
      simp only [hmore]
      exact ⟨_, rfl⟩

end Sections

section TokenRoundTrip

open JsonText (Canonical CanonicalFields render_ascii canonical_sortKeys)

variable (p : Platform) {value : Dict} {selector : Option Selector} {next : Position}

/-- What a token of a page decodes to. -/
def cursorAt (value : Dict) (selector : Option Selector) (next : Position) : Cursor where
  projectId := Values.ofJson (sortKeys (Dict.value value "project_id"))
  authorityId := Values.ofJson (sortKeys (Dict.value value "authority_id"))
  semanticRevision := Values.ofJson (sortKeys (Dict.value value "semantic_revision"))
  position := next
  reviewSelector := Values.ofJson ((selector.map Selector.toJson).getD .null)

theorem tokenPayload_canonical (projectId authorityId revision : Json) :
    Canonical (tokenPayload projectId authorityId revision selector next) := by
  have hproject := canonical_sortKeys projectId
  have hauthority := canonical_sortKeys authorityId
  have hrevision := canonical_sortKeys revision
  cases selector with
  | none =>
    have hkeys : ["authority_id", "project_id", "row_offset", "section_index",
        "semantic_revision"].Pairwise (· < ·) := by decide +kernel
    exact ⟨List.pairwise_map.mp hkeys, hauthority, hproject, trivial, trivial, hrevision, trivial⟩
  | some selector =>
    have hkeys : ["authority_id", "project_id", "review_selector", "row_offset", "section_index",
        "semantic_revision"].Pairwise (· < ·) := by decide +kernel
    have hnames : ["run_id", "task_id"].Pairwise (· < ·) := by decide +kernel
    have htext (t : Option String) : Canonical (Json.ofText? t) := by
      cases t <;> trivial
    exact ⟨List.pairwise_map.mp hkeys, hauthority, hproject,
      ⟨List.pairwise_map.mp hnames, htext _, htext _, trivial⟩, trivial, trivial, hrevision, trivial⟩

theorem tokenPayload_small {project authority : String} {revision : ℤ}
    (hrevision : Values.Short revision) (hindex : Values.Short next.sectionIndex)
    (hrow : Values.Short next.rowOffset) : Values.Small 8
      (tokenPayload (.str project) (.str authority) (.num revision) selector next) := by
  have htext (t : Option String) : Values.Small 6 (Json.ofText? t) := by
    cases t with
    | none => exact .null
    | some s => exact .str s
  cases selector with
  | none =>
    refine .obj fun e he => ?_
    simp only [selectorField, List.append_nil, List.cons_append, List.nil_append, List.mem_cons,
      List.not_mem_nil, or_false] at he
    rcases he with rfl | rfl | rfl | rfl | rfl
    exacts [.str _, .str _, .num hrow, .num hindex, .num hrevision]
  | some selector =>
    refine .obj fun e he => ?_
    simp only [selectorField, List.cons_append, List.nil_append, List.mem_cons, List.not_mem_nil,
      or_false] at he
    rcases he with rfl | rfl | rfl | rfl | rfl | rfl
    · exact .str _
    · exact .str _
    · refine .obj fun e he => ?_
      simp only [List.mem_cons, List.not_mem_nil, or_false] at he
      rcases he with rfl | rfl
      exacts [htext _, htext _]
    exacts [.num hrow, .num hindex, .num hrevision]

theorem natural?_int (n : ℕ) : natural? (.int n) = some n := by
  rw [natural?, if_neg (by omega), Int.toNat_natCast]

theorem isSelector_toJson (selector : Selector) :
    isSelector (Values.ofJson selector.toJson) = true := by
  obtain ⟨taskId, runId⟩ := selector
  cases taskId <;> cases runId <;>
    simp [Selector.toJson, Values.ofJson, Values.ofFields, Json.ofText?, isSelector, keysAre]

theorem cursorOf_payload : cursorOf (Values.ofJson (tokenPayload (Dict.value value "project_id")
      (Dict.value value "authority_id") (Dict.value value "semantic_revision") selector next)) =
    if isInt (cursorAt value selector next).semanticRevision then some (cursorAt value selector next)
    else none := by
  obtain ⟨sectionIndex, rowOffset⟩ := next
  cases selector with
  | none =>
    simp [cursorOf, tokenPayload, selectorField, Values.ofJson, Values.ofFields, keysAre, cursorKeys,
      Fields.get, cursorAt, natural?_int, isSelector, List.lookup]
  | some selector =>
    simp [cursorOf, tokenPayload, selectorField, Values.ofJson, Values.ofFields, keysAre, cursorKeys,
      Fields.get, cursorAt, natural?_int, isSelector_toJson, List.lookup]
    rfl

theorem digit_not_space : ∀ n < 64, Processes.isSpace (Base64.digit n) = false := by decide

theorem requiredText_token (h : (tokenOf value selector next).utf8ByteSize ≤ 2048) :
    requiredText (.str (tokenOf value selector next)) "page_token" 2048 =
      .ok (tokenOf value selector next) := by
  have hspace : (tokenOf value selector next).toList.all Processes.isSpace = false := by
    set payload := tokenPayload (Dict.value value "project_id") (Dict.value value "authority_id")
      (Dict.value value "semantic_revision") selector next
    have hbytes : ∀ b ∈ (JsonText.render Cursors.compact payload).map Char.toNat, b < 256 := by
      intro b hb
      obtain ⟨c, hc, rfl⟩ := List.mem_map.mp hb
      have hascii := render_ascii false payload c hc
      omega
    have htoken : (tokenOf value selector next).toList =
        Base64.encode ((JsonText.render Cursors.compact payload).map Char.toNat) :=
      String.toList_ofList
    cases hchars : (tokenOf value selector next).toList with
    | nil => exact absurd (String.toList_inj.mp hchars) (Cursors.encodeDocument_ne_empty payload)
    | cons c rest =>
      have hmem : c ∈ Base64.encode ((JsonText.render Cursors.compact payload).map Char.toNat) := by
        rw [← htoken, hchars]
        exact List.mem_cons_self
      obtain ⟨n, hn, hc⟩ := Base64.encode_digits _ hbytes c hmem
      rw [List.all_cons, hc, digit_not_space n hn, Bool.false_and]
  rw [requiredText, hspace, Bool.false_or, if_neg (by simpa using h)]
  rfl

theorem authorityCursor_str (token : String) : authorityCursor p (.str token) =
    requiredText (.str token) "page_token" 2048 >>= fun token =>
      match decoded p token with
      | .ok v =>
        match cursorOf v with
        | some cursor => pure (some cursor)
        | none => throw (.value "page_token_invalid")
      | .error .value => throw (.value "page_token_invalid")
      | .error .recursion => throw (.other none false) := rfl

/-- A token that is short enough and can be read is accepted, and leads to where it was made for. -/
theorem authorityCursor_token (hshort : (tokenOf value selector next).utf8ByteSize ≤ 2048)
    (hsmall : Values.Small 8 (tokenPayload (Dict.value value "project_id")
      (Dict.value value "authority_id") (Dict.value value "semantic_revision") selector next))
    (hint : isInt (cursorAt value selector next).semanticRevision = true) :
    authorityCursor p (.str (tokenOf value selector next)) =
      .ok (some (cursorAt value selector next)) := by
  have hdecoded := Cursors.decoded_encodeDocument (p := p)
    (tokenPayload_canonical (Dict.value value "project_id") (Dict.value value "authority_id")
      (Dict.value value "semantic_revision")) hsmall
  rw [authorityCursor_str, requiredText_token hshort]
  dsimp only [bind, Except.bind]
  rw [tokenOf, hdecoded]
  dsimp only
  rw [cursorOf_payload, if_pos hint]
  rfl

/-- A token is accepted for nothing else. -/
theorem cursor_of_token {cursor : Option Cursor}
    (h : authorityCursor p (.str (tokenOf value selector next)) = .ok cursor) :
    cursor = some (cursorAt value selector next) := by
  rw [authorityCursor_str] at h
  obtain ⟨token, htoken, h⟩ := Ensures.bind_eq_ok.mp h
  rw [requiredText] at htoken
  split_ifs at htoken
  cases htoken
  cases hdecoded : decoded p (tokenOf value selector next) with
  | error fault =>
    rw [hdecoded] at h
    cases fault <;> cases h
  | ok v =>
    rw [hdecoded] at h
    dsimp only at h
    rw [tokenOf, Cursors.decoded_document] at hdecoded
    obtain rfl := p.loads_canonical _ v (tokenPayload_canonical _ _ _) hdecoded
    rw [cursorOf_payload] at h
    split_ifs at h
    exact (Except.ok.inj h).symm

end TokenRoundTrip

section Specification

open Paging (left leftAt join count)

def listsOf (chosen : Dict) : List (List Json) := chosen.map (fun e => rowsOf e.2)

variable (p : Platform) (model : Dict) (limit : ℤ) (pageToken : Json) (page : Page)

/-- A page of the sections that are chosen: where it begins, and where the next one does. The rows
of the page and those left for the next ones are the rows from where it begins. -/
structure PageOf (chosen : Dict) (selector : Option Selector) (start : Position)
    (next : Option Position) : Prop where
  cursor : ∃ cursor, authorityCursor p pageToken = .ok cursor ∧
    startOf cursor (metadataOf model) selector = .ok start
  value_eq : page.value = metadataOf model
  names_eq : page.names = chosen.map Prod.fst
  counts_eq : (chosen.map Prod.snd).mapM lengthOf = .ok page.counts
  selector_eq : page.reviewSelector = selector
  limit_eq : (page.limit : ℤ) = limit
  token_eq : page.nextPageToken = next.map (tokenOf (metadataOf model) selector)
  length_eq : page.sections.length = chosen.length
  taken_eq : page.taken = count page.sections
  taken_le : page.taken ≤ page.limit
  bytes_le : 0 < page.taken → wireSize (.obj page.value) +
    (page.sections.flatten.map wireSize).sum ≤ authorityPageBytes
  all : next = none → page.sections = left (listsOf chosen) start
  goesOn : ∀ q, next = some q → 0 < page.taken ∧
    (∃ e, chosen[q.sectionIndex]? = some e ∧ q.rowOffset ≤ (rowsOf e.2).length) ∧
    join page.sections (left (listsOf chosen) q) = left (listsOf chosen) start

variable {p model limit pageToken page} {reviewSelector : Json}

theorem authorityPage_ok
    (h : authorityPage p (.ok model) limit pageToken reviewSelector = .ok page) :
    ∃ sections selector chosen start next, sectionsOf model = .ok sections ∧
      selectorOf reviewSelector = .ok selector ∧ chosenSections sections selector = .ok chosen ∧
      PageOf p model limit pageToken page chosen selector start next := by
  rw [authorityPage] at h
  by_cases hlimit : limit < 1 ∨ 200 < limit
  · rw [if_pos hlimit] at h
    cases h
  · rw [if_neg hlimit] at h
    obtain ⟨cursor, hcursor, h⟩ := Ensures.bind_eq_ok.mp h
    obtain ⟨model', hmodel, h⟩ := Ensures.bind_eq_ok.mp h
    rw [Except.ok.injEq] at hmodel
    subst hmodel
    obtain ⟨sections, hsections, h⟩ := Ensures.bind_eq_ok.mp h
    obtain ⟨selector, hselector, h⟩ := Ensures.bind_eq_ok.mp h
    obtain ⟨chosen, hchosen, h⟩ := Ensures.bind_eq_ok.mp h
    obtain ⟨start, hstart, h⟩ := Ensures.bind_eq_ok.mp h
    by_cases hindex : chosen.length < start.sectionIndex
    · rw [if_pos hindex] at h
      cases h
    · rw [if_neg hindex] at h
      obtain ⟨⟨more, f, next⟩, htake, h⟩ := Ensures.bind_eq_ok.mp h
      obtain ⟨counts, hcounts, h⟩ := Ensures.bind_eq_ok.mp h
      rw [pure_eq_ok] at h
      have hnat : 0 < limit.toNat := by omega
      have hspec := takeSections_spec hnat htake
      have hwithin := hspec.within ⟨Nat.zero_le _, fun hpos => absurd hpos (by simp)⟩
      have hlists : ((chosen.map Prod.snd).drop start.sectionIndex).map rowsOf =
          (listsOf chosen).drop start.sectionIndex := by
        rw [List.map_drop, List.map_map]
        rfl
      have hlength : start.sectionIndex ≤ (listsOf chosen).length := by
        rw [listsOf, List.length_map]
        omega
      have hadd (d row : ℕ) : leftAt (start.sectionIndex + d) row (listsOf chosen) =
          List.replicate start.sectionIndex [] ++
            leftAt d row ((listsOf chosen).drop start.sectionIndex) := Paging.leftAt_add hlength
      refine ⟨sections, selector, chosen, start, next, hsections, hselector, hchosen, ?_⟩
      rw [← h]
      refine ⟨⟨cursor, hcursor, hstart⟩, rfl, rfl, hcounts, rfl, by simp; omega, rfl, ?_, ?_,
        hwithin.1, ?_, ?_, ?_⟩
      · rw [List.length_append, List.length_replicate, hspec.length_eq, List.length_drop,
          List.length_map]
        omega
      · rw [Paging.count_replicate, hspec.taken_eq, Nat.zero_add]
      · intro hpos
        have hbytes := hwithin.2 hpos
        rw [hspec.size_eq] at hbytes
        simpa using hbytes
      · intro hnext
        rw [hspec.all hnext, hlists, left, ← Nat.add_zero start.sectionIndex, hadd]
        rfl
      · intro q hq
        obtain ⟨hpos, d, hd, ⟨v, hv, hrow⟩, hjoin⟩ := hspec.goesOn q hq
        rw [hlists] at hjoin
        refine ⟨hpos, ?_, ?_⟩
        · rw [List.getElem?_drop, List.getElem?_map] at hv
          obtain ⟨e, he, rfl⟩ := Option.map_eq_some_iff.mp hv
          exact ⟨e, by rw [hd, he], hrow⟩
        · have hstart := hadd 0 start.rowOffset
          rw [Nat.add_zero] at hstart
          rw [left, left, hd, hadd, Paging.join_replicate, hjoin, hstart]

/-- Where the page of a token begins. -/
def standing (p : Platform) (pageToken : Json) : Position :=
  match authorityCursor p pageToken with
  | .ok (some cursor) => cursor.position
  | _ => ⟨0, 0⟩

theorem PageOf.start_eq {chosen : Dict} {selector : Option Selector} {start : Position}
    {next : Option Position} (h : PageOf p model limit pageToken page chosen selector start next) :
    start = standing p pageToken := by
  obtain ⟨cursor, hcursor, hstart⟩ := h.cursor
  rw [standing, hcursor]
  cases cursor with
  | none =>
    rw [startOf, pure_eq_ok] at hstart
    exact hstart.symm
  | some c =>
    rw [startOf] at hstart
    split_ifs at hstart
    exact (pure_eq_ok.mp hstart).symm

theorem standing_null : standing p .null = ⟨0, 0⟩ := rfl

theorem standing_token {value : Dict} {selector : Option Selector} {q : Position}
    {cursor : Option Cursor}
    (h : authorityCursor p (.str (tokenOf value selector q)) = .ok cursor) :
    cursor = some (cursorAt value selector q) ∧ standing p (.str (tokenOf value selector q)) = q := by
  obtain rfl := cursor_of_token p h
  rw [standing, h]
  exact ⟨rfl, rfl⟩

end Specification

section Lossless

open Paging (left count under Follows)

variable {p : Platform} {model : Dict} {limit : ℤ} {reviewSelector : Json}
  {sections chosen : Dict} {selector : Option Selector}

/-- What a reading of all pages needs: an authority that is named by texts and has a number for its
revision, rows that fit on a page, and tokens that are no longer than those that are accepted, of
numbers that can be read. -/
structure Readable (model chosen : Dict) (selector : Option Selector) : Prop where
  project : ∃ s, Dict.value (metadataOf model) "project_id" = .str s
  authority : ∃ s, Dict.value (metadataOf model) "authority_id" = .str s
  revision : ∃ n, Dict.value (metadataOf model) "semantic_revision" = .num n ∧ Values.Short n
  rows : ∀ e ∈ chosen, ∃ rows, e.2 = .arr rows ∧
    ∀ row ∈ rows, wireSize (.obj (metadataOf model)) + wireSize row ≤ authorityPageBytes
  tokens : ∀ q e, chosen[q.sectionIndex]? = some e → q.rowOffset ≤ (rowsOf e.2).length →
    (tokenOf (metadataOf model) selector q).utf8ByteSize ≤ 2048
  numbers : ∀ (q : Position) e, chosen[q.sectionIndex]? = some e →
    q.rowOffset ≤ (rowsOf e.2).length → Values.Short q.sectionIndex ∧ Values.Short q.rowOffset

def Page.rows (name : String) (page : Page) : List Json := under page.names page.sections name

def nextToken (page : Page) : Option Json := page.nextPageToken.map .str

/-- The tokens that a reading meets: none at first, and then those of places in the sections. -/
def Met (model chosen : Dict) (selector : Option Selector) (pageToken : Json) : Prop :=
  pageToken = .null ∨ ∃ q e, pageToken = .str (tokenOf (metadataOf model) selector q) ∧
    chosen[q.sectionIndex]? = some e ∧ q.rowOffset ≤ (rowsOf e.2).length

theorem same_selector (selector : Option Selector) :
    Value.same (Values.ofJson ((selector.map Selector.toJson).getD .null))
      (Values.ofJson ((selector.map Selector.toJson).getD .null)) = true := by
  cases selector with
  | none => rfl
  | some s =>
    obtain ⟨taskId, runId⟩ := s
    cases taskId <;> cases runId <;>
      simp [Selector.toJson, Json.ofText?, Values.ofJson, Values.ofFields, Value.same,
        Value.sameFields, List.lookup]

theorem Readable.standing (h : Readable model chosen selector) {pageToken : Json}
    (hmet : Met model chosen selector pageToken) : ∃ cursor,
      authorityCursor p pageToken = .ok cursor ∧
      startOf cursor (metadataOf model) selector = .ok (standing p pageToken) ∧
      ((standing p pageToken).sectionIndex = 0 ∧ (standing p pageToken).rowOffset = 0 ∨
        ∃ e, chosen[(standing p pageToken).sectionIndex]? = some e ∧
          (standing p pageToken).rowOffset ≤ (rowsOf e.2).length) := by
  rcases hmet with rfl | ⟨q, e, rfl, he, hrow⟩
  · exact ⟨none, rfl, rfl, Or.inl ⟨rfl, rfl⟩⟩
  · obtain ⟨project, hproject⟩ := h.project
    obtain ⟨authority, hauthority⟩ := h.authority
    obtain ⟨revision, hrevision, hshort⟩ := h.revision
    obtain ⟨hindex, hoffset⟩ := h.numbers q e he hrow
    have hint : isInt (cursorAt (metadataOf model) selector q).semanticRevision = true := by
      rw [cursorAt, hrevision]
      rfl
    have hcursor : authorityCursor p (.str (tokenOf (metadataOf model) selector q)) =
        .ok (some (cursorAt (metadataOf model) selector q)) := by
      refine authorityCursor_token p (h.tokens q e he hrow) ?_ hint
      rw [hproject, hauthority, hrevision]
      exact tokenPayload_small hshort hindex hoffset
    obtain ⟨_, hstanding⟩ := standing_token hcursor
    have hnames : (cursorAt (metadataOf model) selector q).names (metadataOf model) = true := by
      rw [Cursor.names, cursorAt, hproject, hauthority, hrevision]
      simp [sortKeys, Values.ofJson, Value.same, Value.number?]
    refine ⟨_, hcursor, ?_, Or.inr ⟨e, by rw [hstanding, he], by rw [hstanding]; exact hrow⟩⟩
    rw [startOf, hnames, hstanding]
    have hselector := same_selector selector
    simp only [cursorAt, hselector]
    rfl

theorem mapM_lengthOf {vs : List Json} (h : ∀ v ∈ vs, ∃ rows, v = .arr rows) :
    ∃ counts, vs.mapM lengthOf = .ok counts := by
  induction vs with
  | nil => exact ⟨[], rfl⟩
  | cons v vs ih =>
    obtain ⟨rows, rfl⟩ := h v List.mem_cons_self
    obtain ⟨counts, hcounts⟩ := ih fun w hw => h w (List.mem_cons_of_mem _ hw)
    exact ⟨rows.length :: counts, by rw [List.mapM_cons, hcounts]; rfl⟩

/-- Every token that a reading meets is answered with a page. -/
theorem Readable.page (h : Readable model chosen selector) (hlimit : 1 ≤ limit ∧ limit ≤ 200)
    (hsections : sectionsOf model = .ok sections)
    (hselector : selectorOf reviewSelector = .ok selector)
    (hchosen : chosenSections sections selector = .ok chosen) {pageToken : Json}
    (hmet : Met model chosen selector pageToken) :
    ∃ page, authorityPage p (.ok model) limit pageToken reviewSelector = .ok page := by
  obtain ⟨cursor, hcursor, hstart, hplace⟩ := h.standing (p := p) hmet
  have hindex : ¬ chosen.length < (AuthorityPages.standing p pageToken).sectionIndex := by
    rcases hplace with ⟨hzero, _⟩ | ⟨e, he, _⟩
    · omega
    · have hless := (List.getElem?_eq_some_iff.mp he).1
      omega
  have hvalues (v) (hv : v ∈ chosen.map Prod.snd) : ∃ rows, v = .arr rows ∧
      ∀ row ∈ rows, wireSize (.obj (metadataOf model)) + wireSize row ≤ authorityPageBytes := by
    obtain ⟨e, he, rfl⟩ := List.mem_map.mp hv
    exact h.rows e he
  have hhead : ∀ v ∈ ((chosen.map Prod.snd).drop
      (AuthorityPages.standing p pageToken).sectionIndex).head?,
      (AuthorityPages.standing p pageToken).rowOffset ≤ (rowsOf v).length := by
    intro v hv
    rcases hplace with ⟨_, hzero⟩ | ⟨e, he, hrow⟩
    · rw [hzero]
      exact Nat.zero_le _
    · rw [List.head?_drop, List.getElem?_map, he] at hv
      rw [← Option.mem_some_iff.mp hv]
      exact hrow
  obtain ⟨⟨more, f, next⟩, htake⟩ : ∃ result, takeSections limit.toNat
      (AuthorityPages.standing p pageToken).sectionIndex
      (AuthorityPages.standing p pageToken).rowOffset
      ((chosen.map Prod.snd).drop (AuthorityPages.standing p pageToken).sectionIndex)
      ⟨wireSize (.obj (metadataOf model)), 0⟩ = .ok result :=
    takeSections_succeeds (by omega) (fun _ => rfl) hhead
      (fun v hv => hvalues v (List.mem_of_mem_drop hv))
  obtain ⟨counts, hcounts⟩ := mapM_lengthOf fun v hv => (hvalues v hv).imp fun _ h => h.1
  rw [authorityPage, if_neg (by omega), hcursor]
  simp only [bind, Except.bind, hsections, hselector, hchosen, hstart, if_neg hindex, htake, hcounts]
  exact ⟨_, rfl⟩

/-- The reading of all pages ends, and gives the rows of every section, each once and in their
order; no page has more rows than the limit, nor more bytes than a page may have. -/
theorem authority_pages_lossless (hlimit : 1 ≤ limit ∧ limit ≤ 200)
    (hsections : sectionsOf model = .ok sections)
    (hselector : selectorOf reviewSelector = .ok selector)
    (hchosen : chosenSections sections selector = .ok chosen)
    (h : Readable model chosen selector) : ∃ pages,
      Follows (fun pageToken => authorityPage p (.ok model) limit pageToken reviewSelector)
        nextToken .null pages ∧
      (∀ name, pages.flatMap (Page.rows name) = under (chosen.map Prod.fst) (listsOf chosen) name) ∧
      (∀ page ∈ pages, (page.taken : ℤ) ≤ limit ∧ page.taken = count page.sections ∧
        (0 < page.taken → wireSize (.obj page.value) +
          (page.sections.flatten.map wireSize).sum ≤ authorityPageBytes)) ∧
      pages.length ≤ count (listsOf chosen) + 1 := by
  have hpage {pageToken : Json} {page : Page}
      (hread : authorityPage p (.ok model) limit pageToken reviewSelector = .ok page) :
      ∃ next, PageOf p model limit pageToken page chosen selector (standing p pageToken) next := by
    obtain ⟨sections', selector', chosen', start, next, hsections', hselector', hchosen', hof⟩ :=
      authorityPage_ok hread
    rw [hsections, Except.ok.injEq] at hsections'
    rw [hselector, Except.ok.injEq] at hselector'
    subst hsections' hselector'
    rw [hchosen, Except.ok.injEq] at hchosen'
    subst hchosen'
    rw [hof.start_eq] at hof
    exact ⟨next, hof⟩
  have hnext {pageToken token' : Json} {page : Page}
      (hread : authorityPage p (.ok model) limit pageToken reviewSelector = .ok page)
      (htoken : nextToken page = some token') :
      Met model chosen selector token' ∧ 0 < page.taken ∧
        Paging.join page.sections (left (listsOf chosen) (standing p token')) =
          left (listsOf chosen) (standing p pageToken) := by
    obtain ⟨next, hof⟩ := hpage hread
    rw [nextToken, hof.token_eq, Option.map_map] at htoken
    obtain ⟨q, hq, rfl⟩ := Option.map_eq_some_iff.mp htoken
    obtain ⟨hpos, ⟨e, he, hrow⟩, hjoin⟩ := hof.goesOn q hq
    have hmet : Met model chosen selector (.str (tokenOf (metadataOf model) selector q)) :=
      Or.inr ⟨q, e, rfl, he, hrow⟩
    obtain ⟨cursor, hcursor, _⟩ := h.standing (p := p) hmet
    obtain ⟨_, hstanding⟩ := standing_token hcursor
    refine ⟨hmet, hpos, ?_⟩
    rw [Function.comp_apply, hstanding]
    exact hjoin
  have hlength (page : Page) (q : Position) (hpages : page.sections.length = chosen.length) :
      page.sections.length = (left (listsOf chosen) q).length := by
    rw [hpages, left, Paging.length_leftAt, listsOf, List.length_map]
  obtain ⟨pages, hfollows, hmany⟩ := Paging.exists_follows
    (fun pageToken => authorityPage p (.ok model) limit pageToken reviewSelector) nextToken
    (Met model chosen selector)
    (fun pageToken => count (left (listsOf chosen) (standing p pageToken)))
    (fun pageToken hmet => h.page hlimit hsections hselector hchosen hmet)
    (fun {_ token' page} _ hread htoken => by
      obtain ⟨hmet, hpos, hjoin⟩ := hnext hread htoken
      obtain ⟨next, hof⟩ := hpage hread
      refine ⟨hmet, ?_⟩
      have hcount := Paging.count_join (hlength page (standing p token') hof.length_eq)
      rw [hjoin] at hcount
      have htaken := hof.taken_eq
      omega) (Or.inl rfl)
  refine ⟨pages, hfollows, ?_, ?_, ?_⟩
  · intro name
    have hjoined := hfollows.joined (Page.rows name)
      (fun pageToken => under (chosen.map Prod.fst)
        (left (listsOf chosen) (standing p pageToken)) name)
      (fun hread htoken => by
        obtain ⟨next, hof⟩ := hpage hread
        rw [nextToken, hof.token_eq, Option.map_map, Option.map_eq_none_iff] at htoken
        rw [Page.rows, hof.names_eq, hof.all htoken])
      (fun hread htoken => by
        obtain ⟨_, _, hjoin⟩ := hnext hread htoken
        obtain ⟨next, hof⟩ := hpage hread
        rw [Page.rows, hof.names_eq, ← Paging.under_join _ (hlength _ _ hof.length_eq), hjoin])
    rw [hjoined, standing_null, left, Paging.leftAt_start]
  · apply hfollows.pages (Q := fun page => (page.taken : ℤ) ≤ limit ∧
      page.taken = count page.sections ∧ (0 < page.taken → wireSize (.obj page.value) +
        (page.sections.flatten.map wireSize).sum ≤ authorityPageBytes))
    intro pageToken page hread
    obtain ⟨next, hof⟩ := hpage hread
    refine ⟨?_, hof.taken_eq, hof.bytes_le⟩
    rw [← hof.limit_eq]
    exact_mod_cast hof.taken_le
  · rw [standing_null, left, Paging.leftAt_start] at hmany
    exact hmany

def twoRuns : Dict :=
  [("authority_id", .str "a"), ("project_id", .str "p"), ("sections", .obj [
      ("runs", .arr [.obj [("run_id", .str "one")], .obj [("run_id", .str "two")]]),
      ("tasks", .arr [])]),
    ("semantic_revision", .num 1)]

def twoRunsSections : Dict :=
  [("runs", .arr [.obj [("run_id", .str "one")], .obj [("run_id", .str "two")]]),
    ("tasks", .arr [])]

theorem chosen_twoRuns : chosenSections twoRunsSections none = .ok twoRunsSections := by
  decide

theorem twoRuns_place {i j : ℕ} {e : String × Json} (he : twoRunsSections[i]? = some e)
    (hrow : j ≤ (rowsOf e.2).length) : i < 2 ∧ j < 3 := by
  refine ⟨(List.getElem?_eq_some_iff.mp he).1, ?_⟩
  rcases List.mem_cons.mp (List.mem_of_getElem? he) with rfl | hmem
  · exact Nat.lt_succ_of_le hrow
  · rw [List.mem_singleton.mp hmem] at hrow
    exact Nat.lt_of_le_of_lt hrow (by decide)

theorem twoRuns_readable : Readable twoRuns twoRunsSections none where
  project := ⟨"p", rfl⟩
  authority := ⟨"a", rfl⟩
  revision := ⟨1, rfl, Values.short_of_lt (n := 1) (by decide)⟩
  rows := by
    intro e he
    rcases List.mem_cons.mp he with rfl | he
    · refine ⟨_, rfl, ?_⟩
      decide +kernel
    · rw [List.mem_singleton.mp he]
      exact ⟨[], rfl, fun row hrow => absurd hrow (by simp)⟩
  tokens := by
    rintro ⟨i, j⟩ e he hrow
    obtain ⟨hi, hj⟩ := twoRuns_place he hrow
    have hall : ∀ i < 2, ∀ j < 3, JsonText.bytes (Base64.encode ((JsonText.render Cursors.compact
        (tokenPayload (.str "p") (.str "a") (.num 1) none ⟨i, j⟩)).map Char.toNat)) ≤ 2048 := by
      decide +kernel
    have hproject : Dict.value (metadataOf twoRuns) "project_id" = .str "p" := rfl
    have hauthority : Dict.value (metadataOf twoRuns) "authority_id" = .str "a" := rfl
    have hrevision : Dict.value (metadataOf twoRuns) "semantic_revision" = .num 1 := rfl
    rw [JsonText.utf8ByteSize_eq, tokenOf, hproject, hauthority, hrevision, encodeDocument,
      String.toList_ofList]
    exact hall i hi j hj
  numbers := by
    rintro ⟨i, j⟩ e he hrow
    obtain ⟨hi, hj⟩ := twoRuns_place he hrow
    exact ⟨Values.short_of_lt (by omega), Values.short_of_lt (by omega)⟩

theorem twoRuns_lossless : ∃ pages,
    Follows (fun pageToken => authorityPage Cursors.plainPlatform (.ok twoRuns) 1 pageToken .null)
      nextToken .null pages ∧
    (∀ name, pages.flatMap (Page.rows name) =
      under (twoRunsSections.map Prod.fst) (listsOf twoRunsSections) name) ∧
    (∀ page ∈ pages, (page.taken : ℤ) ≤ 1 ∧ page.taken = count page.sections ∧
      (0 < page.taken → wireSize (.obj page.value) +
        (page.sections.flatten.map wireSize).sum ≤ authorityPageBytes)) ∧
    pages.length ≤ count (listsOf twoRunsSections) + 1 :=
  authority_pages_lossless (by decide) rfl rfl chosen_twoRuns twoRuns_readable

end Lossless

end ProjectControl.AuthorityPages
