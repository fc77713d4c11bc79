import Mathlib
import ProjectControl.JsonIndent
import ProjectControl.RoutingSection
import ProjectControl.SortedKeys
import ProjectControl.Transaction
import ProjectControl.Values
import ProjectControl.Words

/-! The migration of a repository to the workflow front door: the three files that it changes, how
the changes are taken back when one of them fails, and what is left when the process dies between
them. -/

set_option autoImplicit false

namespace ProjectControl.FrontDoor

open Migration (updatedAgents MigrationError Change current legacy)
open Words (newlines newlines_plain)
open JsonText (insertField indented Canonical CanonicalFields)

section Files

inductive Place where
  | agents
  | project
  | record
  deriving DecidableEq

def Place.path : Place → String
  | .agents => "AGENTS.md"
  | .project => ".todo-orchestrator/project.json"
  | .record => ".project-control/pcu-v1-migration.json"

/-- The texts of the files that are there. -/
abbrev Files := Place → Option (List Char)

abbrev Changes := List (Place × Option (List Char))

/-- `Path.read_text`, which opens a file with universal newlines. -/
def Files.read (files : Files) (place : Place) : Option (List Char) :=
  (files place).map (newlines '\r' '\n')

/-- What becomes of a write or a removal. A write replaces the file as a whole or not at all. -/
inductive Outcome where
  | done
  | fails
  | dies
  deriving DecidableEq

inductive Ended where
  | applied
  | raised
  | died
  deriving DecidableEq

variable (outcomes : ℕ → Outcome)

/-- The changes one after the other, the `n`th of all next. -/
def putAll (n : ℕ) : Changes → Files → Ended × ℕ × Files
  | [], files => (.applied, n, files)
  | (place, content) :: rest, files =>
    if content.isNone ∧ (files place).isNone then putAll n rest files
    else match outcomes n with
      | .done => putAll (n + 1) rest (Function.update files place content)
      | .fails => (.raised, n + 1, files)
      | .dies => (.died, n + 1, files)

/-- `_apply_all`. -/
def applyAll (changes : Changes) (files : Files) : Ended × Files :=
  let originals := changes.map fun change => (change.1, files.read change.1)
  match putAll outcomes 0 changes files with
  | (.applied, _, files) => (.applied, files)
  | (.died, _, files) => (.died, files)
  | (.raised, n, files) =>
    match putAll outcomes n originals files with
    | (.died, _, files) => (.died, files)
    | (_, _, files) => (.raised, files)

end Files

section Migrate

inductive Raised where
  | agents (e : MigrationError)
  /-- a `MigrationError` of its own -/
  | migration (message : String)
  | attribute
  /-- what a write or a removal raised -/
  | file

def doorKey : String := "workflow_front_door"

def installedDoor : Json := .str "project-control"

/-- `json.dumps` with `indent=2` and `sort_keys=True`, and a newline. -/
def dumps (v : Json) : List Char := indented 0 (JsonText.sortKeys v) ++ ['\n']

/-- A project identity and its `configuration`. -/
structure Project where
  fields : Dict
  configuration : Dict

def Project.door (p : Project) : Json := Dict.value p.configuration doorKey

/-- The project with another front door, or with none. -/
def Project.withDoor (p : Project) (door : Option Json) : Project :=
  let configuration := match door with
    | some v => insertField doorKey v p.configuration
    | none => p.configuration.filter (fun e => e.1 ≠ doorKey)
  ⟨insertField "configuration" (.obj configuration) p.fields, configuration⟩

/-- `_load_project`, of the text of a file that exists. -/
def loadProject (text : List Char) : Except Raised Project :=
  match JsonText.read text with
  | none => .error (.migration "project identity is not valid JSON")
  | some (.obj fields) =>
    match Dict.value fields "configuration" with
    | .obj configuration => .ok ⟨fields, configuration⟩
    | _ => .error (.migration "project identity has no configuration object")
  | some _ => .error (.migration "project identity has no configuration object")

/-- The migration record; one that Python takes for false is as good as none. -/
def loadRecord : Option (List Char) → Except Raised Dict
  | none => .ok []
  | some text =>
    match JsonText.read text with
    | none => .error (.migration "migration record is not valid JSON")
    | some (.obj fields) => .ok fields
    | some v => if v.truthy then .error .attribute else .ok []

def recordJson (previous : Json) (legacyMarker : Bool) : Json :=
  .obj [("installed_front_door", installedDoor), ("previous_front_door", previous),
    ("recognized_legacy_marker", .bool legacyMarker), ("schema_version", .num 1)]

/-- What the files shall be. -/
structure Plan where
  agents : List Char
  project : Option (List Char)
  record : Option (List Char)
  operation : Change
  door : Json
  markers : List String

/-- The front door of a project after the migration, and the project. -/
def migrated (remove : Bool) (existing : Dict) (p : Project) : Project :=
  if remove then
    if existing ≠ [] ∧
        Values.Value.same (Values.ofJson p.door)
          (Values.ofJson (Dict.value existing "installed_front_door")) then
      let previous := Dict.value existing "previous_front_door"
      p.withDoor (if previous.isNull then none else some previous)
    else p
  else p.withDoor (some installedDoor)

def markerNames (agents : List Char) : List String :=
  (if (Markers.find current.start agents).isEmpty then [] else ["project-control"]) ++
    (if (Markers.find legacy.start agents).isEmpty then [] else ["coding-workflow"])

def planFor (remove : Bool) (files : Files) : Except Raised Plan := do
  let agents := (files.read .agents).getD []
  let project ← (files.read .project).mapM loadProject
  let existing ← loadRecord (files.read .record)
  let prior := (project.map Project.door).getD .null
  let previous := if existing ≠ [] then Dict.value existing "previous_front_door" else prior
  let (agentsAfter, operation) ← (updatedAgents agents remove).mapError .agents
  let after := project.map (migrated remove existing)
  let legacyMarker := (Dict.value existing "recognized_legacy_marker").truthy ||
    !(Markers.find legacy.start agents).isEmpty
  pure { agents := agentsAfter, operation
         project := after.map fun p => dumps (.obj p.fields)
         record := if remove then none else some (dumps (recordJson previous legacyMarker))
         door := (after.map Project.door).getD .null
         markers := markerNames agents }

/-- The files that shall be other than they are read. -/
def changesOf (files : Files) (plan : Plan) : Changes :=
  (if plan.agents ≠ (files.read .agents).getD [] then [(.agents, some plan.agents)] else []) ++
    (if plan.project ≠ files.read .project then [(.project, plan.project)] else []) ++
    (if plan.record ≠ files.read .record then [(.record, plan.record)] else [])

structure Report where
  status : String
  operation : Change
  changedPaths : List String
  workflowFrontDoor : Json
  recognizedMarkers : List String

def reportOf (apply : Bool) (changes : Changes) (plan : Plan) : Report where
  status := if changes.isEmpty then "unchanged" else if apply then "applied" else "dry_run"
  operation := plan.operation
  changedPaths := changes.map fun change => change.1.path
  workflowFrontDoor := plan.door
  recognizedMarkers := plan.markers

/-- `migrate`, and the files after it. There is no answer where the process dies. -/
def migrate (outcomes : ℕ → Outcome) (apply remove : Bool) (files : Files) :
    Option (Except Raised Report) × Files :=
  match planFor remove files with
  | .error e => (some (.error e), files)
  | .ok plan =>
    let changes := changesOf files plan
    let report := reportOf apply changes plan
    if apply then
      match applyAll outcomes changes files with
      | (.applied, files) => (some (.ok report), files)
      | (.raised, files) => (some (.error .file), files)
      | (.died, files) => (none, files)
    else (some (.ok report), files)

/-- The files after a call. -/
def afterCall (outcomes : ℕ → Outcome) (apply remove : Bool) (files : Files) : Files :=
  (migrate outcomes apply remove files).2

end Migrate

section Changing

variable {outcomes : ℕ → Outcome} {changes : Changes} {files files' : Files} {n m : ℕ} {ended : Ended}

/-- Each file is as before or as one of the changes makes it. -/
theorem putAll_place (h : putAll outcomes n changes files = (ended, m, files')) (place : Place) :
    files' place = files place ∨ (place, files' place) ∈ changes := by
  fun_induction putAll outcomes n changes files with
  | case1 => cases h; exact .inl rfl
  | case2 n other content rest files hnothing ih =>
    -- a file that is not there, to be removed: no outcome is used up
    exact (ih h).imp_right (List.mem_cons_of_mem _)
  | case3 n other content rest files hsome hdone ih =>
    rcases ih h with hsame | hmem
    · by_cases hplace : place = other
      · subst hplace
        rw [Function.update_self] at hsame
        exact .inr (hsame ▸ List.mem_cons_self)
      · rw [Function.update_of_ne hplace] at hsame
        exact .inl hsame
    · exact .inr (List.mem_cons_of_mem _ hmem)
  | case4 | case5 => cases h; exact .inl rfl

/-- Where all changes were made, each file that is named once is as its change makes it. -/
theorem putAll_applied (h : putAll outcomes n changes files = (.applied, m, files'))
    (honce : (changes.map Prod.fst).Nodup) : ∀ change ∈ changes, files' change.1 = change.2 := by
  have hlater {k : ℕ} {other : Place} {rest : Changes} {between : Files}
      (hother : other ∉ rest.map Prod.fst)
      (hrest : putAll outcomes k rest between = (.applied, m, files')) :
      files' other = between other :=
    (putAll_place hrest other).resolve_right fun hmem => hother (List.mem_map.mpr ⟨_, hmem, rfl⟩)
  fun_induction putAll outcomes n changes files with
  | case1 => exact fun _ hmem => nomatch hmem
  | case2 n other content rest files hnothing ih =>
    obtain ⟨hother, honce⟩ := List.nodup_cons.mp honce
    refine List.forall_mem_cons.mpr ⟨?_, ih h honce⟩
    rw [hlater hother h, Option.isNone_iff_eq_none.mp hnothing.1,
      Option.isNone_iff_eq_none.mp hnothing.2]
  | case3 n other content rest files hsome hdone ih =>
    obtain ⟨hother, honce⟩ := List.nodup_cons.mp honce
    refine List.forall_mem_cons.mpr ⟨?_, ih h honce⟩
    rw [hlater hother h, Function.update_self]
  | case4 | case5 => cases h

/-- Changes end early with the write or the removal that did not come off. -/
theorem putAll_ended (h : putAll outcomes n changes files = (ended, m, files')) :
    (ended = .raised → ∃ k, n ≤ k ∧ m = k + 1 ∧ outcomes k = .fails) ∧
      (ended = .died → ∃ k, n ≤ k ∧ outcomes k = .dies) := by
  fun_induction putAll outcomes n changes files with
  | case1 => cases h; exact ⟨nofun, nofun⟩
  | case2 n other content rest files hnothing ih => exact ih h
  | case3 n other content rest files hsome hdone ih =>
    obtain ⟨hraised, hdied⟩ := ih h
    refine ⟨fun hended => ?_, fun hended => ?_⟩
    · obtain ⟨k, hk, hm, hfails⟩ := hraised hended
      exact ⟨k, by omega, hm, hfails⟩
    · obtain ⟨k, hk, hdies⟩ := hdied hended
      exact ⟨k, by omega, hdies⟩
  | case4 n other content rest files hsome hfails =>
    cases h
    exact ⟨fun _ => ⟨n, le_rfl, rfl, hfails⟩, nofun⟩
  | case5 n other content rest files hsome hdies =>
    cases h
    exact ⟨nofun, fun _ => ⟨n, le_rfl, hdies⟩⟩

/-- Nothing dies, and what is to be taken back after a failure is. -/
def Restores (outcomes : ℕ → Outcome) : Prop :=
  (∀ n, outcomes n ≠ .dies) ∧ ∀ n m, n < m → outcomes n = .fails → outcomes m = .done

theorem return_not_mem_newlines (text : List Char) : '\r' ∉ newlines '\r' '\n' text := by
  fun_induction newlines '\r' '\n' text with
  | case1 => exact List.not_mem_nil
  | case2 => decide
  | case3 c hc => exact fun h => hc (List.mem_singleton.mp h).symm
  | case4 rest ih => exact List.not_mem_cons_of_ne_of_not_mem (by decide) ih
  | case5 y rest hy ih => exact List.not_mem_cons_of_ne_of_not_mem (by decide) ih
  | case6 x y rest hx ih => exact List.not_mem_cons_of_ne_of_not_mem (Ne.symm hx) ih

/-- A text that was read is written, and read again, as it was. -/
theorem read_restored {place : Place} (h : files' place = files.read place) :
    files'.read place = files.read place := by
  rw [Files.read, h, Files.read, Option.map_map]
  congr 1
  funext text
  exact newlines_plain (return_not_mem_newlines text)

/-- Whatever comes off and whatever does not: each file reads as before or as it was to become. -/
theorem applyAll_place (h : applyAll outcomes changes files = (ended, files')) (place : Place) :
    files'.read place = files.read place ∨
      ∃ content, (place, content) ∈ changes ∧
        files'.read place = content.map (newlines '\r' '\n') := by
  have hstop {k : ℕ} {e : Ended} {between : Files}
      (hput : putAll outcomes 0 changes files = (e, k, between)) :
      between.read place = files.read place ∨ ∃ content, (place, content) ∈ changes ∧
        between.read place = content.map (newlines '\r' '\n') := by
    rcases putAll_place hput place with hsame | hmem
    · exact .inl (congrArg _ hsame)
    · exact .inr ⟨between place, hmem, rfl⟩
  unfold applyAll at h
  rcases hput : putAll outcomes 0 changes files with ⟨first, k, between⟩
  rw [hput] at h
  cases first with
  | applied => cases h; exact hstop hput
  | died => cases h; exact hstop hput
  | raised =>
    rcases hback : putAll outcomes k (changes.map fun c => (c.1, files.read c.1)) between with
      ⟨second, l, back⟩
    have hfiles : back = files' := by
      simp only [hback] at h
      cases second <;> exact congrArg Prod.snd h
    subst hfiles
    rcases putAll_place hback place with hsame | hmem
    · rw [Files.read, hsame]
      exact hstop hput
    · obtain ⟨change, -, heq⟩ := List.mem_map.mp hmem
      simp only [Prod.mk.injEq] at heq
      obtain ⟨rfl, hread⟩ := heq
      exact .inl (read_restored hread.symm)

/-- Changes that can be taken back are all made, or none is. -/
theorem applyAll_restores (hrestores : Restores outcomes) (honce : (changes.map Prod.fst).Nodup)
    (h : applyAll outcomes changes files = (ended, files')) :
    (ended = .applied ∧ ∀ change ∈ changes, files' change.1 = change.2) ∨
      (ended = .raised ∧ ∀ place, files'.read place = files.read place) := by
  unfold applyAll at h
  rcases hput : putAll outcomes 0 changes files with ⟨first, k, between⟩
  rw [hput] at h
  cases first with
  | applied =>
    cases h
    exact .inl ⟨rfl, putAll_applied hput honce⟩
  | died =>
    obtain ⟨j, -, hdies⟩ := (putAll_ended hput).2 rfl
    exact absurd hdies (hrestores.1 j)
  | raised =>
    obtain ⟨j, -, rfl, hfails⟩ := (putAll_ended hput).1 rfl
    rcases hback : putAll outcomes (j + 1) (changes.map fun c => (c.1, files.read c.1)) between with
      ⟨second, l, back⟩
    have hsecond : second = .applied := by
      cases second with
      | applied => rfl
      | raised =>
        obtain ⟨i, hi, -, hagain⟩ := (putAll_ended hback).1 rfl
        rw [hrestores.2 j i (by omega) hfails] at hagain
        cases hagain
      | died =>
        obtain ⟨i, -, hdies⟩ := (putAll_ended hback).2 rfl
        exact absurd hdies (hrestores.1 i)
    subst hsecond
    simp only [hback] at h
    cases h
    refine .inr ⟨rfl, fun place => ?_⟩
    have hkeys : ((changes.map fun c => (c.1, files.read c.1)).map Prod.fst).Nodup := by
      rw [List.map_map]
      exact honce
    by_cases hplace : place ∈ changes.map Prod.fst
    · obtain ⟨change, hchange, rfl⟩ := List.mem_map.mp hplace
      exact read_restored (putAll_applied hback hkeys _ (List.mem_map_of_mem hchange))
    · -- a file that no change names is as it was all the time
      have hback' := (putAll_place hback place).resolve_right fun hmem => by
        obtain ⟨change, hchange, heq⟩ := List.mem_map.mp hmem
        exact hplace (List.mem_map.mpr ⟨change, hchange, congrArg Prod.fst heq⟩)
      have hput' := (putAll_place hput place).resolve_right fun hmem =>
        hplace (List.mem_map.mpr ⟨_, hmem, rfl⟩)
      rw [Files.read, Files.read, hback', hput']

end Changing

section Documents

variable {p : Project} {text : List Char} {existing : Dict} {v : Json}

theorem read_dumps (hv : Canonical v) :
    JsonText.read (newlines '\r' '\n' (dumps v)) = some v := by
  have hplain : '\r' ∉ dumps v := by
    rw [dumps, List.mem_append, not_or]
    exact ⟨JsonText.return_not_mem_indented 0 _, by decide⟩
  rw [newlines_plain hplain, dumps, JsonText.sortKeys_of_canonical v hv]
  exact JsonText.read_indented v hv

theorem canonical_value {d : Dict} (h : Canonical (.obj d)) (key : String) :
    Canonical (Dict.value d key) := by
  unfold Dict.value
  cases hget : Dict.get d key with
  | none => trivial
  | some w =>
    obtain ⟨before, after, heq, -⟩ := List.lookup_eq_some_iff.mp hget
    have hmem : (key, w) ∈ d := by
      rw [heq]
      exact List.mem_append_right _ List.mem_cons_self
    exact JsonText.canonicalFields_iff.mp h.2 _ hmem

theorem canonical_insertField {d : Dict} {key : String} (hd : Canonical (.obj d)) (hv : Canonical v) :
    Canonical (.obj (insertField key v d)) := by
  refine ⟨JsonText.insertField_sorted hd.1, JsonText.canonicalFields_iff.mpr fun e he => ?_⟩
  rcases JsonText.mem_insertField he with rfl | he
  · exact hv
  · exact JsonText.canonicalFields_iff.mp hd.2 e he

theorem canonical_filter {d : Dict} (hd : Canonical (.obj d)) (keep : String × Json → Bool) :
    Canonical (.obj (d.filter keep)) :=
  ⟨hd.1.sublist List.filter_sublist,
    JsonText.canonicalFields_iff.mpr fun e he =>
      JsonText.canonicalFields_iff.mp hd.2 e (List.mem_filter.mp he).1⟩

theorem value_insertField (d : Dict) (key : String) (v : Json) :
    Dict.value (insertField key v d) key = v := by
  rw [Dict.value, JsonText.get_insertField, if_pos rfl, Option.getD_some]

/-- A project that was read, or that is made of one. -/
structure Project.WellFormed (p : Project) : Prop where
  canonical : Canonical (.obj p.fields)
  configuration : Dict.value p.fields "configuration" = .obj p.configuration

theorem Project.WellFormed.canonical_configuration (h : p.WellFormed) :
    Canonical (.obj p.configuration) :=
  h.configuration ▸ canonical_value h.canonical "configuration"

theorem loadProject_spec (h : loadProject text = .ok p) : p.WellFormed := by
  unfold loadProject at h
  split at h
  · cases h
  · next fields hread =>
    split at h
    · next configuration hvalue =>
      cases h
      exact ⟨JsonText.canonical_read hread, hvalue⟩
    · cases h
  · cases h

theorem loadProject_dumps (h : p.WellFormed) :
    loadProject (newlines '\r' '\n' (dumps (.obj p.fields))) = .ok p := by
  unfold loadProject
  rw [read_dumps h.canonical]
  simp only [h.configuration]

theorem withDoor_wellFormed (h : p.WellFormed) {door : Option Json} (hdoor : ∀ w ∈ door, Canonical w) :
    (p.withDoor door).WellFormed := by
  have hconfiguration : Canonical (.obj (p.withDoor door).configuration) := by
    cases door with
    | none => exact canonical_filter h.canonical_configuration _
    | some w => exact canonical_insertField h.canonical_configuration (hdoor w rfl)
  exact ⟨canonical_insertField h.canonical hconfiguration, value_insertField _ _ _⟩

theorem door_withDoor (p : Project) (door : Option Json) :
    (p.withDoor door).door = door.getD .null := by
  cases door with
  | some v => exact value_insertField _ _ _
  | none =>
    have hnone : Dict.get (p.configuration.filter (fun e => e.1 ≠ doorKey)) doorKey = none := by
      apply JsonText.get_of_not_mem
      intro hmem
      obtain ⟨e, he, hkey⟩ := List.mem_map.mp hmem
      exact of_decide_eq_true (List.mem_filter.mp he).2 hkey
    rw [Project.door, Dict.value]
    exact congrArg (Option.getD · Json.null) hnone

theorem loadRecord_canonical {read : Option (List Char)} (h : loadRecord read = .ok existing) :
    Canonical (.obj existing) := by
  unfold loadRecord at h
  split at h
  · cases h
    exact ⟨List.Pairwise.nil, trivial⟩
  · split at h
    · cases h
    · next fields hread =>
      cases h
      exact JsonText.canonical_read hread
    · split at h
      · cases h
      · cases h
        exact ⟨List.Pairwise.nil, trivial⟩

theorem migrated_wellFormed (h : p.WellFormed) (hexisting : Canonical (.obj existing))
    (remove : Bool) : (migrated remove existing p).WellFormed := by
  unfold migrated
  split
  · split
    · refine withDoor_wellFormed h fun w hw => ?_
      split at hw
      · cases hw
      · obtain rfl := Option.mem_some.mp hw
        exact canonical_value hexisting _
    · exact h
  · refine withDoor_wellFormed h fun w hw => ?_
    obtain rfl := Option.mem_some.mp hw
    trivial

theorem loadRecord_recordJson {previous : Json} (hprevious : Canonical previous) (marker : Bool) :
    ∃ r, loadRecord ((some (dumps (recordJson previous marker))).map (newlines '\r' '\n')) = .ok r ∧
      r ≠ [] ∧ Dict.value r "previous_front_door" = previous ∧
      Dict.value r "installed_front_door" = installedDoor := by
  have hkeys : ["installed_front_door", "previous_front_door", "recognized_legacy_marker",
      "schema_version"].Pairwise (· < ·) := by decide +kernel
  have hcanonical : Canonical (recordJson previous marker) :=
    ⟨List.pairwise_map.mp hkeys, trivial, hprevious, trivial, trivial, trivial⟩
  have hload : loadRecord ((some (dumps (recordJson previous marker))).map (newlines '\r' '\n')) =
      .ok [("installed_front_door", installedDoor), ("previous_front_door", previous),
        ("recognized_legacy_marker", .bool marker), ("schema_version", .num 1)] := by
    rw [Option.map_some, loadRecord, read_dumps hcanonical]
    rfl
  exact ⟨_, hload, List.cons_ne_nil _ _, rfl, rfl⟩

end Documents

section Calls

variable {files files' : Files} {plan : Plan} {remove : Bool} {p door previous : Json}

/-- The project of a repository that has one that can be read. -/
def projectOf (files : Files) : Option Project :=
  (files.read .project).bind fun text => (loadProject text).toOption

/-- `workflow_front_door` of the project, null where there is none. -/
def doorOf (files : Files) : Option Json := (projectOf files).map Project.door

def Plan.at (plan : Plan) : Place → Option (List Char)
  | .agents => some plan.agents
  | .project => plan.project
  | .record => plan.record

theorem plan_at_of_mem {place : Place} {content : Option (List Char)}
    (h : (place, content) ∈ changesOf files plan) : content = plan.at place := by
  unfold changesOf at h
  simp only [List.mem_append] at h
  rcases h with (h | h) | h
  all_goals
    split at h
    · obtain ⟨rfl, rfl⟩ := Prod.mk.inj (List.mem_singleton.mp h)
      rfl
    · cases h

theorem nodup_changesOf (files : Files) (plan : Plan) :
    ((changesOf files plan).map Prod.fst).Nodup := by
  unfold changesOf
  split_ifs <;> simp

/-- What is not changed is read as it shall be; no file of the agents is as good as an empty one. -/
theorem read_of_unchanged {place : Place} (hplace : place ≠ .agents)
    (h : ∀ content, (place, content) ∉ changesOf files plan) :
    files.read place = plan.at place := by
  by_contra hne
  have hne' : plan.at place ≠ files.read place := Ne.symm hne
  apply h (plan.at place)
  unfold changesOf
  cases place with
  | agents => exact absurd rfl hplace
  | project =>
    rw [if_pos (show plan.project ≠ files.read .project from hne')]
    exact List.mem_append_left _ (List.mem_append_right _ List.mem_cons_self)
  | record =>
    rw [if_pos (show plan.record ≠ files.read .record from hne')]
    exact List.mem_append_right _ List.mem_cons_self

theorem plan_spec (h : planFor remove files = .ok plan) {project : Project}
    (hproject : projectOf files = some project) :
    ∃ existing marker, loadRecord (files.read .record) = .ok existing ∧ project.WellFormed ∧
      plan.project = some (dumps (.obj (migrated remove existing project).fields)) ∧
      plan.record = if remove then none else some (dumps (recordJson
        (if existing ≠ [] then Dict.value existing "previous_front_door" else project.door)
        marker)) := by
  obtain ⟨text, htext, hload⟩ := Option.bind_eq_some_iff.mp hproject
  have hok : loadProject text = .ok project := Ensures.ok_of_toOption hload
  unfold planFor at h
  obtain ⟨project', hproject', h⟩ := Ensures.bind_eq_ok.mp h
  obtain ⟨existing, hexisting, h⟩ := Ensures.bind_eq_ok.mp h
  obtain ⟨updated, -, h⟩ := Ensures.bind_eq_ok.mp h
  rw [htext, Option.mapM_some, hok] at hproject'
  cases hproject'
  cases h
  exact ⟨existing, _, hexisting, loadProject_spec hok, rfl, rfl⟩

/-- A record of the front door that the project had before. -/
def Recorded (previous : Json) (read : Option (List Char)) : Prop :=
  ∃ r, loadRecord read = .ok r ∧ r ≠ [] ∧ Dict.value r "previous_front_door" = previous ∧
    Dict.value r "installed_front_door" = installedDoor

/-- The repository has its own front door, and no record. -/
structure Clean (door : Json) (files : Files) : Prop where
  record : files.read .record = none
  door : doorOf files = some door

/-- The front door is installed, and the record tells of the one before. -/
structure Installed (previous : Json) (files : Files) : Prop where
  record : Recorded previous (files.read .record)
  door : doorOf files = some installedDoor

def Known (door : Json) (files : Files) : Prop := Clean door files ∨ Installed door files

theorem Known.loads (h : Known door files) : ∃ existing,
    loadRecord (files.read .record) = .ok existing ∧ ∃ project, projectOf files = some project := by
  rcases h with ⟨hnone, hdoor⟩ | ⟨⟨r, hr, -⟩, hdoor⟩
  · obtain ⟨project, hproject, -⟩ := Option.map_eq_some_iff.mp hdoor
    exact ⟨[], by rw [hnone]; rfl, project, hproject⟩
  · obtain ⟨project, hproject, -⟩ := Option.map_eq_some_iff.mp hdoor
    exact ⟨r, hr, project, hproject⟩

theorem same_installedDoor {v : Json} :
    Values.Value.same (Values.ofJson v) (Values.ofJson installedDoor) = true ↔ v = installedDoor :=
  Values.Value.same_str.trans ⟨fun h => Values.ofJson_injective h, fun h => by rw [h]; rfl⟩

/-- What a plan makes of the front door, and what it records. -/
theorem plan_known (h : planFor remove files = .ok plan) (hknown : Known door files) :
    ∃ project : Project, projectOf files = some project ∧
      (∀ files', Files.read files' .project = plan.project.map (newlines '\r' '\n') →
        doorOf files' = some (if remove then door else installedDoor)) ∧
      (if remove then plan.record = none
        else Recorded door (plan.record.map (newlines '\r' '\n'))) := by
  obtain ⟨-, -, project, hproject⟩ := hknown.loads
  obtain ⟨existing, marker, hexisting, hformed, hplanned, hrecord⟩ := plan_spec h hproject
  have hcanonical := loadRecord_canonical hexisting
  have hdoor : doorOf files = some project.door := by rw [doorOf, hproject, Option.map_some]
  -- the front door of the repository itself, by the record or by the project
  have hown : (if existing ≠ [] then Dict.value existing "previous_front_door" else project.door) =
      door ∧ (migrated true existing project).door = door := by
    rcases hknown with ⟨hnone, hclean⟩ | ⟨⟨r, hr, hne, hprevious, hinstalled⟩, hcurrent⟩
    · rw [hnone] at hexisting
      cases hexisting
      have hsame : project.door = door := Option.some.inj (hdoor.symm.trans hclean)
      exact ⟨hsame, hsame⟩
    · obtain rfl : r = existing := Except.ok.inj (hr.symm.trans hexisting)
      have hsame : project.door = installedDoor := Option.some.inj (hdoor.symm.trans hcurrent)
      refine ⟨by rw [if_pos hne, hprevious], ?_⟩
      unfold migrated
      rw [if_pos rfl, if_pos ⟨hne, by rw [hinstalled]; exact same_installedDoor.mpr hsame⟩,
        door_withDoor, hprevious]
      cases door <;> rfl
  refine ⟨project, hproject, fun files' hread => ?_, ?_⟩
  · rw [doorOf, projectOf, hread, hplanned, Option.map_some, Option.bind_some,
      loadProject_dumps (migrated_wellFormed hformed hcanonical remove)]
    cases remove with
    | true => exact congrArg some hown.2
    | false =>
      have hdoor : (migrated false existing project).door = installedDoor :=
        door_withDoor project (some installedDoor)
      exact congrArg some hdoor
  · cases remove with
    | true => exact hrecord
    | false =>
      have hvalue : Canonical door := by
        rw [← hown.1]
        split
        · exact canonical_value hcanonical _
        · exact canonical_value hformed.canonical_configuration _
      rw [if_neg Bool.false_ne_true] at hrecord ⊢
      rw [hrecord, hown.1]
      exact loadRecord_recordJson hvalue marker

variable {outcomes : ℕ → Outcome} {apply : Bool}

/-- A call leaves the files alone, or changes what is planned. -/
theorem afterCall_cases (outcomes : ℕ → Outcome) (apply remove : Bool) (files : Files) :
    afterCall outcomes apply remove files = files ∨
      ∃ plan ended, planFor remove files = .ok plan ∧
        applyAll outcomes (changesOf files plan) files =
          (ended, afterCall outcomes apply remove files) := by
  unfold afterCall migrate
  cases hplan : planFor remove files with
  | error e => exact .inl rfl
  | ok plan =>
    cases apply with
    | false => exact .inl rfl
    | true =>
      rcases happly : applyAll outcomes (changesOf files plan) files with ⟨ended, files'⟩
      refine .inr ⟨plan, ended, rfl, ?_⟩
      cases ended <;> simp only [happly, if_true]

/-- Whatever comes off in a call: a file reads as before or as it was planned. -/
theorem migrate_place (outcomes : ℕ → Outcome) (apply remove : Bool) (files : Files)
    (place : Place) :
    (afterCall outcomes apply remove files).read place = files.read place ∨
      ∃ plan, planFor remove files = .ok plan ∧
        (afterCall outcomes apply remove files).read place =
          (plan.at place).map (newlines '\r' '\n') := by
  rcases afterCall_cases outcomes apply remove files with hsame | ⟨plan, ended, hplan, happly⟩
  · exact .inl (by rw [hsame])
  · rcases applyAll_place happly place with hsame | ⟨content, hmem, hcontent⟩
    · exact .inl hsame
    · exact .inr ⟨plan, hplan, by rw [hcontent, plan_at_of_mem hmem]⟩

theorem read_read (files : Files) (place : Place) :
    (files.read place).map (newlines '\r' '\n') = files.read place :=
  @read_restored files files.read place rfl

theorem planned_of_applied (h : Restores outcomes)
    (happly : applyAll outcomes (changesOf files plan) files = (.applied, files')) {place : Place}
    (hplace : place ≠ .agents) :
    files'.read place = (plan.at place).map (newlines '\r' '\n') := by
  by_cases hchanged : ∃ content, (place, content) ∈ changesOf files plan
  · obtain ⟨content, hmem⟩ := hchanged
    rcases applyAll_restores h (nodup_changesOf files plan) happly with ⟨-, hall⟩ | ⟨hraised, -⟩
    · have hcontent := hall _ hmem
      dsimp only at hcontent
      rw [Files.read, hcontent, plan_at_of_mem hmem]
    · cases hraised
  · push Not at hchanged
    rcases applyAll_place happly place with hsame | ⟨content, hmem, -⟩
    · rw [← read_of_unchanged hplace hchanged, read_read]
      exact hsame
    · exact absurd hmem (hchanged content)

/-- A call that can be taken back leaves all files as they read before, or as planned. -/
theorem migrate_restores (h : Restores outcomes) (apply remove : Bool) (files : Files) :
    (∀ place, (afterCall outcomes apply remove files).read place = files.read place) ∨
      ∃ plan, planFor remove files = .ok plan ∧ ∀ place ≠ .agents,
        (afterCall outcomes apply remove files).read place =
          (plan.at place).map (newlines '\r' '\n') := by
  rcases afterCall_cases outcomes apply remove files with hsame | ⟨plan, ended, hplan, happly⟩
  · exact .inl fun place => by rw [hsame]
  · rcases applyAll_restores h (nodup_changesOf files plan) happly with ⟨rfl, -⟩ | ⟨rfl, hsame⟩
    · exact .inr ⟨plan, hplan, fun place hplace => planned_of_applied h happly hplace⟩
    · exact .inl hsame

/-- Where nothing fails, the files are as planned. -/
theorem migrate_done (h : planFor remove files = .ok plan) {place : Place}
    (hplace : place ≠ .agents) :
    (afterCall (fun _ => .done) true remove files).read place =
      (plan.at place).map (newlines '\r' '\n') := by
  have hdone : Restores fun _ => .done := ⟨fun _ => nofun, fun _ _ _ => nofun⟩
  unfold afterCall migrate
  rw [h]
  dsimp only
  rw [if_pos rfl]
  rcases happly : applyAll (fun _ => .done) (changesOf files plan) files with ⟨ended, files'⟩
  cases ended with
  | applied => exact planned_of_applied hdone happly hplace
  | raised | died =>
    unfold applyAll at happly
    rcases hput : putAll (fun _ => .done) 0 (changesOf files plan) files with ⟨first, k, between⟩
    rw [hput] at happly
    cases first with
    | applied => cases happly
    | raised => obtain ⟨j, -, -, hfails⟩ := (putAll_ended hput).1 rfl; cases hfails
    | died => obtain ⟨j, -, hdies⟩ := (putAll_ended hput).2 rfl; cases hdies

/-- Only `AGENTS.md` can stand in the way of a call. -/
theorem plan_of_known (h : Known door files) {updated : List Char × Change}
    (hagents : updatedAgents ((files.read .agents).getD []) remove = .ok updated) :
    ∃ plan, planFor remove files = .ok plan := by
  obtain ⟨existing, hexisting, project, hproject⟩ := h.loads
  obtain ⟨text, htext, hload⟩ := Option.bind_eq_some_iff.mp hproject
  have hok : loadProject text = .ok project := Ensures.ok_of_toOption hload
  unfold planFor
  simp only [htext, hexisting, hagents, Option.mapM_some, hok, bind, Except.bind, Functor.map,
    Except.map, Except.mapError, pure, Except.pure]
  exact ⟨_, rfl⟩

theorem known_congr (hrecord : files'.read .record = files.read .record)
    (hdoor : doorOf files' = doorOf files) (h : Known door files) : Known door files' := by
  rcases h with ⟨hnone, hclean⟩ | ⟨hrecorded, hinstalled⟩
  · exact .inl ⟨hrecord.trans hnone, hdoor.trans hclean⟩
  · exact .inr ⟨hrecord ▸ hrecorded, hdoor.trans hinstalled⟩

theorem doorOf_congr (h : files'.read .project = files.read .project) :
    doorOf files' = doorOf files := by
  rw [doorOf, projectOf, h, doorOf, projectOf]

/-- A call that can be taken back keeps it known what the front door was. -/
theorem migrate_known (hrestores : Restores outcomes) (h : Known door files) :
    Known door (afterCall outcomes apply remove files) := by
  rcases migrate_restores hrestores apply remove files with
    hsame | ⟨plan, hplan, hread⟩
  · exact known_congr (hsame .record) (doorOf_congr (hsame .project)) h
  · obtain ⟨project, -, hdoor, hrecord⟩ := plan_known hplan h
    have hdoor' := hdoor _ (hread .project (by decide))
    have hrecord' := hread .record (by decide)
    cases remove with
    | true => exact .inl ⟨hrecord'.trans (congrArg _ hrecord), hdoor'⟩
    | false => exact .inr ⟨hrecord' ▸ hrecord, hdoor'⟩

end Calls

section Runs

variable {files files' : Files} {door : Json} {outcomes : ℕ → Outcome} {plan : Plan}

/-- A call, or an edit of the files that leaves the record and the front door alone. -/
inductive Step (allowed : (ℕ → Outcome) → Prop) : Files → Files → Prop
  | call {outcomes : ℕ → Outcome} (h : allowed outcomes) (apply remove : Bool) (files : Files) :
      Step allowed files (afterCall outcomes apply remove files)
  | edited {files files' : Files} (hrecord : files'.read .record = files.read .record)
      (hdoor : doorOf files' = doorOf files) : Step allowed files files'

abbrev Run (allowed : (ℕ → Outcome) → Prop) : Files → Files → Prop :=
  Relation.ReflTransGen (Step allowed)

theorem run_known (hrun : Run Restores files files') (h : Known door files) : Known door files' := by
  induction hrun with
  | refl => exact h
  | tail _ hstep ih =>
    cases hstep with
    | call hrestores apply remove files => exact migrate_known hrestores ih
    | edited hrecord hdoor => exact known_congr hrecord hdoor ih

/-- Calls of which none dies, and none fails so that it cannot be taken back, keep it known what the
front door of a repository was: a removal that comes off brings it back. -/
theorem front_door_restorable (h : Clean door files) (hrun : Run Restores files files') :
    Known door files' ∧ ∀ updated,
      updatedAgents ((files'.read .agents).getD []) true = .ok updated →
        Clean door (afterCall (fun _ => .done) true true files') := by
  have hknown := run_known hrun (.inl h)
  refine ⟨hknown, fun updated hagents => ?_⟩
  obtain ⟨plan, hplan⟩ := plan_of_known hknown hagents
  obtain ⟨project, -, hdoor, hrecord⟩ := plan_known hplan hknown
  exact ⟨(migrate_done hplan (by decide)).trans (congrArg _ hrecord),
    hdoor _ (migrate_done hplan (by decide))⟩

/-- Once the front door that the project has is the installed one, no call brings another. -/
theorem migrate_installed (apply remove : Bool) (h : Known installedDoor files) :
    Known installedDoor (afterCall outcomes apply remove files) := by
  have hdoorBefore : doorOf files = some installedDoor := h.elim Clean.door Installed.door
  have hdoor : doorOf (afterCall outcomes apply remove files) = some installedDoor := by
    rcases migrate_place outcomes apply remove files .project with hsame | ⟨plan, hplan, hread⟩
    · exact (doorOf_congr hsame).trans hdoorBefore
    · obtain ⟨project, -, hdoor, -⟩ := plan_known hplan h
      rw [hdoor _ hread]
      cases remove <;> rfl
  rcases migrate_place outcomes apply remove files .record with hsame | ⟨plan, hplan, hread⟩
  · exact known_congr hsame (hdoor.trans hdoorBefore.symm) h
  · obtain ⟨project, -, -, hrecord⟩ := plan_known hplan h
    cases remove with
    | true => exact .inl ⟨hread.trans (congrArg _ hrecord), hdoor⟩
    | false => exact .inr ⟨hread ▸ hrecord, hdoor⟩

theorem run_installed (hrun : Run (fun _ => True) files files') (h : Known installedDoor files) :
    Known installedDoor files' := by
  induction hrun with
  | refl => exact h
  | tail _ hstep ih =>
    cases hstep with
    | call _ apply remove files => exact migrate_installed apply remove ih
    | edited hrecord hdoor => exact known_congr hrecord hdoor ih

/-- Where the process dies in the last of some writes, the others are made. -/
theorem putAll_dies {front : Changes} {last : Place × Option (List Char)} {n : ℕ}
    (htexts : ∀ change ∈ front, change.2.isSome) (hlast : last.2.isSome)
    (hdone : ∀ k < front.length, outcomes (n + k) = .done)
    (hdies : outcomes (n + front.length) = .dies) :
    ∃ m m' between, putAll outcomes n (front ++ [last]) files = (.died, m, between) ∧
      putAll outcomes n front files = (.applied, m', between) := by
  have hsome {content file : Option (List Char)} (h : content.isSome) :
      ¬(content.isNone ∧ file.isNone) := by
    rintro ⟨hnone, -⟩
    rw [Option.isNone_iff_eq_none.mp hnone] at h
    cases h
  induction front generalizing n files with
  | nil =>
    obtain ⟨place, content⟩ := last
    refine ⟨n + 1, n, files, ?_, rfl⟩
    rw [List.nil_append, putAll, if_neg (hsome hlast), show outcomes n = .dies from hdies]
  | cons change rest ih =>
    obtain ⟨place, content⟩ := change
    have hcontent : content.isSome := htexts (place, content) List.mem_cons_self
    have hfirst : outcomes n = .done := hdone 0 (Nat.succ_pos _)
    rw [List.length_cons] at hdone hdies
    have hdone' : ∀ k < rest.length, outcomes (n + 1 + k) = .done := by
      intro k hk
      rw [show n + 1 + k = n + (k + 1) by omega]
      exact hdone (k + 1) (by omega)
    have hdies' : outcomes (n + 1 + rest.length) = .dies := by
      rw [show n + 1 + rest.length = n + (rest.length + 1) by omega]
      exact hdies
    obtain ⟨m, m', between, hall, hfront⟩ : ∃ m m' between,
        putAll outcomes (n + 1) (rest ++ [last]) (Function.update files place content) =
          (.died, m, between) ∧
        putAll outcomes (n + 1) rest (Function.update files place content) =
          (.applied, m', between) :=
      ih (fun c hc => htexts c (List.mem_cons_of_mem _ hc)) hdone' hdies'
    refine ⟨m, m', between, ?_, ?_⟩
    · rw [List.cons_append, putAll, if_neg (hsome hcontent), hfirst]
      exact hall
    · rw [putAll, if_neg (hsome hcontent), hfirst]
      exact hfront

/-- The record is changed last. -/
theorem changesOf_record (hrecord : plan.record ≠ files.read .record)
    (hproject : plan.project.isSome) : ∃ front : Changes,
      changesOf files plan = front ++ [(.record, plan.record)] ∧
      (∀ content, (Place.record, content) ∉ front) ∧ ∀ change ∈ front, change.2.isSome := by
  refine ⟨(if plan.agents ≠ (files.read .agents).getD [] then [(.agents, some plan.agents)] else []) ++
    (if plan.project ≠ files.read .project then [(.project, plan.project)] else []), ?_, ?_, ?_⟩
  · rw [changesOf, if_pos hrecord]
  · intro content hmem
    rcases List.mem_append.mp hmem with hmem | hmem
    all_goals
      split at hmem
      · cases List.mem_singleton.mp hmem
      · cases hmem
  · intro change hmem
    rcases List.mem_append.mp hmem with hmem | hmem
    · split at hmem
      · rw [List.mem_singleton.mp hmem]
        rfl
      · cases hmem
    · split at hmem
      · rw [List.mem_singleton.mp hmem]
        exact hproject
      · cases hmem

/-- The process dies in an installation when all is written but the record: whatever is done after
that, removals included, the project keeps the installed front door. -/
theorem lost_door (h : Clean door files) (hplan : planFor false files = .ok plan)
    (hdone : ∀ k, k + 1 < (changesOf files plan).length → outcomes k = .done)
    (hdies : outcomes ((changesOf files plan).length - 1) = .dies)
    (hrun : Run (fun _ => True) (afterCall outcomes true false files) files') :
    doorOf files' = some installedDoor := by
  obtain ⟨project, hproject, hdoor, hrecord⟩ := plan_known hplan (.inl h)
  obtain ⟨existing, marker, -, -, hplanned, hrecorded⟩ := plan_spec hplan hproject
  have hmissing : plan.record ≠ files.read .record := by
    rw [h.record, hrecorded]
    exact Option.some_ne_none _
  have htext : plan.project.isSome := by rw [hplanned, Option.isSome_some]
  obtain ⟨front, hchanges, hfront, htexts⟩ := changesOf_record hmissing htext
  have hlength : (changesOf files plan).length = front.length + 1 := by
    rw [hchanges, List.length_append, List.length_singleton]
  have hdone' : ∀ k < front.length, outcomes (0 + k) = .done := by
    intro k hk
    rw [Nat.zero_add]
    exact hdone k (by omega)
  have hdies' : outcomes (0 + front.length) = .dies := by
    rw [Nat.zero_add, show front.length = (changesOf files plan).length - 1 by omega]
    exact hdies
  have hlast : (Place.record, plan.record).2.isSome := by
    rw [hrecorded]
    rfl
  obtain ⟨m, m', between, hall, happlied⟩ :
      ∃ m m' between, putAll outcomes 0 (front ++ [(.record, plan.record)]) files =
          (.died, m, between) ∧ putAll outcomes 0 front files = (.applied, m', between) :=
    putAll_dies htexts hlast hdone' hdies'
  have hfiles : afterCall outcomes true false files = between := by
    simp only [afterCall, migrate, hplan, if_true, applyAll, hchanges, hall]
  rw [hfiles] at hrun
  -- the project is as planned, and there is still no record
  have hbetween : Clean installedDoor between := by
    constructor
    · rw [Files.read, (putAll_place happlied .record).resolve_right (hfront _)]
      exact h.record
    · apply hdoor
      have honce : (front.map Prod.fst).Nodup := by
        have hnodup := nodup_changesOf files plan
        rw [hchanges, List.map_append] at hnodup
        exact (List.nodup_append.mp hnodup).1
      by_cases hchanged : ∃ content, (Place.project, content) ∈ front
      · obtain ⟨content, hmem⟩ := hchanged
        have hcontent := putAll_applied happlied honce _ hmem
        have hat := plan_at_of_mem (hchanges ▸ List.mem_append_left _ hmem)
        dsimp only at hcontent
        rw [Files.read, hcontent, hat]
        rfl
      · push Not at hchanged
        have hsame := (putAll_place happlied .project).resolve_right (hchanged _)
        have hread : files.read .project = plan.project :=
          read_of_unchanged (by decide) fun content hmem => by
            rw [hchanges] at hmem
            rcases List.mem_append.mp hmem with hmem | hmem
            · exact hchanged content hmem
            · cases List.mem_singleton.mp hmem
        rw [← hread, read_read, Files.read, hsame, Files.read]
  exact (run_installed hrun (.inl hbetween)).elim Clean.door Installed.door

end Runs

section Others

theorem insertField_insertField (d : Dict) (key : String) (v w : Json) :
    insertField key w (insertField key v d) = insertField key w d := by
  induction d with
  | nil => simp [insertField]
  | cons e d ih =>
    obtain ⟨k, x⟩ := e
    rw [insertField, insertField]
    by_cases hlt : key < k
    · rw [if_pos hlt, if_pos hlt, insertField, if_neg (lt_irrefl key), if_pos rfl]
    · rw [if_neg hlt, if_neg hlt]
      by_cases heq : key = k
      · rw [if_pos heq, if_pos heq, insertField, if_neg (lt_irrefl key), if_pos rfl]
      · rw [if_neg heq, if_neg heq, insertField, if_neg hlt, if_neg heq, ih]

theorem filter_insertField (d : Dict) (key : String) (v : Json) :
    (insertField key v d).filter (fun e => e.1 ≠ key) = d.filter (fun e => e.1 ≠ key) := by
  induction d with
  | nil => simp [insertField]
  | cons e d ih =>
    obtain ⟨k, x⟩ := e
    rw [insertField]
    split_ifs with hlt heq
    · exact List.filter_cons_of_neg (by simp)
    · rw [List.filter_cons_of_neg (by simp), List.filter_cons_of_neg (by simp [heq])]
    · rw [List.filter_cons, List.filter_cons, ih]

/-- All of a project identity but its front door. -/
def Project.others (p : Project) : Json := .obj (p.withDoor none).fields

theorem others_withDoor (p : Project) (door : Option Json) : (p.withDoor door).others = p.others := by
  rw [Project.others, Project.others]
  cases door with
  | some v =>
    simp only [Project.withDoor]
    rw [insertField_insertField, filter_insertField]
  | none =>
    simp only [Project.withDoor]
    rw [insertField_insertField, List.filter_filter]
    simp only [Bool.and_self]

/-- A call may fail or die anywhere: a project that can be read can be read afterwards, and all but
its front door is as it was. -/
theorem others_kept (outcomes : ℕ → Outcome) (apply remove : Bool) (files : Files) {project : Project}
    (h : projectOf files = some project) :
    ∃ project', projectOf (afterCall outcomes apply remove files) = some project' ∧
      project'.others = project.others := by
  rcases migrate_place outcomes apply remove files .project with hsame | ⟨plan, hplan, hread⟩
  · exact ⟨project, by rw [projectOf, hsame]; exact h, rfl⟩
  · obtain ⟨existing, marker, hexisting, hformed, hplanned, -⟩ := plan_spec hplan h
    refine ⟨migrated remove existing project, ?_, ?_⟩
    · rw [projectOf, hread, Plan.at, hplanned, Option.map_some, Option.bind_some,
        loadProject_dumps (migrated_wellFormed hformed (loadRecord_canonical hexisting) remove)]
      rfl
    · unfold migrated
      split
      · split
        · exact others_withDoor project _
        · rfl
      · exact others_withDoor project _

end Others

section Examples

/-- A repository with a front door of its own, and without other files. -/
def classicFiles : Files
  | .project => some
      "\x7b\"configuration\": \x7b\"workflow_front_door\": \"classic\"\x7d, \"id\": 7\x7d".toList
  | _ => none

def classic : Json := .str "classic"

theorem classicFiles_clean : Clean classic classicFiles :=
  ⟨rfl, by decide +kernel⟩

theorem agents_added : updatedAgents [] false =
    .ok (Migration.insertNearTop [] Migration.routingSection, .add) := rfl

/-- The third write fails, and what was written is taken back. -/
def thirdFails (n : ℕ) : Outcome := if n = 2 then .fails else .done

theorem thirdFails_restores : Restores thirdFails := by
  refine ⟨fun n => ?_, fun n m hlt hfails => ?_⟩
  · unfold thirdFails
    split_ifs <;> decide
  · have hn : n = 2 := by
      by_contra hne
      rw [thirdFails, if_neg hne] at hfails
      cases hfails
    rw [thirdFails, if_neg (by omega)]

/-- The files after an installation that failed. -/
def triedFiles : Files := afterCall thirdFails true false classicFiles

def withoutAgents (files : Files) : Files := Function.update files .agents none

/-- The files after the next installation. -/
def installedFiles : Files := afterCall (fun _ => .done) true false (withoutAgents triedFiles)

theorem tried_and_installed : Run Restores classicFiles (withoutAgents triedFiles) ∧
    Run Restores classicFiles (withoutAgents installedFiles) := by
  have hdone : Restores fun _ => .done := ⟨fun _ => nofun, fun _ _ _ => nofun⟩
  have hedited (files : Files) : Step Restores files (withoutAgents files) := .edited rfl rfl
  have htried : Step Restores classicFiles triedFiles :=
    .call thirdFails_restores true false classicFiles
  have hinstalled : Step Restores (withoutAgents triedFiles) installedFiles :=
    .call hdone true false (withoutAgents triedFiles)
  have hfirst := (Relation.ReflTransGen.single htried).tail (hedited triedFiles)
  exact ⟨hfirst, (hfirst.tail hinstalled).tail (hedited installedFiles)⟩

/-- The door is installed after a failure, and removed again. -/
theorem classic_comes_back : doorOf installedFiles = some installedDoor ∧
    Clean classic (afterCall (fun _ => .done) true true (withoutAgents installedFiles)) := by
  obtain ⟨htried, hinstalled⟩ := tried_and_installed
  obtain ⟨plan, hplan⟩ := plan_of_known (run_known htried (.inl classicFiles_clean)) agents_added
  obtain ⟨project, -, hdoor, -⟩ := plan_known hplan (run_known htried (.inl classicFiles_clean))
  have hremoved : updatedAgents [] true = .ok ([], .remove) := rfl
  have hproject : Files.read installedFiles .project = plan.project.map (newlines '\r' '\n') :=
    migrate_done hplan (by decide)
  exact ⟨hdoor _ hproject,
    (front_door_restorable classicFiles_clean hinstalled).2 _ hremoved⟩

/-- The process dies at the record: a removal that comes off leaves the installed door. -/
theorem classic_is_lost : ∃ outcomes, doorOf (afterCall (fun _ => .done) true true
    (withoutAgents (afterCall outcomes true false classicFiles))) = some installedDoor := by
  obtain ⟨plan, hplan⟩ := plan_of_known (.inl classicFiles_clean) agents_added
  let outcomes (k : ℕ) : Outcome :=
    if k = (changesOf classicFiles plan).length - 1 then .dies else .done
  have hdone : ∀ k, k + 1 < (changesOf classicFiles plan).length → outcomes k = .done :=
    fun k hk => if_neg (by omega)
  have hedited (files : Files) : Step (fun _ => True) files (withoutAgents files) := .edited rfl rfl
  have hremoved (files : Files) :
      Step (fun _ => True) files (afterCall (fun _ => .done) true true files) :=
    .call trivial true true files
  exact ⟨outcomes, lost_door classicFiles_clean hplan hdone (if_pos rfl)
    ((Relation.ReflTransGen.single (hedited _)).tail (hremoved _))⟩

theorem classic_others_are_kept : ∃ project',
    projectOf (afterCall thirdFails true false classicFiles) = some project' ∧
      project'.others = .obj [("configuration", .obj []), ("id", .num 7)] := by
  have hothers : (projectOf classicFiles).map Project.others =
      some (.obj [("configuration", .obj []), ("id", .num 7)]) := by decide +kernel
  obtain ⟨project, hproject, hothers⟩ := Option.map_eq_some_iff.mp hothers
  obtain ⟨project', hafter, hkept⟩ := others_kept thirdFails true false classicFiles hproject
  exact ⟨project', hafter, hkept.trans hothers⟩

end Examples

end ProjectControl.FrontDoor
