import Mathlib
import ProjectControl.DenyBoundary

/-! The sandbox of an authored command: the checks of its paths, the executable they select and
the mounts that are built from them. -/

set_option autoImplicit false

namespace ProjectControl.Sandbox

open FileTree Security

section Paths

/-- `str` of a path. -/
def text (p : PurePath) : String :=
  if p.absolute then "/" ++ "/".intercalate p.parts else asPosix p.parts

/-- `os.path.join` with a name that does not start at the top. -/
def joinPath (dir name : String) : String :=
  if dir = "" ∨ dir.toList.getLast? = some '/' then dir ++ name else dir ++ "/" ++ name

/-- `os.path.abspath` of an absolute path takes `..` back without looking at links. -/
def abspath (parts : List String) : Path :=
  parts.foldl (fun p name => if name = ".." then p.dropLast else p ++ [name]) []

/-- `path / name`. -/
def child (p : PurePath) (parts : List String) : PurePath := ⟨p.absolute, p.parts ++ parts⟩

/-- `_path_is_within`. -/
def pathIsWithin (path root : PurePath) : Bool :=
  path.absolute == root.absolute && root.parts.isPrefixOf path.parts

end Paths

section Hosts

inductive SandboxError
  | notFound (message : String)
  | value (message : String)
  | os (fault : FileTree.Fault)
  deriving DecidableEq

/-- What the supervisor finds on its host. -/
structure Host where
  tree : Tree
  /-- What `os.access` with `X_OK` answers. -/
  canExecute : Path → Bool
  directory : Path
  /-- `__file__`. -/
  file : PurePath
  /-- `sys.executable`. -/
  executable : String

/-- A request with a sandbox; the time limits are left out. -/
structure Request where
  argv : List String
  workspace : String
  cwd : String
  runtimePrefix : String
  repositoryRoot : Option String
  argv_ne : argv ≠ []

def Request.command (r : Request) : String := r.argv.head r.argv_ne

variable (h : Host)

def Host.start (p : PurePath) : Path := if p.absolute then [] else h.directory

/-- `resolve(strict=True)`. -/
def Host.resolve (p : PurePath) : Except SandboxError Path :=
  (h.tree.realpath (h.start p) p.parts).mapError .os

/-- The access check of `shutil.which`. -/
def Host.runs (p : PurePath) : Bool :=
  match h.tree.realpath (h.start p) p.parts with
  | .ok q => h.canExecute q && h.tree.node? q != some .dir
  | .error _ => false

/-- `shutil.which` of a bare name. -/
def Host.which (name : String) (path : List String) : Option String :=
  (path.map fun dir => joinPath dir name).find? fun found => h.runs (PurePath.read found)

def systemPath : List String := ["/usr/local/bin", "/usr/bin", "/bin"]

/-- The entries of the joined search path; a prefix with a colon is taken apart. -/
def trustedPath (runtimeAlias : PurePath) : List String :=
  ((":".intercalate (text (child runtimeAlias ["bin"]) :: systemPath)).toList.splitOn ':').map
    String.ofList

/-- The path of the command on the host. -/
def Host.commandPath (r : Request) (runtimeAlias : PurePath) : Except SandboxError PurePath :=
  let raw := PurePath.read r.command
  if raw.absolute then .ok raw
  else if '/' ∈ r.command.toList then .ok ⟨true, h.directory ++ raw.parts⟩
  else
    match h.which r.command (trustedPath runtimeAlias) with
    | none => .error (.notFound "authored command executable is unavailable")
    | some found => .ok (PurePath.read found)

end Hosts

section Mounts

/-- The options of the built command that say what it sees. -/
inductive Mount
  | roBind (source : Path) (dest : List String)
  | bind (source : Path) (dest : List String)
  | symlink (target : List String) (dest : Path)
  | tmpfs (dest : Path)
  | dir (dest : Path)
  | proc (dest : Path)
  | dev (dest : Path)
  deriving DecidableEq

def Mount.bindSource : Mount → Option Path
  | .roBind source _ => some source
  | .bind source _ => some source
  | _ => none

def Mount.writable : Mount → Option (Path × List String)
  | .bind source dest => some (source, dest)
  | _ => none

structure Command where
  bwrap : String
  isolation : List String
  mounts : List Mount
  environment : List (String × String)
  chdir : Path
  program : List String

def usr : Path := ["usr"]

/-- One step of `_add_destination_directories`: what is added and what has been created. -/
def addParent (state : List Mount × List Path) (parent : Path) : List Mount × List Path :=
  if parent = [] ∨ parent ∈ state.2 ∨ usr <+: parent ∨ parent ∈ [["home"], ["tmp"], ["run"]] then
    state
  else (state.1 ++ [.dir parent], state.2 ++ [parent])

def addDestinationDirectories (destination : Path) (created : List Path) (includeLeaf : Bool) :
    List Mount × List Path :=
  let state := destination.inits.dropLast.foldl addParent ([], created)
  if includeLeaf ∧ destination ≠ [] ∧ destination ∉ state.2 ∧ ¬ usr <+: destination then
    (state.1 ++ [.dir destination], state.2 ++ [destination])
  else state

def baseMounts : List Mount :=
  [.roBind usr usr, .symlink ["usr", "bin"] ["bin"], .symlink ["usr", "lib"] ["lib"],
    .symlink ["usr", "lib64"] ["lib64"], .symlink ["usr", "sbin"] ["sbin"], .proc ["proc"],
    .dev ["dev"], .tmpfs ["tmp"], .tmpfs ["run"], .tmpfs ["home"], .dir ["home", "todo"],
    .dir ["run", "todo"]]

def isolation : List String :=
  ["--die-with-parent", "--unshare-all", "--unshare-user", "--new-session", "--cap-drop", "ALL",
    "--disable-userns", "--assert-userns-disabled", "--clearenv"]

def innerPath (runtimeAlias : PurePath) : String :=
  "/usr/local/sbin:/usr/local/bin:/usr/sbin:/usr/bin:/sbin:/bin:" ++
    text (child runtimeAlias ["bin"])

def environment (runtimeAlias : PurePath) : List (String × String) :=
  [("HOME", "/home/todo"), ("PATH", innerPath runtimeAlias), ("LANG", "C"), ("LC_ALL", "C"),
    ("TMPDIR", "/tmp"), ("XDG_CONFIG_HOME", "/tmp/xdg-config"),
    ("XDG_CACHE_HOME", "/tmp/xdg-cache"), ("XDG_DATA_HOME", "/tmp/xdg-data"),
    ("XDG_STATE_HOME", "/tmp/xdg-state"), ("XDG_RUNTIME_DIR", "/run/todo"),
    ("PYTHONNOUSERSITE", "1"), ("PYTHONDONTWRITEBYTECODE", "1")]

end Mounts

section Building

variable (h : Host)

/-- The resolved paths of a request. -/
structure Places where
  workspace : Path
  cwd : Path
  runtimeAlias : PurePath
  runtimeSource : Path
  helper : Path
  repository : Option Path
  deriving DecidableEq

def Host.places (r : Request) : Except SandboxError Places := do
  let workspace ← h.resolve (PurePath.read r.workspace)
  let cwd ← h.resolve (PurePath.read r.cwd)
  let runtimeAlias := PurePath.read r.runtimePrefix
  if runtimeAlias.absolute = false then
    throw (.value "runtime prefix must be absolute")
  let runtimeSource ← h.resolve runtimeAlias
  let helper ← h.resolve h.file
  let repository ← match r.repositoryRoot with
    | none => pure none
    | some value => some <$> h.resolve (PurePath.read value)
  return ⟨workspace, cwd, runtimeAlias, runtimeSource, helper, repository⟩

def checkPlaces (p : Places) : Except SandboxError Unit := do
  if isDir h.tree p.workspace = false ∨ isDir h.tree p.cwd = false ∨ ¬ p.workspace <+: p.cwd then
    throw (.value "workspace or working directory is invalid")
  if p.repository.any usr.isPrefixOf then
    throw (.value "registered repository is under the exposed system toolchain")
  if p.repository.any p.runtimeSource.isPrefixOf then
    throw (.value "runtime prefix would expose the registered repository")
  if p.runtimeSource <+: p.workspace then
    throw (.value "runtime prefix would expose the writable command workspace")
  if usr <+: p.workspace then
    throw (.value "command workspace is under the exposed system toolchain")

/-- The mounts of the runtime prefix, the helper and the workspace, in this order. -/
def runtimeMounts (p : Places) (created : List Path) : List Mount × List Path :=
  if usr <+: p.runtimeSource then ([], created)
  else
    let state := addDestinationDirectories (abspath p.runtimeAlias.parts) created true
    (state.1 ++ [.roBind p.runtimeSource p.runtimeAlias.parts], state.2)

/-- The helper needs a mount of its own. -/
def Places.bindsHelper (p : Places) : Prop :=
  ¬ usr <+: p.helper ∧ ¬ p.runtimeSource <+: p.helper ∧ ¬ p.workspace <+: p.helper

instance (p : Places) : Decidable p.bindsHelper := by
  unfold Places.bindsHelper
  infer_instance

def helperMounts (p : Places) (created : List Path) : List Mount × List Path :=
  if p.bindsHelper then
    let state := addDestinationDirectories p.helper created false
    (state.1 ++ [.roBind p.helper p.helper], state.2)
  else ([], created)

def mounts (p : Places) : List Mount :=
  let runtime := runtimeMounts p [["home", "todo"], ["run", "todo"]]
  let helper := helperMounts p runtime.2
  let parents := addDestinationDirectories p.workspace helper.2 true
  baseMounts ++ runtime.1 ++ helper.1 ++ parents.1 ++ [.bind p.workspace p.workspace]

/-- The spelling that the command is given; what is built does not hold it. -/
def rewritten (p : Places) (commandPath : PurePath) (executable : Path) :
    Except SandboxError String :=
  if pathIsWithin commandPath p.runtimeAlias then .ok (text commandPath)
  else if p.runtimeSource <+: executable then
    .ok (text (child p.runtimeAlias (executable.drop p.runtimeSource.length)))
  else if usr <+: executable ∨ p.workspace <+: executable then .ok (text ⟨true, executable⟩)
  else .error (.notFound "authored command executable is outside trusted mounts")

/-- The file that is checked and its spelling for the command. -/
def Host.selectExecutable (r : Request) (p : Places) : Except SandboxError (Path × String) := do
  let commandPath ← h.commandPath r p.runtimeAlias
  let executable ← h.resolve commandPath
  if isFile h.tree executable = false ∨ h.canExecute executable = false then
    throw (.value "authored command executable is not a regular executable file")
  let spelling ← rewritten p commandPath executable
  return (executable, spelling)

def Host.bwrap : Except SandboxError String :=
  (h.which "bwrap" systemPath).elim (.error (.notFound "bubblewrap is unavailable")) .ok

def command (bwrap : String) (p : Places) : Command where
  bwrap := bwrap
  isolation := isolation
  mounts := mounts p
  environment := environment p.runtimeAlias
  chdir := p.cwd
  program := [h.executable, "-S", text ⟨true, p.helper⟩, "--sandbox"]

/-- `_sandbox_command`. -/
def sandboxCommand (r : Request) : Except SandboxError Command := do
  let bwrap ← h.bwrap
  let p ← h.places r
  checkPlaces h p
  let _ ← h.selectExecutable r p
  return command h bwrap p

end Building

section Binds

variable {destination : Path} {created : List Path} {includeLeaf : Bool} {p : Places} {h : Host}
  {r : Request} {c : Command}

def OnlyPlaceholders (args : List Mount) : Prop := ∀ m ∈ args, ∃ dest, m = .dir dest

theorem OnlyPlaceholders.concat {args : List Mount} (hargs : OnlyPlaceholders args) (dest : Path) :
    OnlyPlaceholders (args ++ [.dir dest]) := by
  intro m hm
  rcases List.mem_append.mp hm with hm | hm
  · exact hargs m hm
  · exact ⟨dest, List.mem_singleton.mp hm⟩

theorem placeholders_addParents {parents : List Path} {state : List Mount × List Path}
    (hstate : OnlyPlaceholders state.1) : OnlyPlaceholders (parents.foldl addParent state).1 := by
  induction parents generalizing state with
  | nil => exact hstate
  | cons parent parents ih =>
    refine ih ?_
    unfold addParent
    split
    · exact hstate
    · exact hstate.concat parent

theorem placeholders_add :
    OnlyPlaceholders (addDestinationDirectories destination created includeLeaf).1 := by
  have hnil : OnlyPlaceholders [] := fun m hm => nomatch hm
  unfold addDestinationDirectories
  dsimp only
  split
  · exact (placeholders_addParents hnil).concat destination
  · exact placeholders_addParents hnil

theorem filterMap_placeholders {α : Type} {f : Mount → Option α} (hf : ∀ dest, f (.dir dest) = none)
    {args : List Mount} (hargs : OnlyPlaceholders args) : args.filterMap f = [] := by
  refine List.filterMap_eq_nil_iff.mpr fun m hm => ?_
  obtain ⟨dest, rfl⟩ := hargs m hm
  exact hf dest

/-- What the command can write is the workspace. -/
theorem writable_mounts : (mounts p).filterMap Mount.writable = [(p.workspace, p.workspace)] := by
  have hruntime (created : List Path) :
      (runtimeMounts p created).1.filterMap Mount.writable = [] := by
    unfold runtimeMounts
    split
    · rfl
    · dsimp only
      rw [List.filterMap_append, filterMap_placeholders (fun _ => rfl) placeholders_add]
      rfl
  have hhelper (created : List Path) :
      (helperMounts p created).1.filterMap Mount.writable = [] := by
    unfold helperMounts
    split
    · dsimp only
      rw [List.filterMap_append, filterMap_placeholders (fun _ => rfl) placeholders_add]
      rfl
    · rfl
  have hbase : baseMounts.filterMap Mount.writable = [] := rfl
  simp only [mounts, List.filterMap_append, hbase, hruntime, hhelper,
    filterMap_placeholders (f := Mount.writable) (fun _ => rfl) placeholders_add, List.nil_append]
  rfl

/-- What of the host the command can see. -/
theorem bound_mounts : (mounts p).filterMap Mount.bindSource =
    usr :: ((if usr <+: p.runtimeSource then [] else [p.runtimeSource]) ++
      (if p.bindsHelper then [p.helper] else []) ++ [p.workspace]) := by
  have hruntime (created : List Path) : (runtimeMounts p created).1.filterMap Mount.bindSource =
      if usr <+: p.runtimeSource then [] else [p.runtimeSource] := by
    unfold runtimeMounts
    split
    · rfl
    · dsimp only
      rw [List.filterMap_append, filterMap_placeholders (fun _ => rfl) placeholders_add]
      rfl
  have hhelper (created : List Path) : (helperMounts p created).1.filterMap Mount.bindSource =
      if p.bindsHelper then [p.helper] else [] := by
    unfold helperMounts
    split
    · dsimp only
      rw [List.filterMap_append, filterMap_placeholders (fun _ => rfl) placeholders_add]
      rfl
    · rfl
  have hbase : baseMounts.filterMap Mount.bindSource = [usr] := rfl
  simp only [mounts, List.filterMap_append, hbase, hruntime, hhelper,
    filterMap_placeholders (f := Mount.bindSource) (fun _ => rfl) placeholders_add,
    List.append_assoc, List.singleton_append]
  rfl

end Binds

section Confinement

variable {h : Host} {r : Request} {p : Places} {c : Command}

/-- What the checks of an accepted request say. -/
structure Checked (h : Host) (p : Places) : Prop where
  workspace_dir : isDir h.tree p.workspace = true
  cwd_dir : isDir h.tree p.cwd = true
  inside : p.workspace <+: p.cwd
  repository_usr : ∀ repo ∈ p.repository, ¬ usr <+: repo
  repository_runtime : ∀ repo ∈ p.repository, ¬ p.runtimeSource <+: repo
  workspace_runtime : ¬ p.runtimeSource <+: p.workspace
  workspace_usr : ¬ usr <+: p.workspace

theorem any_isPrefixOf {source : Path} {repository : Option Path} :
    repository.any source.isPrefixOf = true ↔ ∃ repo ∈ repository, source <+: repo := by
  cases repository with
  | none => simp
  | some repo => simp

theorem checkPlaces_ok : checkPlaces h p = .ok () ↔ Checked h p := by
  unfold checkPlaces
  simp only [throw, throwThe, MonadExceptOf.throw, bind, pure, Except.pure, error_bind, guard_ok,
    any_isPrefixOf, not_or, not_exists, not_and, Bool.not_eq_false, not_not]
  constructor
  · rintro ⟨⟨hworkspace, hcwd, hinside⟩, husr, hruntime, hunder, hsystem⟩
    exact ⟨hworkspace, hcwd, hinside, husr, hruntime, hunder, by simpa using hsystem⟩
  · rintro ⟨hworkspace, hcwd, hinside, husr, hruntime, hunder, hsystem⟩
    exact ⟨⟨hworkspace, hcwd, hinside⟩, husr, hruntime, hunder, by simpa using hsystem⟩

theorem sandboxCommand_ok : sandboxCommand h r = .ok c ↔ ∃ bwrap, h.bwrap = .ok bwrap ∧
    ∃ p, h.places r = .ok p ∧ Checked h p ∧ (∃ selected, h.selectExecutable r p = .ok selected) ∧
      command h bwrap p = c := by
  unfold sandboxCommand
  simp only [bind, pure, Except.pure, bind_ok, Except.ok.injEq]
  constructor
  · rintro ⟨bwrap, hbwrap, p, hp, ⟨⟩, hchecked, selected, hselected, rfl⟩
    exact ⟨bwrap, hbwrap, p, hp, checkPlaces_ok.mp hchecked, ⟨selected, hselected⟩, rfl⟩
  · rintro ⟨bwrap, hbwrap, p, hp, hchecked, ⟨selected, hselected⟩, rfl⟩
    exact ⟨bwrap, hbwrap, p, hp, (), checkPlaces_ok.mpr hchecked, selected, hselected, rfl⟩

/-- The workspace is all that can be written, no mount shows the registered repository as a whole,
and the workspace and the runtime prefix are apart. -/
structure Confined (c : Command) (workspace runtime : Path) (repository : Option Path) : Prop where
  writable : c.mounts.filterMap Mount.writable = [(workspace, workspace)]
  hidden : ∀ source ∈ c.mounts.filterMap Mount.bindSource, ∀ repo ∈ repository, ¬ source <+: repo
  outside : ¬ workspace <+: runtime
  apart : ¬ runtime <+: workspace

/-- The directions that no check looks at. -/
structure Nested (p : Places) : Prop where
  repository_workspace : ∀ repo ∈ p.repository, ¬ p.workspace <+: repo
  repository_helper : p.bindsHelper → ∀ repo ∈ p.repository, ¬ p.helper <+: repo
  runtime_workspace : ¬ p.workspace <+: p.runtimeSource

theorem bound_command {source : Path} {bwrap : String} :
    source ∈ (command h bwrap p).mounts.filterMap Mount.bindSource ↔ source = usr ∨
      (¬ usr <+: p.runtimeSource ∧ source = p.runtimeSource) ∨
      (p.bindsHelper ∧ source = p.helper) ∨ source = p.workspace := by
  have hbound : (command h bwrap p).mounts.filterMap Mount.bindSource = _ := bound_mounts
  rw [hbound]
  by_cases hruntime : usr <+: p.runtimeSource <;> by_cases hhelper : p.bindsHelper <;>
    simp [hruntime, hhelper]

/-- An accepted request is confined exactly if its workspace holds neither the registered
repository nor the runtime prefix and the supervisor's own file is not the repository. -/
theorem confined_iff (hp : h.places r = .ok p) (hc : sandboxCommand h r = .ok c) :
    Confined c p.workspace p.runtimeSource p.repository ↔ Nested p := by
  obtain ⟨bwrap, -, p', hp', hchecked, -, rfl⟩ := sandboxCommand_ok.mp hc
  obtain rfl : p = p' := Except.ok.inj (hp.symm.trans hp')
  constructor
  · intro hconfined
    exact {
      repository_workspace := hconfined.hidden _ (bound_command.mpr (.inr (.inr (.inr rfl))))
      repository_helper := fun hbinds =>
        hconfined.hidden _ (bound_command.mpr (.inr (.inr (.inl ⟨hbinds, rfl⟩))))
      runtime_workspace := hconfined.outside }
  · intro hnested
    refine ⟨writable_mounts, fun source hsource repo hrepo => ?_, hnested.runtime_workspace,
      hchecked.workspace_runtime⟩
    rcases bound_command.mp hsource with rfl | ⟨-, rfl⟩ | ⟨hbinds, rfl⟩ | rfl
    · exact hchecked.repository_usr repo hrepo
    · exact hchecked.repository_runtime repo hrepo
    · exact hnested.repository_helper hbinds repo hrepo
    · exact hnested.repository_workspace repo hrepo

/-- A host with a toolchain, a virtual environment at the top and one inside a workspace. -/
def demoHost : Host where
  tree := ⟨[(["usr"], .dir), (["usr", "bin"], .dir), (["usr", "bin", "bwrap"], .file),
    (["usr", "bin", "true"], .file), (["opt"], .dir), (["opt", "helper.py"], .file),
    (["venv"], .dir), (["repo"], .dir), (["work"], .dir), (["work", "venv"], .dir)]⟩
  canExecute _ := true
  directory := ["repo"]
  file := ⟨true, ["opt", "helper.py"]⟩
  executable := "/venv/bin/python"

def demoRequest (runtimePrefix repository : String) : Request where
  argv := ["true"]
  workspace := "/work"
  cwd := "/work"
  runtimePrefix := runtimePrefix
  repositoryRoot := some repository
  argv_ne := List.cons_ne_nil _ _

def demoPlaces (runtime repository : Path) : Places where
  workspace := ["work"]
  cwd := ["work"]
  runtimeAlias := ⟨true, runtime⟩
  runtimeSource := runtime
  helper := ["opt", "helper.py"]
  repository := some repository

/-- `bwrap` and `true` are found under `/usr/bin`. -/
theorem demo_accepted {runtimePrefix repository : String} {runtime repo : Path}
    (hp : demoHost.places (demoRequest runtimePrefix repository) = .ok (demoPlaces runtime repo))
    (hchecked : Checked demoHost (demoPlaces runtime repo))
    (hselected : demoHost.selectExecutable (demoRequest runtimePrefix repository)
      (demoPlaces runtime repo) = .ok (["usr", "bin", "true"], "/usr/bin/true")) :
    sandboxCommand demoHost (demoRequest runtimePrefix repository) =
      .ok (command demoHost "/usr/bin/bwrap" (demoPlaces runtime repo)) := by
  have hbwrap : demoHost.bwrap = .ok "/usr/bin/bwrap" := by decide +kernel
  exact sandboxCommand_ok.mpr ⟨_, hbwrap, _, hp, hchecked, ⟨_, hselected⟩, rfl⟩

theorem apart_is_confined : ∃ c, sandboxCommand demoHost (demoRequest "/venv" "/repo") = .ok c ∧
    Confined c ["work"] ["venv"] (some ["repo"]) := by
  have hp : demoHost.places (demoRequest "/venv" "/repo") = .ok (demoPlaces ["venv"] ["repo"]) := by
    decide +kernel
  have hc := demo_accepted hp (checkPlaces_ok.mp (by decide +kernel)) (by decide +kernel)
  refine ⟨_, hc, (confined_iff hp hc).mpr ⟨?_, ?_, ?_⟩⟩
  · simp [demoPlaces]
  · simp [demoPlaces]
  · simp [demoPlaces]

/-- The workspace is the registered repository and holds the runtime prefix: both can be written. -/
theorem repository_is_writable : ∃ c,
    sandboxCommand demoHost (demoRequest "/work/venv" "/work") = .ok c ∧
    ¬ Confined c ["work"] ["work", "venv"] (some ["work"]) := by
  have hp : demoHost.places (demoRequest "/work/venv" "/work") =
      .ok (demoPlaces ["work", "venv"] ["work"]) := by
    decide +kernel
  have hc := demo_accepted hp (checkPlaces_ok.mp (by decide +kernel)) (by decide +kernel)
  refine ⟨_, hc, fun h => ?_⟩
  have hbound : ["work"] ∈ (command demoHost "/usr/bin/bwrap"
      (demoPlaces ["work", "venv"] ["work"])).mounts.filterMap Mount.bindSource :=
    bound_command.mpr (.inr (.inr (.inr rfl)))
  exact h.hidden _ hbound ["work"] rfl List.prefix_rfl

end Confinement

end ProjectControl.Sandbox
