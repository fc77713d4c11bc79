import Mathlib
import ProjectControl.DenyBoundary
import ProjectControl.FirstCuts

/-! What the terminal sandbox hides of a repository: the walk over its tree that collects
the denied paths. -/

set_option autoImplicit false

namespace ProjectControl.Terminal

open Security FirstCuts

section Walk

/-- `TERMINAL_PRIVATE_ROOTS`. -/
def privateRoots : List String := [".git", ".todo-orchestrator", ".ctxpp"]

/-- `MAX_SANDBOX_ENTRIES`. -/
def maxSandboxEntries : ℕ := 100000

inductive Failure where
  | repositoryTooLarge | denySetTooLarge
  | pattern (fault : Security.Fault)
deriving DecidableEq

/-- An entry of a directory; a link knows whether it leads to a directory. -/
inductive Entry where
  | file
  | link (toDirectory : Bool)
  | directory (children : List (String × Entry))

/-- `DirEntry.is_dir()`, which follows a link. -/
def Entry.isDir : Entry → Bool
  | .file => false
  | .link toDirectory => toDirectory
  | .directory _ => true

/-- The path below the root, without links on the way. -/
inductive Entry.At : Entry → List String → Entry → Prop
  | child {children : List (String × Entry)} {name : String} {entry : Entry}
      (h : (name, entry) ∈ children) : At (.directory children) [name] entry
  | deeper {children : List (String × Entry)} {name : String} {entry found : Entry}
      {path : List String} (h : (name, entry) ∈ children) (hrest : entry.At path found) :
      At (.directory children) (name :: path) found

/-- A masked path, and whether it is masked as a directory. -/
abbrev Mask : Type := List String × Bool

variable (patterns : List String)

def isTerminalDenied (relative : List String) : Except Security.Fault Bool :=
  match relative with
  | first :: _ => if first ∈ privateRoots then .ok true else isDenied relative patterns
  | [] => isDenied relative patterns

/-- The test of the walk for a name in the directory `current`. -/
def isMasked (current : List String) (name : String) : Except Failure Bool :=
  if name ∈ privateRoots then .ok true
  else (isTerminalDenied patterns (current ++ [name])).mapError .pattern

/-- One loop of the walk over the names of a directory: what is masked and what is kept. -/
def sift (current : List String) (directory : Bool) :
    List String → Except Failure (List Mask × List String)
  | [] => .ok ([], [])
  | name :: rest => do
    let masked ← isMasked patterns current name
    let (masks, kept) ← sift current directory rest
    return if masked then ((current ++ [name], directory) :: masks, kept) else (masks, name :: kept)

/-- What the walk has collected, and the entries that it has seen. -/
structure Collected where
  masks : List Mask := []
  entries : ℕ := 0

def namesOf (directory : Bool) (children : List (String × Entry)) : List String :=
  (children.filter (fun child => child.2.isDir = directory)).map Prod.fst

/-- The body of the loop over `os.walk`: the directory's own names. -/
def enter (current : List String) (children : List (String × Entry)) (seen : Collected) :
    Except Failure (Collected × List String) :=
  let directories := namesOf true children
  let files := namesOf false children
  let entries := seen.entries + directories.length + files.length
  if maxSandboxEntries < entries then .error .repositoryTooLarge
  else do
    let (hidden, kept) ← sift patterns current true directories
    let (hiddenFiles, _) ← sift patterns current false files
    let masks := seen.masks ++ hidden ++ hiddenFiles
    if 256 < masks.length then .error .denySetTooLarge
    else .ok ({ masks, entries }, kept)

mutual

/-- `os.walk` from the top down, which goes into the directories that are kept. -/
def walk (current : List String) : Entry → Collected → Except Failure Collected
  | .directory children, seen => do
    let (seen, kept) ← enter patterns current children seen
    walkKept current kept children seen
  | .file, seen | .link _, seen => .ok seen

def walkKept (current kept : List String) :
    List (String × Entry) → Collected → Except Failure Collected
  | [], seen => .ok seen
  | (name, entry) :: rest, seen =>
    if name ∈ kept then do
      let seen ← walk (current ++ [name]) entry seen
      walkKept current kept rest seen
    else walkKept current kept rest seen

end

/-- `_deny_masks` of a repository. -/
def denyMasks (root : Entry) : Except Failure (List Mask) := do
  let seen ← walk patterns [] root {}
  return seen.masks.insertionSort (fun a b => asPosix a.1 ≤ asPosix b.1)

end Walk

section Denied

variable {patterns current path : List String} {name : String} {masked : Bool}

/-- A path that the walk masks where it meets it. -/
def Denied (patterns path : List String) : Prop :=
  (∃ name ∈ path.getLast?, name ∈ privateRoots) ∨ isTerminalDenied patterns path = .ok true

theorem isMasked_iff (h : isMasked patterns current name = .ok masked) :
    masked = true ↔ Denied patterns (current ++ [name]) := by
  have hlast : (current ++ [name]).getLast? = some name := List.getLast?_concat
  unfold isMasked at h
  split_ifs at h with hroot
  · cases h
    exact iff_of_true rfl (.inl ⟨name, hlast, hroot⟩)
  · have hdenied : isTerminalDenied patterns (current ++ [name]) = .ok masked := mapError_ok.mp h
    have hname : ¬∃ other ∈ (current ++ [name]).getLast?, other ∈ privateRoots := by
      rintro ⟨other, hother, hmem⟩
      rw [hlast] at hother
      exact hroot (Option.some.inj hother ▸ hmem)
    rw [Denied, hdenied, Except.ok.injEq]
    exact (or_iff_right hname).symm

/-- The loop over the names masks those that are denied and keeps the others. -/
theorem mem_sift {directory : Bool} {names kept : List String} {masks : List Mask}
    (h : sift patterns current directory names = .ok (masks, kept)) :
    (∀ mask : Mask, mask ∈ masks ↔ ∃ name ∈ names,
        Denied patterns (current ++ [name]) ∧ mask = (current ++ [name], directory)) ∧
      ∀ name, name ∈ kept ↔ name ∈ names ∧ ¬Denied patterns (current ++ [name]) := by
  induction names generalizing masks kept with
  | nil =>
    cases h
    simp
  | cons name names ih =>
    obtain ⟨masked, hmasked, h⟩ := bind_ok.mp h
    obtain ⟨⟨masks', kept'⟩, hrest, h⟩ := bind_ok.mp h
    obtain ⟨hmasks, hkept⟩ := ih hrest
    have hname := isMasked_iff hmasked
    cases masked with
    | true =>
      cases h
      have hdenied : Denied patterns (current ++ [name]) := hname.mp rfl
      refine ⟨fun mask => ?_, fun other => ?_⟩
      · rw [List.mem_cons, hmasks, List.exists_mem_cons_iff]
        exact or_congr_left ⟨fun heq => ⟨hdenied, heq⟩, fun heq => heq.2⟩
      · rw [hkept, List.mem_cons]
        constructor
        · exact fun hother => ⟨.inr hother.1, hother.2⟩
        · rintro ⟨rfl | hmem, hother⟩
          · exact absurd hdenied hother
          · exact ⟨hmem, hother⟩
    | false =>
      cases h
      have hallowed : ¬Denied patterns (current ++ [name]) := fun hd => nomatch hname.mpr hd
      refine ⟨fun mask => ?_, fun other => ?_⟩
      · rw [hmasks, List.exists_mem_cons_iff]
        exact (or_iff_right fun hd => hallowed hd.1).symm
      · rw [List.mem_cons, hkept, List.mem_cons]
        constructor
        · rintro (rfl | hmem)
          · exact ⟨.inl rfl, hallowed⟩
          · exact ⟨.inr hmem.1, hmem.2⟩
        · rintro ⟨rfl | hmem, hother⟩
          · exact .inl rfl
          · exact .inr ⟨hmem, hother⟩

theorem mem_namesOf {directory : Bool} {children : List (String × Entry)} :
    name ∈ namesOf directory children ↔
      ∃ entry, (name, entry) ∈ children ∧ entry.isDir = directory := by
  rw [namesOf, List.mem_map]
  constructor
  · rintro ⟨⟨_, entry⟩, hmem, rfl⟩
    rw [List.mem_filter] at hmem
    exact ⟨entry, hmem.1, of_decide_eq_true hmem.2⟩
  · rintro ⟨entry, hmem, hdir⟩
    exact ⟨(name, entry), List.mem_filter.mpr ⟨hmem, decide_eq_true hdir⟩, rfl⟩

/-- What one round of the walk adds, and the directories that it goes on with. -/
theorem mem_enter {children : List (String × Entry)} {seen seen' : Collected}
    {kept : List String} (h : enter patterns current children seen = .ok (seen', kept)) :
    (∀ mask : Mask, mask ∈ seen'.masks ↔ mask ∈ seen.masks ∨
        ∃ name entry, (name, entry) ∈ children ∧ Denied patterns (current ++ [name]) ∧
          mask = (current ++ [name], entry.isDir)) ∧
      ∀ name, name ∈ kept ↔ (∃ entry, (name, entry) ∈ children ∧ entry.isDir = true) ∧
        ¬Denied patterns (current ++ [name]) := by
  obtain ⟨-, h⟩ := guard_ok.mp h
  obtain ⟨⟨hidden, kept'⟩, hdirectories, h⟩ := bind_ok.mp h
  obtain ⟨⟨hiddenFiles, others⟩, hfiles, h⟩ := bind_ok.mp h
  obtain ⟨-, h⟩ := guard_ok.mp h
  cases h
  obtain ⟨hmasks, hkept⟩ := mem_sift hdirectories
  obtain ⟨hmasks', -⟩ := mem_sift hfiles
  refine ⟨fun mask => ?_, fun name => ?_⟩
  · rw [List.mem_append, List.mem_append, or_assoc, hmasks, hmasks']
    refine or_congr_right ⟨?_, ?_⟩
    · rintro (⟨name, hname, hdenied, rfl⟩ | ⟨name, hname, hdenied, rfl⟩)
      · obtain ⟨entry, hentry, hdir⟩ := mem_namesOf.mp hname
        exact ⟨name, entry, hentry, hdenied, by rw [hdir]⟩
      · obtain ⟨entry, hentry, hdir⟩ := mem_namesOf.mp hname
        exact ⟨name, entry, hentry, hdenied, by rw [hdir]⟩
    · rintro ⟨name, entry, hentry, hdenied, rfl⟩
      cases hdir : entry.isDir with
      | true => exact .inl ⟨name, mem_namesOf.mpr ⟨entry, hentry, hdir⟩, hdenied, rfl⟩
      | false => exact .inr ⟨name, mem_namesOf.mpr ⟨entry, hentry, hdir⟩, hdenied, rfl⟩
  · rw [hkept, mem_namesOf]

end Denied

section Tree

variable {patterns current path kept : List String} {name : String} {entry found : Entry}
  {children : List (String × Entry)} {seen seen' : Collected}

theorem Entry.At.ne_nil (h : entry.At path found) : path ≠ [] := by
  cases h with
  | child => exact List.cons_ne_nil _ _
  | deeper => exact List.cons_ne_nil _ _

/-- Only a directory has something below it. -/
theorem Entry.At.isDir (h : entry.At path found) : entry.isDir = true := by
  cases h with
  | child => rfl
  | deeper => rfl

theorem at_directory : (Entry.directory children).At path found ↔
    ∃ name entry, (name, entry) ∈ children ∧
      (path = [name] ∧ found = entry ∨ ∃ rest, path = name :: rest ∧ entry.At rest found) := by
  constructor
  · intro h
    cases h with
    | child h => exact ⟨_, _, h, .inl ⟨rfl, rfl⟩⟩
    | deeper h hrest => exact ⟨_, _, h, .inr ⟨_, rfl, hrest⟩⟩
  · rintro ⟨name, entry, h, ⟨rfl, rfl⟩ | ⟨rest, rfl, hrest⟩⟩
    · exact .child h
    · exact .deeper h hrest

/-- Where the walk stops on its way from `current`. -/
def Stops (patterns current : List String) : List String → Prop :=
  First (fun path => Denied patterns (current ++ path))

theorem stops_single : Stops patterns current [name] ↔ Denied patterns (current ++ [name]) :=
  first_single

theorem stops_cons (h : path ≠ []) : Stops patterns current (name :: path) ↔
    ¬Denied patterns (current ++ [name]) ∧ Stops patterns (current ++ [name]) path := by
  obtain ⟨next, rest, rfl⟩ := List.exists_cons_of_ne_nil h
  have hshift : (fun p => Denied patterns (current ++ name :: p)) =
      fun p => Denied patterns (current ++ [name] ++ p) := by
    funext p
    rw [List.append_assoc, List.singleton_append]
  rw [Stops, first_cons, hshift, Stops]

/-- The masks of an entry: the paths below it on which the walk stops first. -/
def Masks (patterns current : List String) (entry : Entry) (mask : Mask) : Prop :=
  ∃ path found, entry.At path found ∧ Stops patterns current path ∧
    mask = (current ++ path, found.isDir)

/-- The same behind those of its children that the walk goes into. -/
def KeptMasks (patterns current kept : List String) (children : List (String × Entry))
    (mask : Mask) : Prop :=
  ∃ name entry, (name, entry) ∈ children ∧ name ∈ kept ∧
    Masks patterns (current ++ [name]) entry mask

theorem masks_directory (hkept : ∀ name, name ∈ kept ↔
      (∃ entry, (name, entry) ∈ children ∧ entry.isDir = true) ∧
        ¬Denied patterns (current ++ [name])) (mask : Mask) :
    Masks patterns current (.directory children) mask ↔
      (∃ name entry, (name, entry) ∈ children ∧ Denied patterns (current ++ [name]) ∧
        mask = (current ++ [name], entry.isDir)) ∨
      KeptMasks patterns current kept children mask := by
  constructor
  · rintro ⟨path, found, hat, hstops, rfl⟩
    obtain ⟨name, entry, hmem, ⟨rfl, rfl⟩ | ⟨rest, rfl, hrest⟩⟩ := at_directory.mp hat
    · exact .inl ⟨name, found, hmem, stops_single.mp hstops, rfl⟩
    · obtain ⟨hallowed, hstops⟩ := (stops_cons hrest.ne_nil).mp hstops
      have hname : name ∈ kept := (hkept name).mpr ⟨⟨entry, hmem, hrest.isDir⟩, hallowed⟩
      refine .inr ⟨name, entry, hmem, hname, rest, found, hrest, hstops, ?_⟩
      rw [List.append_assoc, List.singleton_append]
  · rintro (⟨name, entry, hmem, hdenied, rfl⟩ | ⟨name, entry, hmem, hname, hmask⟩)
    · exact ⟨[name], entry, .child hmem, stops_single.mpr hdenied, rfl⟩
    · obtain ⟨rest, found, hrest, hstops, rfl⟩ := hmask
      refine ⟨name :: rest, found, .deeper hmem hrest, ?_, ?_⟩
      · exact (stops_cons hrest.ne_nil).mpr ⟨((hkept name).mp hname).2, hstops⟩
      · rw [List.append_assoc, List.singleton_append]

theorem keptMasks_cons (mask : Mask) :
    KeptMasks patterns current kept ((name, entry) :: children) mask ↔
      name ∈ kept ∧ Masks patterns (current ++ [name]) entry mask ∨
        KeptMasks patterns current kept children mask := by
  constructor
  · rintro ⟨other, found, hmem, hother, hmask⟩
    rcases List.mem_cons.mp hmem with heq | hmem
    · cases heq
      exact .inl ⟨hother, hmask⟩
    · exact .inr ⟨other, found, hmem, hother, hmask⟩
  · rintro (⟨hname, hmask⟩ | ⟨other, found, hmem, hother, hmask⟩)
    · exact ⟨name, entry, List.mem_cons_self, hname, hmask⟩
    · exact ⟨other, found, List.mem_cons_of_mem _ hmem, hother, hmask⟩

mutual

/-- The walk adds the masks of the entry, by induction over the tree. -/
theorem mem_walk (current : List String) (seen seen' : Collected) : (entry : Entry) →
    walk patterns current entry seen = .ok seen' → ∀ mask : Mask,
      (mask ∈ seen'.masks ↔ mask ∈ seen.masks ∨ Masks patterns current entry mask)
  | .directory children, h, mask => by
    rw [walk] at h
    obtain ⟨⟨entered, kept⟩, henter, h⟩ := bind_ok.mp h
    obtain ⟨hmasks, hkept⟩ := mem_enter henter
    have hrest := mem_walkKept current kept entered seen' children h mask
    rw [hrest, hmasks, or_assoc, masks_directory hkept]
  | .file, h, mask => by
    rw [walk] at h
    cases h
    exact (or_iff_left fun ⟨path, found, hat, _⟩ => nomatch hat).symm
  | .link toDirectory, h, mask => by
    rw [walk] at h
    cases h
    exact (or_iff_left fun ⟨path, found, hat, _⟩ => nomatch hat).symm

theorem mem_walkKept (current kept : List String) (seen seen' : Collected) :
    (children : List (String × Entry)) →
    walkKept patterns current kept children seen = .ok seen' → ∀ mask : Mask,
      (mask ∈ seen'.masks ↔ mask ∈ seen.masks ∨ KeptMasks patterns current kept children mask)
  | [], h, mask => by
    rw [walkKept] at h
    cases h
    exact (or_iff_left fun ⟨name, entry, hmem, _⟩ => nomatch hmem).symm
  | (name, entry) :: rest, h, mask => by
    rw [walkKept] at h
    rw [keptMasks_cons]
    split_ifs at h with hname
    · obtain ⟨entered, henter, h⟩ := bind_ok.mp h
      have hentry := mem_walk (current ++ [name]) seen entered entry henter mask
      have hrest := mem_walkKept current kept entered seen' rest h mask
      rw [hrest, hentry, or_assoc, and_iff_right hname]
    · have hrest := mem_walkKept current kept seen seen' rest h mask
      have hskip : ¬(name ∈ kept ∧ Masks patterns (current ++ [name]) entry mask) :=
        fun hinto => hname hinto.1
      rw [hrest, or_iff_right hskip]

end

end Tree

section Theorem

variable {patterns : List String} {root : Entry} {masks : List Mask}

/-- `below` lies in the directory `above`. -/
def Below (below above : List String) : Prop := above <+: below ∧ above ≠ below

/-- The masks hide all that is denied, and nothing else. -/
structure Complete (patterns : List String) (root : Entry) (masks : List Mask) : Prop where
  covered : ∀ path found, root.At path found → Denied patterns path →
    (path, found.isDir) ∈ masks ∨ ∃ above, (above, true) ∈ masks ∧ Below path above
  apart : ∀ mask ∈ masks, ∀ above, (above, true) ∈ masks → ¬Below mask.1 above
  denied : ∀ mask ∈ masks, Denied patterns mask.1 ∧
    ∃ found, root.At mask.1 found ∧ found.isDir = mask.2

/-- The masks are the entries that are denied and lie in no directory that is. -/
theorem mem_denyMasks (h : denyMasks patterns root = .ok masks) (mask : Mask) :
    mask ∈ masks ↔ ∃ found, root.At mask.1 found ∧ First (Denied patterns) mask.1 ∧
      found.isDir = mask.2 := by
  obtain ⟨seen, hwalk, h⟩ := bind_ok.mp h
  cases h
  rw [List.mem_insertionSort, mem_walk [] {} seen root hwalk mask]
  constructor
  · rintro (hnone | ⟨path, found, hat, hstops, rfl⟩)
    · exact absurd hnone List.not_mem_nil
    · exact ⟨found, hat, hstops, rfl⟩
  · rintro ⟨found, hat, hfirst, hdir⟩
    exact .inr ⟨mask.1, found, hat, hfirst, by rw [List.nil_append, hdir]⟩

/-- What lies on the way to an entry is a directory. -/
theorem Entry.At.above {entry found : Entry} {path above : List String}
    (h : entry.At path found) (habove : above <+: path) (hne : above ≠ []) :
    ∃ passed, entry.At above passed ∧ (above ≠ path → passed.isDir = true) := by
  induction h generalizing above with
  | child hmem =>
    rcases List.prefix_cons_iff.mp habove with rfl | ⟨rest, rfl, hrest⟩
    · exact absurd rfl hne
    · obtain rfl := List.prefix_nil.mp hrest
      exact ⟨_, .child hmem, fun hproper => absurd rfl hproper⟩
  | @deeper children name entry found path hmem hrest ih =>
    rcases List.prefix_cons_iff.mp habove with rfl | ⟨rest, rfl, hprefix⟩
    · exact absurd rfl hne
    · by_cases hnil : rest = []
      · subst hnil
        exact ⟨entry, .child hmem, fun _ => hrest.isDir⟩
      · obtain ⟨passed, hpassed, hdir⟩ := ih hprefix hnil
        exact ⟨passed, .deeper hmem hpassed, fun hproper => hdir fun heq => hproper (by rw [heq])⟩

/-- Whenever the masks are made, they are complete. -/
theorem masks_complete (h : denyMasks patterns root = .ok masks) :
    Complete patterns root masks where
  covered path found hat hdenied := by
    obtain ⟨above, habove, hne, hfirst⟩ := exists_first (Denied patterns) hdenied hat.ne_nil
    obtain ⟨passed, hpassed, hdir⟩ := hat.above habove hne
    by_cases heq : above = path
    · subst heq
      exact .inl ((mem_denyMasks h _).mpr ⟨found, hat, hfirst, rfl⟩)
    · exact .inr ⟨above, (mem_denyMasks h _).mpr ⟨passed, hpassed, hfirst, hdir heq⟩, habove, heq⟩
  apart mask hmask above habove hbelow := by
    obtain ⟨-, -, hfirst, -⟩ := (mem_denyMasks h mask).mp hmask
    obtain ⟨_, hat, habove, -⟩ := (mem_denyMasks h _).mp habove
    exact hbelow.2 (hfirst.apart habove hat.ne_nil hbelow.1)
  denied mask hmask := by
    obtain ⟨found, hat, hfirst, hdir⟩ := (mem_denyMasks h mask).mp hmask
    exact ⟨hfirst.1, found, hat, hdir⟩

/-- A repository with its own store, a key below a private name and a link. -/
def smallRepository : Entry := .directory [
  (".git", .directory [("config", .file)]),
  ("src", .directory [("deploy.key", .file), ("main.py", .file)]),
  ("shared", .link true)]

theorem smallRepository_masks_complete :
    Complete [] smallRepository [([".git"], true), (["src", "deploy.key"], false)] :=
  masks_complete (by decide +kernel)

end Theorem

end ProjectControl.Terminal
