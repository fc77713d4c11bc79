import ProjectControl.FileTree

/-! The files of a registered repository that a request reaches: the deny patterns are matched
with the spelling of the request, and the path is resolved afterwards. -/

set_option autoImplicit false

namespace ProjectControl.Security

open FileTree

section Patterns

inductive Fault
  | security (message : String)
  | value (message : String)
  | os (fault : FileTree.Fault)
  deriving DecidableEq

/-- One member of a bracket of a pattern; a range holds its ends. -/
structure Range where
  low : Char
  high : Char
  deriving DecidableEq

inductive Glob
  | anything
  | anyOne
  | one (c : Char)
  | among (negated : Bool) (ranges : List Range)
  deriving DecidableEq

def ranges : List Char → List Range
  | low :: '-' :: high :: rest => ⟨low, high⟩ :: ranges rest
  | c :: rest => ⟨c, c⟩ :: ranges rest
  | [] => []

/-- The inside of a bracket and what follows it; a `]` that comes first belongs to the inside. -/
def bracket (pattern : List Char) : Option (Bool × List Char × List Char) :=
  let negated := pattern.head? = some '!'
  let inside := if negated then pattern.drop 1 else pattern
  let first := if inside.head? = some ']' then 1 else 0
  let body := inside.take first ++ (inside.drop first).takeWhile (· ≠ ']')
  if body.length < inside.length then
    some (negated, body, inside.drop (body.length + 1))
  else none

def globs : ℕ → List Char → List Glob
  | 0, _ => []
  | _ + 1, [] => []
  | n + 1, '*' :: rest => .anything :: globs n rest
  | n + 1, '?' :: rest => .anyOne :: globs n rest
  | n + 1, '[' :: rest =>
    match bracket rest with
    | some (negated, body, rest) => .among negated (ranges body) :: globs n rest
    | none => .one '[' :: globs n rest
  | n + 1, c :: rest => .one c :: globs n rest

def Glob.admits : Glob → Char → Bool
  | .anything, _ => true
  | .anyOne, _ => true
  | .one c, d => c = d
  | .among negated ranges, d => ranges.any (fun r => r.low ≤ d && d ≤ r.high) != negated

def globMatch : List Glob → List Char → Bool
  | [], text => text.isEmpty
  | .anything :: rest, text => text.tails.any (globMatch rest)
  | _ :: _, [] => false
  | g :: rest, c :: text => g.admits c && globMatch rest text

/-- `*` and `?` match every character, a slash too. -/
def fnmatchcase (name pattern : String) : Bool :=
  globMatch (globs pattern.length pattern.toList) name.toList

/-- A path as text is read: without empty and `.` segments. -/
structure PurePath where
  absolute : Bool
  parts : List String
  deriving DecidableEq

def PurePath.read (text : String) : PurePath where
  absolute := text.toList.head? = some '/'
  parts := ((text.toList.splitOn '/').map String.ofList).filter (fun s => s ≠ "" && s ≠ ".")

/-- Segments are matched from the right, all of them where the pattern starts at the top. -/
def PurePath.matches (path pattern : PurePath) : Except Fault Bool :=
  if !pattern.absolute && pattern.parts.isEmpty then .error (.value "empty pattern")
  else
    let paired := (path.parts.reverse.zip pattern.parts.reverse).all (fun e => fnmatchcase e.1 e.2)
    if pattern.absolute then
      .ok (path.absolute && path.parts.length = pattern.parts.length && paired)
    else .ok (pattern.parts.length ≤ path.parts.length && paired)

def asPosix (parts : List String) : String :=
  if parts = [] then "." else "/".intercalate parts

def «matches» (path pattern : String) : Except Fault Bool :=
  match (PurePath.read path).matches (PurePath.read pattern) with
  | .ok true => .ok true
  | .ok false => .ok (fnmatchcase path pattern)
  | .error e => .error e

def defaultDenyPatterns : List String :=
  [".git/**", ".env", ".env.*", "**/*token*", "**/*secret*", "**/*credential*", "**/*.pem",
    "**/*.key", "**/*.gguf", "**/*.bin", "**/node_modules/**", "**/__pycache__/**"]

/-- The patterns are tried in order up to the first that matches. -/
def anyMatches (path : String) : List String → Except Fault Bool
  | [] => .ok false
  | pattern :: rest =>
    match «matches» path pattern with
    | .ok true => .ok true
    | .ok false => anyMatches path rest
    | .error e => .error e

def isDenied (relativePath extraPatterns : List String) : Except Fault Bool :=
  let normalized := asPosix relativePath
  let normalized :=
    if ['.', '/'].isPrefixOf normalized.toList then String.ofList (normalized.toList.drop 2)
    else normalized
  anyMatches normalized (defaultDenyPatterns ++ extraPatterns)

/-- Only a pattern without a segment is refused, whatever it is tried with. -/
theorem PurePath.matches_total {path pattern : PurePath} {b : Bool}
    (h : path.matches pattern = .ok b) (path' : PurePath) : ∃ b', path'.matches pattern = .ok b' := by
  unfold PurePath.matches at h ⊢
  by_cases hempty : (!pattern.absolute && pattern.parts.isEmpty) = true
  · rw [if_pos hempty] at h
    cases h
  · rw [if_neg hempty]
    dsimp only
    split
    · exact ⟨_, rfl⟩
    · exact ⟨_, rfl⟩

theorem matches_total {path pattern : String} {b : Bool} (h : «matches» path pattern = .ok b)
    (path' : String) : ∃ b', «matches» path' pattern = .ok b' := by
  unfold «matches» at h ⊢
  cases hpath : (PurePath.read path).matches (PurePath.read pattern) with
  | error e =>
    rw [hpath] at h
    cases h
  | ok c =>
    obtain ⟨c', hc'⟩ := PurePath.matches_total hpath (PurePath.read path')
    rw [hc']
    cases c' with
    | false => exact ⟨fnmatchcase path' pattern, rfl⟩
    | true => exact ⟨true, rfl⟩

theorem anyMatches_total {path : String} {patterns : List String}
    (h : anyMatches path patterns = .ok false) (path' : String) :
    ∃ b, anyMatches path' patterns = .ok b := by
  induction patterns with
  | nil => exact ⟨false, rfl⟩
  | cons pattern rest ih =>
    unfold anyMatches at h
    split at h
    · cases h
    · next hmatch =>
      obtain ⟨b, hb⟩ := matches_total hmatch path'
      unfold anyMatches
      rw [hb]
      cases b with
      | false => exact ih h
      | true => exact ⟨true, rfl⟩
    · cases h

theorem isDenied_total {path : List String} {patterns : List String}
    (h : isDenied path patterns = .ok false) (path' : List String) :
    ∃ b, isDenied path' patterns = .ok b :=
  anyMatches_total h _

end Patterns

section Resolution

variable (t : Tree)

def isFile (p : Path) : Bool := t.node? p = some .file

def isDir (p : Path) : Bool := t.node? p = some .dir

/-- The links before the last name are followed, and a path that leads nowhere is no link. -/
def isSymlink (p : Path) : Bool :=
  match p.getLast?, t.realpath [] p.dropLast with
  | some name, .ok dir =>
    match t.child dir name with
    | .ok n => n.isLink
    | .error _ => false
  | _, _ => false

/-- A link of the configuration that is on the way and still leads to its registered target. -/
def liveLinkAllows (resolvedRoot requested resolved : Path) (item : String × Path) : Bool :=
  let link := PurePath.read item.1
  !link.absolute && link.parts.isPrefixOf requested && isSymlink t (resolvedRoot ++ link.parts) &&
    match t.realpath [] item.2, t.realpath [] (resolvedRoot ++ link.parts) with
    | .ok configuredTarget, .ok leads =>
      decide (leads = configuredTarget) &&
        if requested.drop link.parts.length ≠ [] then
          isDir t configuredTarget && configuredTarget.isPrefixOf resolved
        else decide (resolved = configuredTarget)
    | _, _ => false

/-- Deeper links are tried first. -/
def sortedLinks (liveLinks : List (String × Path)) : List (String × Path) :=
  liveLinks.mergeSort
    (fun a b => (PurePath.read b.1).parts.length ≤ (PurePath.read a.1).parts.length)

def resolveRegisteredPath (root : Path) (relative : String) (denyPatterns : List String)
    (liveLinks : List (String × Path)) (requireFile : Bool) : Except Fault Path := do
  let requested := PurePath.read relative
  if requested.absolute ∨ ".." ∈ requested.parts then
    throw (.security "path must be relative and contained in the registered repository")
  if requested.parts = [] then
    throw (.security "path is required")
  if ← isDenied requested.parts denyPatterns then
    throw (.security "path is denied")
  let resolvedRoot ← (t.realpath [] root).mapError .os
  let resolved ← (t.realpath [] (resolvedRoot ++ requested.parts)).mapError (fun e =>
    if e = .missing then .security "path is unavailable or escapes the registered repository"
    else .os e)
  if ¬ resolvedRoot <+: resolved ∧ ¬ (sortedLinks liveLinks).any
      (liveLinkAllows t resolvedRoot requested.parts resolved) then
    throw (.security "path is unavailable or escapes the registered repository")
  if requireFile && !isFile t resolved then
    throw (.security "path is not a regular file")
  return resolved

variable {t} {root r p : Path} {relative : String} {denyPatterns : List String}
  {liveLinks : List (String × Path)} {requireFile : Bool}

/-- A request that is not refused for its own spelling. -/
structure Admitted (relative : String) (denyPatterns : List String) : Prop where
  notAbsolute : (PurePath.read relative).absolute = false
  contained : ".." ∉ (PurePath.read relative).parts
  given : (PurePath.read relative).parts ≠ []
  allowed : isDenied (PurePath.read relative).parts denyPatterns = .ok false

/-- The outcome of a request once the root is resolved. -/
structure Resolved (t : Tree) (r : Path) (relative : String) (denyPatterns : List String)
    (liveLinks : List (String × Path)) (requireFile : Bool) (p : Path) : Prop where
  admitted : Admitted relative denyPatterns
  leads : t.Leads [] (r ++ (PurePath.read relative).parts) p
  within : r <+: p ∨ (sortedLinks liveLinks).any
    (liveLinkAllows t r (PurePath.read relative).parts p)
  file : requireFile → isFile t p

theorem guard_ok {ε α : Type} {c : Prop} [Decidable c] {e : ε} {x : Except ε α} {a : α} :
    (if c then .error e else x) = .ok a ↔ ¬ c ∧ x = .ok a := by
  by_cases hc : c
  · simp [hc]
  · simp [hc]

theorem bind_ok {ε α β : Type} {x : Except ε α} {f : α → Except ε β} {b : β} :
    x.bind f = .ok b ↔ ∃ a, x = .ok a ∧ f a = .ok b := by
  cases x with
  | ok a => simp [Except.bind]
  | error e => simp [Except.bind]

theorem mapError_ok {ε ε' α : Type} {x : Except ε α} {f : ε → ε'} {a : α} :
    x.mapError f = .ok a ↔ x = .ok a := by
  cases x with
  | ok a => simp [Except.mapError]
  | error e => simp [Except.mapError]

theorem error_bind {ε α β : Type} {e : ε} {f : α → Except ε β} :
    (Except.error e).bind f = .error e := rfl

theorem resolve_ok (hroot : t.Leads [] root r) :
    resolveRegisteredPath t root relative denyPatterns liveLinks requireFile = .ok p ↔
      Resolved t r relative denyPatterns liveLinks requireFile p := by
  have hreal := realpath_eq_ok.mpr hroot
  unfold resolveRegisteredPath
  simp only [throw, throwThe, MonadExceptOf.throw, bind, pure, Except.pure, error_bind, guard_ok,
    bind_ok, mapError_ok, realpath_eq_ok, Except.ok.injEq]
  constructor
  · rintro ⟨hrelative, hgiven, denied, hdenied, hallowed, r', hr', p', hp', hwithin, hfile, rfl⟩
    obtain rfl : r' = r := hr'.unique hroot
    obtain rfl : denied = false := by simpa using hallowed
    push Not at hrelative
    refine ⟨⟨by simpa using hrelative.1, hrelative.2, hgiven, hdenied⟩, hp', ?_, ?_⟩
    · exact or_iff_not_imp_left.mpr (fun hnot => by_contra (fun hlinks => hwithin ⟨hnot, hlinks⟩))
    · intro hrequire
      simpa [hrequire] using hfile
  · rintro ⟨⟨habsolute, hcontained, hgiven, hallowed⟩, hleads, hwithin, hfile⟩
    refine ⟨?_, hgiven, false, hallowed, by simp, r, hroot, p, hleads, ?_, ?_, rfl⟩
    · rintro (h | h)
      · rw [habsolute] at h
        cases h
      · exact hcontained h
    · exact fun hnot => hwithin.elim hnot.1 hnot.2
    · cases hrequire : requireFile with
      | false => simp
      | true => simp [hfile hrequire]

section Boundary

/-- Every place inside the root that the request is answered with is matched by no pattern. -/
def KeepsBoundary (t : Tree) (root : Path) (relative : String) (denyPatterns : List String)
    (liveLinks : List (String × Path)) (requireFile : Bool) : Prop :=
  ∀ r p q, t.realpath [] root = .ok r →
    resolveRegisteredPath t root relative denyPatterns liveLinks requireFile = .ok p →
    p = r ++ q → isDenied q denyPatterns = .ok false

/-- The request spells an admitted path with a link on it, and the links lead to a denied
place inside the root. -/
structure Bypasses (t : Tree) (root : Path) (relative : String) (denyPatterns : List String)
    (requireFile : Bool) (r q : Path) : Prop where
  root : t.Leads [] root r
  admitted : Admitted relative denyPatterns
  linked : ∃ before name target, before ++ [name] <+: (PurePath.read relative).parts ∧
    t.node? (r ++ before ++ [name]) = some (.link target)
  leads : t.Leads r (PurePath.read relative).parts (r ++ q)
  file : requireFile → isFile t (r ++ q)
  denied : isDenied q denyPatterns = .ok true

/-- A request leads to a denied place of the repository exactly if a link on its way does. -/
theorem boundary_iff : KeepsBoundary t root relative denyPatterns liveLinks requireFile ↔
    ∀ r q, ¬ Bypasses t root relative denyPatterns requireFile r q := by
  constructor
  · intro hkeeps r q h
    have hresolved : Resolved t r relative denyPatterns liveLinks requireFile (r ++ q) :=
      ⟨h.admitted, (h.root.settled settled_nil).leads_append.mpr h.leads,
        Or.inl (List.prefix_append r q), h.file⟩
    have hallowed := hkeeps r (r ++ q) q (realpath_eq_ok.mpr h.root)
      ((resolve_ok h.root).mpr hresolved) rfl
    rw [h.denied] at hallowed
    cases hallowed
  · rintro hnot r p q hroot hp rfl
    have hroot := realpath_eq_ok.mp hroot
    have hresolved := (resolve_ok hroot).mp hp
    have hleads := (hroot.settled settled_nil).leads_append.mp hresolved.leads
    obtain ⟨b, hb⟩ := isDenied_total hresolved.admitted.allowed q
    cases b with
    | false => exact hb
    | true =>
      refine absurd ⟨hroot, hresolved.admitted, ?_, hleads, hresolved.file, hb⟩ (hnot r q)
      -- without a link the request is answered with the place that it spells
      by_contra hunlinked
      have hplain : Unlinked t r (PurePath.read relative).parts := by
        intro before name hbefore n hn
        cases n with
        | link target => exact absurd ⟨before, name, target, hbefore, hn⟩ hunlinked
        | file => rfl
        | dir => rfl
        | other => rfl
      have hspelled := hplain.leads hresolved.admitted.contained hleads
      have hallowed := hresolved.admitted.allowed
      rw [← List.append_cancel_left hspelled, hb] at hallowed
      cases hallowed

/-- A repository with a denied file and a link to it under another name. -/
def linkedTree : Tree where
  entries := [(["repo"], .dir), (["repo", ".env"], .file),
    (["repo", "notes.txt"], .link ⟨false, [".env"]⟩)]

theorem link_reaches_env :
    ¬ KeepsBoundary linkedTree ["repo"] "notes.txt" [] [] true := by
  intro h
  have hanswer : resolveRegisteredPath linkedTree ["repo"] "notes.txt" [] [] true =
      .ok ["repo", ".env"] := by decide +kernel
  have hroot : linkedTree.realpath [] ["repo"] = .ok ["repo"] := by decide +kernel
  have hdenied : isDenied [".env"] [] = .ok true := by decide +kernel
  have hallowed := h ["repo"] ["repo", ".env"] [".env"] hroot hanswer rfl
  rw [hdenied] at hallowed
  cases hallowed

end Boundary

end Resolution

end ProjectControl.Security
