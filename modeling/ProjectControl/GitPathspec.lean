import Mathlib
import ProjectControl.DenyBoundary

/-! The two readings of a deny pattern: git leaves the files out of a search that the pathspec
`:(exclude,glob)<pattern>` covers, and `is_denied` refuses a path that is asked for. -/

set_option autoImplicit false

namespace ProjectControl.Security

section Git

/-- What the documentation of git leaves open: the path that a pathspec is normalised to, and
the characters that a bracket stands for, with the text behind it. -/
structure Git where
  prefixPath : String → Option String
  bracket : List Char → Option ((Char → Bool) × List Char)

inductive GitGlob
  | star
  /-- `**/`, with the number of its stars. -/
  | directories (stars : ℕ)
  /-- `**` at the end. -/
  | everything (stars : ℕ)
  | anyOne
  | one (c : Char)
  | among (set : Char → Bool)
  /-- A bracket that is not closed, or a backslash at the end. -/
  | never

/-- Two stars have a meaning of their own where they are a whole component. -/
def gitGlobs (git : Git) : ℕ → Bool → List Char → List GitGlob
  | 0, _, _ => [.never]
  | _ + 1, _, [] => []
  | n + 1, start, '*' :: rest =>
    let stars := 1 + (rest.takeWhile (· = '*')).length
    let rest := rest.dropWhile (· = '*')
    let plain := List.replicate stars .star ++ gitGlobs git n false rest
    if start && 2 ≤ stars then
      match rest with
      | [] => [.everything stars]
      | '/' :: rest => .directories stars :: gitGlobs git n true rest
      | '\\' :: '/' :: _ => .everything stars :: gitGlobs git n false rest
      | _ => plain
    else plain
  | n + 1, _, '?' :: rest => .anyOne :: gitGlobs git n false rest
  | n + 1, _, '[' :: rest =>
    match git.bracket rest with
    | some (set, rest) => .among set :: gitGlobs git n false rest
    | none => [.never]
  | n + 1, _, '\\' :: rest =>
    match rest with
    | c :: rest => .one c :: gitGlobs git n (c = '/') rest
    | [] => [.never]
  | n + 1, _, c :: rest => .one c :: gitGlobs git n (c = '/') rest

/-- `below` asks for at least one directory at each `**/`; git takes none as well. -/
def gitMatch (below : Bool) : List GitGlob → List Char → Bool
  | [], text => text.isEmpty
  | .star :: rest, text =>
    (List.range ((text.takeWhile (· ≠ '/')).length + 1)).any fun n =>
      gitMatch below rest (text.drop n)
  | .directories _ :: rest, text =>
    (!below && gitMatch below rest text) ||
      text.tails.any fun behind => behind.head? = some '/' && gitMatch below rest behind.tail
  | .everything _ :: rest, text => text.tails.any (gitMatch below rest)
  | .never :: _, _ => false
  | _ :: _, [] => false
  | .anyOne :: rest, c :: text => c ≠ '/' && gitMatch below rest text
  | .one d :: rest, c :: text => c = d && gitMatch below rest text
  | .among set :: rest, c :: text => c ≠ '/' && set c && gitMatch below rest text

variable (git : Git)

def Git.globs (pattern : String) : List GitGlob :=
  gitGlobs git (pattern.length + 1) true pattern.toList

/-- A pathspec covers what it names, what is below that, and what its glob matches. -/
def Git.covers (pattern path : String) : Bool :=
  match git.prefixPath pattern with
  | none => false
  | some pathspec =>
    pathspec = "" || path = pathspec || (pathspec ++ "/").toList.isPrefixOf path.toList ||
      (pathspec.toList.getLast? = some '/' && pathspec.toList.isPrefixOf path.toList) ||
      gitMatch false (git.globs pathspec) path.toList

/-- The pathspecs of `GitReadAdapter.grep`: `:(exclude,glob)` with each pattern of the list that
is not empty and does not start with a dash. -/
def Git.excludes (denyPatterns : List String) (path : String) : Bool :=
  denyPatterns.any fun item =>
    item ≠ "" && item.toList.head? ≠ some '-' && git.covers item path

end Git

section Readings

/-- One pattern without brackets as git and as `fnmatch` read it, part by part. -/
inductive Alike : List GitGlob → List Glob → Prop
  | nil : Alike [] []
  | star {gs : List GitGlob} {ps : List Glob} (h : Alike gs ps) :
      Alike (.star :: gs) (.anything :: ps)
  | directories {gs : List GitGlob} {ps : List Glob} (n : ℕ) (h : Alike gs ps) :
      Alike (.directories (n + 1) :: gs) (List.replicate (n + 1) .anything ++ .one '/' :: ps)
  | everything {gs : List GitGlob} {ps : List Glob} (n : ℕ) (h : Alike gs ps) :
      Alike (.everything (n + 1) :: gs) (List.replicate (n + 1) .anything ++ ps)
  | anyOne {gs : List GitGlob} {ps : List Glob} (h : Alike gs ps) :
      Alike (.anyOne :: gs) (.anyOne :: ps)
  | one {gs : List GitGlob} {ps : List Glob} (c : Char) (h : Alike gs ps) :
      Alike (.one c :: gs) (.one c :: ps)

/-- A text that both readings of a pattern match, part by part, each `**/` with at least one
directory. -/
inductive ReadAlike : List GitGlob → List Glob → List Char → Prop
  | nil : ReadAlike [] [] []
  | star {gs : List GitGlob} {ps : List Glob} {text : List Char} (a : List Char) (ha : '/' ∉ a)
      (h : ReadAlike gs ps text) : ReadAlike (.star :: gs) (.anything :: ps) (a ++ text)
  | directories {gs : List GitGlob} {ps : List Glob} {text : List Char} (n : ℕ) (a : List Char)
      (h : ReadAlike gs ps text) : ReadAlike (.directories (n + 1) :: gs)
        (List.replicate (n + 1) .anything ++ .one '/' :: ps) (a ++ '/' :: text)
  | everything {gs : List GitGlob} {ps : List Glob} {text : List Char} (n : ℕ) (a : List Char)
      (h : ReadAlike gs ps text) :
      ReadAlike (.everything (n + 1) :: gs) (List.replicate (n + 1) .anything ++ ps) (a ++ text)
  | anyOne {gs : List GitGlob} {ps : List Glob} {text : List Char} (c : Char) (hc : c ≠ '/')
      (h : ReadAlike gs ps text) : ReadAlike (.anyOne :: gs) (.anyOne :: ps) (c :: text)
  | one {gs : List GitGlob} {ps : List Glob} {text : List Char} (c : Char)
      (h : ReadAlike gs ps text) : ReadAlike (.one c :: gs) (.one c :: ps) (c :: text)
  | among {gs : List GitGlob} {ps : List Glob} {text : List Char} {set : Char → Bool}
      {negated : Bool} {ranges : List Range} (c : Char) (hc : c ≠ '/') (hset : set c = true)
      (hranges : (Glob.among negated ranges).admits c = true) (h : ReadAlike gs ps text) :
      ReadAlike (.among set :: gs) (.among negated ranges :: ps) (c :: text)

theorem globMatch_anything {ps : List Glob} {a b : List Char} (h : globMatch ps b = true) :
    globMatch (.anything :: ps) (a ++ b) = true := by
  unfold globMatch
  exact List.any_eq_true.mpr ⟨b, (List.mem_tails _ _).mpr (List.suffix_append a b), h⟩

/-- The first of several stars takes what there is, the others take nothing. -/
theorem globMatch_stars {ps : List Glob} {b : List Char} (h : globMatch ps b = true) (n : ℕ)
    (a : List Char) : globMatch (List.replicate (n + 1) .anything ++ ps) (a ++ b) = true := by
  have hempty (n : ℕ) : globMatch (List.replicate n .anything ++ ps) b = true := by
    induction n with
    | zero => exact h
    | succ n ih => exact globMatch_anything (a := []) ih
  rw [List.replicate_succ, List.cons_append]
  exact globMatch_anything (hempty n)

theorem ReadAlike.globMatch {gs : List GitGlob} {ps : List Glob} {text : List Char}
    (h : ReadAlike gs ps text) : globMatch ps text = true := by
  induction h with
  | nil => rfl
  | star a _ _ ih => exact globMatch_anything ih
  | directories n a _ ih =>
    apply globMatch_stars
    simpa [Security.globMatch, Glob.admits] using ih
  | everything n a _ ih => exact globMatch_stars ih n a
  | anyOne c _ _ ih => simpa [Security.globMatch, Glob.admits] using ih
  | one c _ ih => simpa [Security.globMatch, Glob.admits] using ih
  | among c _ _ hranges _ ih =>
    simp only [Security.globMatch, Bool.and_eq_true]
    exact ⟨hranges, ih⟩

/-- A text without brackets and backslashes. -/
def Plain (text : List Char) : Prop := '[' ∉ text ∧ '\\' ∉ text

theorem Plain.tail {c : Char} {text : List Char} (h : Plain (c :: text)) : Plain text :=
  ⟨fun hc => h.1 (List.mem_cons_of_mem c hc), fun hc => h.2 (List.mem_cons_of_mem c hc)⟩

theorem Plain.suffix {a b : List Char} (h : Plain a) (hb : b <:+ a) : Plain b :=
  ⟨fun hc => h.1 (hb.subset hc), fun hc => h.2 (hb.subset hc)⟩

theorem Alike.stars {gs : List GitGlob} {ps : List Glob} (h : Alike gs ps) (n : ℕ) :
    Alike (List.replicate n .star ++ gs) (List.replicate n .anything ++ ps) := by
  induction n with
  | zero => exact h
  | succ n ih => exact Alike.star ih

end Readings

section Paths

/-- A path below the root of a repository, as `PurePath` keeps it. -/
structure RepoPath where
  parts : List String
  nonempty : parts ≠ []
  names : ∀ s ∈ parts, s ≠ "" ∧ s ≠ "." ∧ '/' ∉ s.toList

def RepoPath.text (p : RepoPath) : String := asPosix p.parts

theorem RepoPath.toList_text (p : RepoPath) :
    p.text.toList = List.intercalate ['/'] (p.parts.map String.toList) := by
  unfold RepoPath.text asPosix
  rw [if_neg p.nonempty, String.toList_intercalate]
  rfl

theorem RepoPath.splitOn_text (p : RepoPath) :
    p.text.toList.splitOn '/' = p.parts.map String.toList := by
  rw [p.toList_text]
  apply List.splitOn_intercalate
  · intro s hs
    obtain ⟨name, hname, rfl⟩ := List.mem_map.mp hs
    exact (p.names name hname).2.2
  · simpa using p.nonempty

theorem RepoPath.segments_text (p : RepoPath) :
    (p.text.toList.splitOn '/').map String.ofList = p.parts := by
  rw [p.splitOn_text, List.map_map]
  exact List.map_id'' (fun s => String.ofList_toList) p.parts

theorem splitOn_slash_cons (text : List Char) :
    ('/' :: text).splitOn '/' = [] :: text.splitOn '/' :=
  List.splitOn_append_cons_self [] text

theorem RepoPath.notAbsolute (p : RepoPath) : p.text.toList.head? ≠ some '/' := by
  intro h
  obtain ⟨rest, hrest⟩ := List.head?_eq_some_iff.mp h
  have hparts := p.segments_text
  rw [hrest, splitOn_slash_cons, List.map_cons] at hparts
  have hempty : "" ∈ p.parts := hparts ▸ List.mem_cons_self
  exact (p.names "" hempty).1 rfl

theorem RepoPath.read_text (p : RepoPath) : PurePath.read p.text = ⟨false, p.parts⟩ := by
  unfold PurePath.read
  rw [p.segments_text, decide_eq_false p.notAbsolute]
  congr
  apply List.filter_eq_self.mpr
  intro s hs
  obtain ⟨hempty, hdot, -⟩ := p.names s hs
  simp [hempty, hdot]

/-- No path as `PurePath` keeps it starts with `./`. -/
theorem RepoPath.undotted (p : RepoPath) : ['.', '/'].isPrefixOf p.text.toList = false := by
  by_contra h
  rw [Bool.not_eq_false, List.isPrefixOf_iff_prefix] at h
  obtain ⟨rest, hrest⟩ := h
  have hparts := p.segments_text
  have hsplit : (['.', '/'] ++ rest).splitOn '/' = ['.'] :: rest.splitOn '/' := by
    rw [show ['.', '/'] ++ rest = ['.'] ++ '/' :: rest from rfl, List.splitOn_append_cons_self,
      List.splitOn_eq_singleton (by decide)]
    rfl
  rw [← hrest, hsplit, List.map_cons] at hparts
  have hdot : "." ∈ p.parts := hparts ▸ List.mem_cons_self
  exact (p.names "." hdot).2.1 rfl

theorem RepoPath.isDenied (p : RepoPath) (patterns : List String) :
    isDenied p.parts patterns = anyMatches p.text (defaultDenyPatterns ++ patterns) := by
  have hdotted : ¬ ['.', '/'].isPrefixOf (asPosix p.parts).toList = true :=
    Bool.eq_false_iff.mp p.undotted
  unfold Security.isDenied
  dsimp only
  rw [if_neg hdotted]
  rfl

/-- A pattern that is no pattern at all is an error of `PurePath.match`. -/
def Segmented (pattern : String) : Prop :=
  (PurePath.read pattern).absolute = true ∨ (PurePath.read pattern).parts ≠ []

instance (pattern : String) : Decidable (Segmented pattern) :=
  inferInstanceAs (Decidable (_ ∨ _))

theorem Segmented.valid {pattern : String} (h : Segmented pattern) :
    ¬ (!(PurePath.read pattern).absolute && (PurePath.read pattern).parts.isEmpty) = true := by
  rcases h with habsolute | hparts
  · simp [habsolute]
  · simp [hparts]

theorem Segmented.matches_eq {pattern : String} (h : Segmented pattern) (path : String) :
    ∃ b, (PurePath.read path).matches (PurePath.read pattern) = .ok b ∧
      «matches» path pattern = .ok (b || fnmatchcase path pattern) := by
  have hmatches : ∃ b, (PurePath.read path).matches (PurePath.read pattern) = .ok b := by
    unfold PurePath.matches
    rw [if_neg h.valid]
    dsimp only
    split
    · exact ⟨_, rfl⟩
    · exact ⟨_, rfl⟩
  obtain ⟨b, hb⟩ := hmatches
  refine ⟨b, hb, ?_⟩
  unfold «matches»
  rw [hb]
  cases b with
  | false => rfl
  | true => rfl

end Paths

section Depth

/-- A component of stars, the only thing that stands for more than one segment. -/
def GitGlob.crosses : GitGlob → Bool
  | .directories _ => true
  | .everything _ => true
  | _ => false

def GitGlob.separates : GitGlob → Bool
  | .directories _ => true
  | .one c => c = '/'
  | _ => false

theorem Alike.count {gs : List GitGlob} {ps : List Glob} (h : Alike gs ps) :
    gs.countP GitGlob.separates = ps.countP (· = .one '/') := by
  induction h with
  | nil => rfl
  | star _ ih => simpa [GitGlob.separates] using ih
  | directories n _ ih =>
    rw [List.countP_cons_of_pos rfl, ih]
    simp [List.countP_append, List.countP_replicate]
  | everything n _ ih =>
    simp [GitGlob.separates, ih, List.countP_append, List.countP_replicate]
  | anyOne _ ih => simpa [GitGlob.separates] using ih
  | one c _ ih => simp [GitGlob.separates, ih, List.countP_cons]

end Depth

section Filters

variable (git : Git)

/-- One segment of a path and one of a pattern. -/
def Git.SegmentAlike (name part : String) : Prop :=
  ReadAlike (git.globs part) (Security.globs part.length part.toList) name.toList

/-- The last segments of the path are those of the pattern. -/
def Git.EndsAlike (parts segments : List String) : Prop :=
  ∃ dirs names, segments = dirs ++ names ∧ List.Forall₂ git.SegmentAlike names parts

/-- Git and one of the two comparisons of `_matches` read the path as the same thing: `fnmatch`
takes the pattern as it is written, `PurePath.match` what it is normalised to. -/
def Git.ReadsBelow (item : String) (path : RepoPath) : Prop :=
  (git.prefixPath item = some item ∧
    ReadAlike (git.globs item) (Security.globs item.length item.toList) path.text.toList) ∨
  ((PurePath.read item).absolute = false ∧
    git.prefixPath item = some (asPosix (PurePath.read item).parts) ∧
    git.covers item path.text = true ∧ git.EndsAlike (PurePath.read item).parts path.parts)

variable {git}

theorem Git.EndsAlike.matches {parts : List String} {path : RepoPath}
    (h : git.EndsAlike parts path.parts) (hparts : parts ≠ []) :
    (PurePath.read path.text).matches ⟨false, parts⟩ = .ok true := by
  obtain ⟨dirs, names, hpath, halike⟩ := h
  have hlength : names.reverse.length = parts.reverse.length := by
    rw [List.length_reverse, List.length_reverse, halike.length_eq]
  have hzip : path.parts.reverse.zip parts.reverse = names.reverse.zip parts.reverse := by
    rw [hpath, List.reverse_append]
    conv_lhs => rw [← List.append_nil parts.reverse]
    rw [List.zip_append hlength, List.zip_nil_right, List.append_nil]
  have hall : ∀ e ∈ names.reverse.zip parts.reverse, fnmatchcase e.1 e.2 = true := by
    intro e he
    have hreverse := List.rel_reverse halike
    exact (List.forall₂_zip hreverse he).globMatch
  have hle : parts.length ≤ path.parts.length := by
    rw [hpath, List.length_append, halike.length_eq]
    exact Nat.le_add_left _ _
  rw [path.read_text, PurePath.matches, if_neg (by simpa using hparts)]
  dsimp only
  rw [hzip, List.all_eq_true.mpr hall, if_neg (by decide), decide_eq_true hle]
  rfl

theorem Git.ReadsBelow.matches {item : String} {path : RepoPath} (h : git.ReadsBelow item path)
    (hsegments : Segmented item) : «matches» path.text item = .ok true := by
  obtain ⟨b, hpure, hmatches⟩ := hsegments.matches_eq path.text
  rw [hmatches]
  rcases h with ⟨-, halike⟩ | ⟨habsolute, -, -, hends⟩
  · have hfnmatch : fnmatchcase path.text item = true := halike.globMatch
    rw [hfnmatch, Bool.or_true]
  · have hparts : (PurePath.read item).parts ≠ [] :=
      hsegments.resolve_left (Bool.eq_false_iff.mp habsolute)
    have hitem : PurePath.read item = ⟨false, (PurePath.read item).parts⟩ :=
      congrArg (PurePath.mk · _) habsolute
    rw [hitem, hends.matches hparts] at hpure
    rw [← Except.ok.inj hpure, Bool.true_or]

variable (git)

end Filters

end ProjectControl.Security
