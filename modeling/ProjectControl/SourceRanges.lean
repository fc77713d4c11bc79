import Mathlib
import ProjectControl.BuildIdentity
import ProjectControl.DenyBoundary
import ProjectControl.Lines
import ProjectControl.OutputRedaction

/-! A range of lines of one file: read from the working tree, or from the blob of a revision. -/

set_option autoImplicit false

namespace ProjectControl.Source

open FileTree Lines Security
open Redaction (redactText)

section Reads

inductive ReadFault
  | path (fault : Security.Fault)
  | security (message : String)
  | value (message : String)
  | command (message : String)

/-- A working tree whose files hold texts, and what `git show` gives of the selected revision. -/
structure Repository where
  tree : Tree
  root : FileTree.Path
  liveLinks : List (String × FileTree.Path)
  deny : List String
  contents : FileTree.Path → List Char
  gitShow : String → Except ReadFault (List Char)
  casefold : String → String

/-- What both reads put into the result of a target. -/
structure Excerpt where
  lineStart : ℕ
  lineEnd : ℕ
  excerpt : String
  deriving DecidableEq

def sourceTextSuffixes : List String :=
  [".md", ".markdown", ".rst", ".toml", ".yaml", ".yml", ".json", ".cmake", ".sh", ".bash", ".zsh",
    ".py", ".c", ".cc", ".cpp", ".cxx", ".cu", ".cuh", ".h", ".hh", ".hpp", ".hxx", ".txt"]

def sourceTextNames : List String := ["CMakeLists.txt", "Makefile", "Dockerfile", "AGENTS.md"]

variable (f : Repository)

def isAllowlistedTextPath (relative : String) : Bool :=
  let name := (PurePath.read relative).parts.getLastD ""
  name ∈ sourceTextNames ||
    f.casefold (String.ofList (Build.suffix name.toList)) ∈ sourceTextSuffixes

def size (line : List Char) : ℕ := (line.map Char.utf8Size).sum

/-- The loop over the lines of the stream, the next one with its number. -/
def collect (first last budget : ℕ) : ℕ → ℕ → List (List Char) → Except ReadFault (List (List Char))
  | _, _, [] => pure []
  | number, used, raw :: rest =>
    if number < first then collect first last budget (number + 1) used rest
    else if last < number then pure []
    else if '\x00' ∈ raw then throw (.security "binary file rejected")
    else if budget < used + size raw then pure []
    else do
      let chunks ← collect first last budget (number + 1) (used + size raw) rest
      pure (stripEnd raw :: chunks)

def joinLines (lines : List (List Char)) : String := String.ofList (['\n'].intercalate lines)

/-- `_range_read`. -/
def rangeRead (relative : String) (start stop : Option ℕ) (budget : ℕ) :
    Except ReadFault Excerpt := do
  let path ← (resolveRegisteredPath f.tree f.root relative f.deny f.liveLinks true).mapError .path
  if !isAllowlistedTextPath f relative then throw (.security "file type is not allowlisted text")
  let first := start.getD 1
  let last := stop.getD (max first (first + 399))
  let chunks ← collect first last budget 1 0 (newlineEnded [] (f.contents path))
  pure { lineStart := first, lineEnd := first + chunks.length - 1
         excerpt := redactText (joinLines chunks) }

def maxCaptureBytes : ℕ := 2 * 1024 * 1024

/-- `gitShowtext`, with the limit that its runner has. -/
def showText (relative : String) (maxBytes : ℕ) : Except ReadFault (List Char) := do
  if relative.toList.head? = some '-' ∨ ".." ∈ (PurePath.read relative).parts then
    throw (.value "invalid Git object request")
  let value ← f.gitShow relative
  if maxCaptureBytes < size value then throw (.command "command output exceeded capture limit")
  if maxBytes < size value then throw (.value "Git object exceeds text limit")
  pure value

/-- The branch of a path target for a revision. -/
def showRead (relative : String) (start stop : Option ℕ) (perTarget : ℕ) :
    Except ReadFault Excerpt := do
  let path := PurePath.read relative
  if path.absolute ∨ ".." ∈ path.parts then throw (.security "path must be repository relative")
  if ← (isDenied path.parts f.deny).mapError .path then
    throw (.security "path must be repository relative")
  let text ← showText f relative (max (2 * 1024 * 1024) (perTarget * 8))
  let lines := splitlines [] text
  let first := start.getD 1
  let last := stop.getD (min lines.length (first + 399))
  let excerpt := redactText (joinLines ((lines.take last).drop (first - 1)))
  pure { lineStart := first, lineEnd := last
         excerpt := String.ofList (excerpt.toList.take perTarget) }

end Reads

section Agreement

/-- The same text in the working tree and in the revision. -/
structure SameText (f : Repository) (relative : String) (text : List Char) : Prop where
  resolves : ∃ path, resolveRegisteredPath f.tree f.root relative f.deny f.liveLinks true = .ok path ∧
    f.contents path = text
  shown : f.gitShow relative = .ok text

/-- The lines from the first to the last of a range. -/
def selected (first last : ℕ) (lines : List (List Char)) : List (List Char) :=
  (lines.drop (first - 1)).take (last + 1 - first)

def rangeStart (start : Option ℕ) : ℕ := start.getD 1

/-- A range that starts at one or later and does not end before its start. -/
def ValidRange (start stop : Option ℕ) : Prop :=
  1 ≤ rangeStart start ∧ ∀ e, stop = some e → rangeStart start ≤ e

/-- The end of the range in the working tree. -/
def rangeStop (start stop : Option ℕ) : ℕ := stop.getD (rangeStart start + 399)

/-- The selected lines fit in the budget. -/
def FitsRange (start stop : Option ℕ) (budget : ℕ) (text : List Char) : Prop :=
  ((selected (rangeStart start) (rangeStop start stop) (newlineEnded [] text)).map size).sum ≤ budget

/-- The revision shows the path: it does not start with a dash, and the text is within the capture
limit. -/
def Shows (relative : String) (text : List Char) : Prop :=
  relative.toList.head? ≠ some '-' ∧ size text ≤ maxCaptureBytes

instance (relative : String) (text : List Char) : Decidable (Shows relative text) :=
  inferInstanceAs (Decidable (_ ∧ _))

instance (start stop : Option ℕ) (budget : ℕ) (text : List Char) :
    Decidable (FitsRange start stop budget text) := inferInstanceAs (Decidable (_ ≤ _))

/-- The lines of the range in the working tree, without their ends. -/
def treeLines (start stop : Option ℕ) (text : List Char) : List (List Char) :=
  (selected (rangeStart start) (rangeStop start stop) (newlineEnded [] text)).map stripEnd

/-- The end that the revision gives, and its lines up to there. -/
def shownStop (start stop : Option ℕ) (text : List Char) : ℕ :=
  stop.getD (min (splitlines [] text).length (rangeStart start + 399))

def shownLines (start stop : Option ℕ) (text : List Char) : List (List Char) :=
  ((splitlines [] text).take (shownStop start stop text)).drop (rangeStart start - 1)

def ReadsAgree (f : Repository) (relative : String) (start stop : Option ℕ) (budget : ℕ) : Prop :=
  (rangeRead f relative start stop budget).toOption =
    (showRead f relative start stop budget).toOption

variable {f : Repository} {relative : String} {start stop : Option ℕ} {budget : ℕ}
  {text : List Char}

theorem flatten_newlineEnded (line text : List Char) :
    (newlineEnded line text).flatten = line ++ text := by
  induction text generalizing line with
  | nil =>
    rw [newlineEnded]
    split_ifs with hline
    · rw [hline]
      rfl
    · rw [List.flatten_singleton, List.append_nil]
  | cons c rest ih =>
    rw [newlineEnded]
    split_ifs
    · rw [List.flatten_cons, ih, List.append_assoc]
      rfl
    · rw [ih, List.append_assoc]
      rfl

theorem nul_free_lines (h : '\x00' ∉ text) : ∀ raw ∈ newlineEnded [] text, '\x00' ∉ raw := by
  intro raw hraw hnul
  apply h
  have hflat := flatten_newlineEnded [] text
  rw [List.nil_append] at hflat
  rw [← hflat]
  exact List.mem_flatten.mpr ⟨raw, hraw, hnul⟩

/-- Inside the range the next line is selected. -/
theorem selected_cons {first last number : ℕ} {raw : List Char} {rest : List (List Char)}
    (hbefore : ¬number < first) (hafter : ¬last < number) :
    (((raw :: rest).drop (first - number)).take (last + 1 - max first number)) =
      raw :: (rest.drop (first - (number + 1))).take (last + 1 - max first (number + 1)) := by
  have hdrop : first - number = 0 := by omega
  have hnext : first - (number + 1) = 0 := by omega
  have htake : last + 1 - max first number = last + 1 - max first (number + 1) + 1 := by omega
  rw [hdrop, hnext, htake, List.drop_zero, List.drop_zero, List.take_succ_cons]

/-- Without binary content and within the budget the loop collects the lines of the range. -/
theorem collect_eq {first last number used : ℕ} {lines : List (List Char)}
    (hnul : ∀ raw ∈ lines, '\x00' ∉ raw)
    (hfits : used + ((((lines.drop (first - number)).take (last + 1 - max first number)).map
      size).sum) ≤ budget) :
    collect first last budget number used lines =
      .ok (((lines.drop (first - number)).take (last + 1 - max first number)).map stripEnd) := by
  induction lines generalizing number used with
  | nil =>
    rw [collect, List.drop_nil, List.take_nil]
    rfl
  | cons raw rest ih =>
    obtain ⟨hraw, hrest⟩ := List.forall_mem_cons.mp hnul
    rw [collect]
    split_ifs with hbefore hafter hlarge
    · have hdrop : first - number = first - (number + 1) + 1 := by omega
      have hmax : max first number = max first (number + 1) := by omega
      rw [hdrop, hmax, List.drop_succ_cons] at hfits ⊢
      exact ih hrest hfits
    · have hnone : last + 1 - max first number = 0 := by omega
      rw [hnone, List.take_zero]
      rfl
    · rw [selected_cons hbefore hafter, List.map_cons, List.sum_cons] at hfits
      omega
    · rw [selected_cons hbefore hafter, List.map_cons, List.sum_cons, ← Nat.add_assoc] at hfits
      rw [selected_cons hbefore hafter, ih hrest hfits]
      rfl

theorem admitted_of_resolves {path : FileTree.Path}
    (h : resolveRegisteredPath f.tree f.root relative f.deny f.liveLinks true = .ok path) :
    Admitted relative f.deny := by
  unfold resolveRegisteredPath at h
  simp only [throw, throwThe, MonadExceptOf.throw, bind, pure, Except.pure, error_bind, guard_ok,
    bind_ok, mapError_ok, Except.ok.injEq] at h
  obtain ⟨hrelative, hgiven, denied, hdenied, hallowed, -⟩ := h
  obtain rfl : denied = false := by simpa using hallowed
  push Not at hrelative
  exact ⟨by simpa using hrelative.1, hrelative.2, hgiven, hdenied⟩

theorem rangeRead_eq (hsame : SameText f relative text) (hnul : '\x00' ∉ text)
    (hrange : ValidRange start stop) (hfits : FitsRange start stop budget text) :
    (rangeRead f relative start stop budget).toOption =
      if isAllowlistedTextPath f relative then
        some ⟨rangeStart start, rangeStart start + (treeLines start stop text).length - 1,
          redactText (joinLines (treeLines start stop text))⟩
      else none := by
  obtain ⟨⟨path, hpath, hcontents⟩, -⟩ := hsame
  have hmax : max (start.getD 1) 1 = start.getD 1 := max_eq_left hrange.1
  have hstop : stop.getD (max (start.getD 1) (start.getD 1 + 399)) = rangeStop start stop := by
    rw [rangeStop, rangeStart, max_eq_right (Nat.le_add_right _ 399)]
  have hcollect : collect (start.getD 1) (rangeStop start stop) budget 1 0 (newlineEnded [] text) =
      .ok (treeLines start stop text) := by
    have h := @collect_eq budget (start.getD 1) (rangeStop start stop) 1 0 (newlineEnded [] text)
      (nul_free_lines hnul)
    rw [hmax, Nat.zero_add] at h
    exact h hfits
  cases hallowed : isAllowlistedTextPath f relative with
  | false =>
    simp only [rangeRead, hpath, Except.mapError, hallowed, bind, Except.bind, throw, throwThe,
      MonadExceptOf.throw, Bool.not_false, if_true, Except.toOption, Bool.false_eq_true, if_false]
  | true =>
    simp only [rangeRead, hpath, Except.mapError, hallowed, bind, Except.bind, hcontents, hstop,
      hcollect, Bool.not_true, Bool.false_eq_true, if_false, if_true, pure, Except.pure,
      Except.toOption, rangeStart]

theorem showText_eq {maxBytes : ℕ} (hcontained : ".." ∉ (PurePath.read relative).parts)
    (hshown : f.gitShow relative = .ok text) (hmaximum : maxCaptureBytes ≤ maxBytes) :
    (showText f relative maxBytes).toOption =
      if Shows relative text then some text else none := by
  unfold showText
  by_cases hdash : relative.toList.head? = some '-'
  · have hhidden : ¬Shows relative text := fun h => h.1 hdash
    rw [if_pos (.inl hdash), if_neg hhidden]
    rfl
  have hadmits : ¬(relative.toList.head? = some '-' ∨ ".." ∈ (PurePath.read relative).parts) :=
    fun h => h.elim hdash hcontained
  by_cases hsize : maxCaptureBytes < size text
  · have hhidden : ¬Shows relative text := fun h => Nat.not_lt.mpr h.2 hsize
    rw [if_neg hadmits, hshown, if_neg hhidden]
    simp only [bind, Except.bind, pure, Except.pure, if_pos hsize]
    rfl
  · have hmax : ¬maxBytes < size text := fun h => hsize (Nat.lt_of_le_of_lt hmaximum h)
    have hshows : Shows relative text := ⟨hdash, Nat.not_lt.mp hsize⟩
    rw [if_neg hadmits, hshown, if_pos hshows]
    simp only [bind, Except.bind, pure, Except.pure, if_neg hsize, if_neg hmax]
    rfl

theorem showRead_eq (hsame : SameText f relative text) :
    (showRead f relative start stop budget).toOption =
      if Shows relative text then
        some ⟨rangeStart start, shownStop start stop text, String.ofList
          ((redactText (joinLines (shownLines start stop text))).toList.take budget)⟩
      else none := by
  obtain ⟨⟨path, hpath, -⟩, hshown⟩ := hsame
  have hadmitted := admitted_of_resolves hpath
  have hspelling : ¬((PurePath.read relative).absolute = true ∨
      ".." ∈ (PurePath.read relative).parts) := by
    rw [hadmitted.notAbsolute]
    exact fun h => h.elim Bool.noConfusion hadmitted.contained
  have htext := showText_eq hadmitted.contained hshown
    (Nat.le_max_left (2 * 1024 * 1024) (budget * 8))
  unfold showRead
  simp only [if_neg hspelling, hadmitted.allowed, Except.mapError, bind, Except.bind, pure,
    Except.pure, Bool.false_eq_true, if_false]
  cases hread : showText f relative (max (2 * 1024 * 1024) (budget * 8)) with
  | error e =>
    rw [hread] at htext
    split_ifs at htext with hshows
    · cases htext
    · rw [if_neg hshows]
      rfl
  | ok value =>
    rw [hread] at htext
    split_ifs at htext with hshows
    · obtain rfl := Option.some.inj htext
      rw [if_pos hshows]
      rfl
    · cases htext

/-- The end that is given is within the text. Without one either the range ends within it, or the
text has no other line boundaries and the range starts no further than right behind it. -/
def WithinLines (start stop : Option ℕ) (text : List Char) : Prop :=
  match stop with
  | some e => e ≤ (newlineEnded [] text).length
  | none => rangeStart start + 399 ≤ (newlineEnded [] text).length ∨
      (splitlines [] text).length = max (newlineEnded [] text).length (rangeStart start - 1)

/-- No line up to the end of the range has another boundary in it. -/
def PlainLines (start stop : Option ℕ) (text : List Char) : Prop :=
  ∀ raw ∈ (newlineEnded [] text).take (rangeStop start stop), OneLine raw

/-- The redacted lines of the range are no longer than the budget. -/
def RedactedFits (start stop : Option ℕ) (budget : ℕ) (text : List Char) : Prop :=
  (redactText (joinLines (treeLines start stop text))).length ≤ budget

/-- Neither redaction nor the cut at the budget changes what is read. -/
structure Untouched (start stop : Option ℕ) (budget : ℕ) (text : List Char) : Prop where
  tree : redactText (joinLines (treeLines start stop text)) = joinLines (treeLines start stop text)
  shown : redactText (joinLines (shownLines start stop text)) =
    joinLines (shownLines start stop text)
  uncut : (joinLines (shownLines start stop text)).length ≤ budget

theorem length_selected {first last : ℕ} {lines : List (List Char)} :
    (selected first last lines).length = min (last + 1 - first) (lines.length - (first - 1)) := by
  rw [selected, List.length_take, List.length_drop]

theorem length_treeLines : (treeLines start stop text).length =
    min (rangeStop start stop + 1 - rangeStart start)
      ((newlineEnded [] text).length - (rangeStart start - 1)) := by
  rw [treeLines, List.length_map, length_selected]

theorem take_eq_self {s : String} {n : ℕ} :
    s = String.ofList (s.toList.take n) ↔ s.length ≤ n := by
  rw [← String.length_toList, ← List.take_eq_self_iff, ← String.toList_inj, String.toList_ofList,
    eq_comm]

theorem stop_eq_iff (hrange : ValidRange start stop) :
    rangeStart start + (treeLines start stop text).length - 1 = shownStop start stop text ↔
      WithinLines start stop text := by
  obtain ⟨hstart, hend⟩ := hrange
  have hle := length_newlineEnded_le text
  rw [length_treeLines]
  cases stop with
  | some e =>
    have hend := hend e rfl
    simp only [shownStop, rangeStop, Option.getD_some, WithinLines]
    omega
  | none =>
    simp only [shownStop, rangeStop, Option.getD_none, WithinLines]
    omega

/-- The first lines of the text are the same in both readings. -/
theorem splitlines_take (hplain : PlainLines start stop text) {n : ℕ}
    (hn : n ≤ min (rangeStop start stop) (newlineEnded [] text).length) :
    (splitlines [] text).take n = ((newlineEnded [] text).take n).map stripEnd := by
  have hsplit := splitlines_flatMap [] text
  rw [List.nil_append, ← List.take_append_drop (rangeStop start stop) (newlineEnded [] text),
    List.flatMap_append, splitlines_of_oneLine hplain] at hsplit
  have hlength : n ≤ (((newlineEnded [] text).take (rangeStop start stop)).map stripEnd).length := by
    rw [List.length_map, List.length_take]
    exact hn
  rw [hsplit, List.take_append_of_le_length hlength, ← List.map_take, List.take_take,
    min_eq_left (hn.trans (min_le_left _ _))]

theorem shownLines_eq (hrange : ValidRange start stop) (hplain : PlainLines start stop text)
    (hwithin : WithinLines start stop text) :
    shownLines start stop text = treeLines start stop text := by
  have hstop := (stop_eq_iff hrange).mpr hwithin
  have hlength : (treeLines start stop text).length =
      min (rangeStop start stop + 1 - rangeStart start)
        ((newlineEnded [] text).length - (rangeStart start - 1)) := length_treeLines
  have hstart := hrange.1
  by_cases hbehind : (newlineEnded [] text).length < rangeStart start
  · have hnone : treeLines start stop text = [] := List.length_eq_zero_iff.mp (by omega)
    rw [hnone, shownLines, List.drop_eq_nil_iff, List.length_take]
    rw [hnone, List.length_nil] at hstop
    omega
  · have hshown : shownStop start stop text =
        min (rangeStop start stop) (newlineEnded [] text).length := by
      have hvalid : rangeStart start ≤ rangeStop start stop := by
        cases stop with
        | some e => exact hrange.2 e rfl
        | none => exact Nat.le_add_right _ 399
      omega
    rw [shownLines, hshown, splitlines_take hplain le_rfl, treeLines, selected, ← List.map_drop,
      List.drop_take]
    congr 1
    rw [List.take_eq_take_iff, List.length_drop]
    omega

/-- What both reads give of a path that passes both. -/
theorem readsAgree_iff_ranges (hsame : SameText f relative text) (hnul : '\x00' ∉ text)
    (hrange : ValidRange start stop) (hfits : FitsRange start stop budget text) :
    ReadsAgree f relative start stop budget ↔
      (isAllowlistedTextPath f relative = true ↔ Shows relative text) ∧
        (Shows relative text → WithinLines start stop text ∧
          redactText (joinLines (treeLines start stop text)) = String.ofList
            ((redactText (joinLines (shownLines start stop text))).toList.take budget)) := by
  rw [ReadsAgree, rangeRead_eq hsame hnul hrange hfits, showRead_eq hsame, ← stop_eq_iff hrange]
  by_cases hshows : Shows relative text
  · rw [if_pos hshows]
    by_cases hallowed : isAllowlistedTextPath f relative = true
    · rw [if_pos hallowed, Option.some.injEq, Excerpt.mk.injEq]
      constructor
      · intro h
        exact ⟨⟨fun _ => hshows, fun _ => hallowed⟩, fun _ => ⟨h.2.1, h.2.2⟩⟩
      · intro h
        exact ⟨rfl, (h.2 hshows).1, (h.2 hshows).2⟩
    · rw [if_neg hallowed]
      exact ⟨fun h => (nomatch h), fun h => absurd (h.1.mpr hshows) hallowed⟩
  · rw [if_neg hshows]
    by_cases hallowed : isAllowlistedTextPath f relative = true
    · rw [if_pos hallowed]
      exact ⟨fun h => (nomatch h), fun h => absurd (h.1.mp hallowed) hshows⟩
    · rw [if_neg hallowed]
      exact ⟨fun _ => ⟨⟨fun h => absurd h hallowed, fun h => absurd h hshows⟩,
        fun h => absurd h hshows⟩, fun _ => rfl⟩

theorem mem_intercalate {c : Char} {lines : List (List Char)}
    (h : c ∈ ['\n'].intercalate lines) : c = '\n' ∨ ∃ l ∈ lines, c ∈ l := by
  induction lines with
  | nil => cases h
  | cons l lines ih =>
    cases lines with
    | nil => exact .inr ⟨l, List.mem_cons_self, by simpa using h⟩
    | cons l' lines =>
      rw [List.intercalate_cons_cons, List.append_assoc, List.mem_append, List.mem_append,
        List.mem_singleton] at h
      rcases h with hl | hnewline | hrest
      · exact .inr ⟨l, List.mem_cons_self, hl⟩
      · exact .inl hnewline
      · refine (ih hrest).imp_right fun ⟨m, hm, hc⟩ => ⟨m, List.mem_cons_of_mem l hm, hc⟩

theorem mem_intercalate_of_mem {c : Char} {l : List Char} {lines : List (List Char)}
    (hl : l ∈ lines) (hc : c ∈ l) : c ∈ ['\n'].intercalate lines := by
  induction lines with
  | nil => cases hl
  | cons m lines ih =>
    cases lines with
    | nil =>
      obtain rfl := List.mem_singleton.mp hl
      simpa using hc
    | cons m' lines =>
      rw [List.intercalate_cons_cons, List.append_assoc, List.mem_append, List.mem_append]
      rcases List.mem_cons.mp hl with rfl | hrest
      · exact .inl hc
      · exact .inr (.inr (ih hrest))

/-- Where the excerpts agree as they are, the lines of the tree have no other boundary in them. -/
theorem treeLines_plain (hexcerpt : joinLines (treeLines start stop text) =
      joinLines (shownLines start stop text)) :
    ∀ l ∈ treeLines start stop text, ∀ c ∈ l, isBoundary c = false := by
  intro l hl c hc
  by_contra hboundary
  have hchars : ['\n'].intercalate (treeLines start stop text) =
      ['\n'].intercalate (shownLines start stop text) := String.ofList_injective hexcerpt
  have hmem : c ∈ ['\n'].intercalate (shownLines start stop text) :=
    hchars ▸ mem_intercalate_of_mem hl hc
  rcases mem_intercalate hmem with rfl | ⟨m, hm, hcm⟩
  · obtain ⟨raw, hraw, rfl⟩ := List.mem_map.mp hl
    exact newline_notMem_stripEnd (List.mem_of_mem_drop (List.mem_of_mem_take hraw)) hc
  · have hsplit : m ∈ splitlines [] text := List.mem_of_mem_take (List.mem_of_mem_drop hm)
    have hnone : ∀ d ∈ ([] : List Char), isBoundary d = false := fun _ hd =>
      absurd hd List.not_mem_nil
    exact hboundary (splitlines_plain hnone m hsplit c hcm)

/-- The two reads agree if the same paths pass them and, for a path that passes, the range is
within the text, no line up to its end has another boundary in it, and its redacted lines are no
longer than the budget. Of these the first two are necessary for every text, and on plain lines
all of them are; a boundary inside a selected line is seen unless redaction or the cut hides it. -/
theorem readsAgree_iff (hsame : SameText f relative text) (hnul : '\x00' ∉ text)
    (hrange : ValidRange start stop) (hfits : FitsRange start stop budget text) :
    ((isAllowlistedTextPath f relative = true ↔ Shows relative text) →
      (Shows relative text → WithinLines start stop text ∧ PlainLines start stop text ∧
        RedactedFits start stop budget text) →
      ReadsAgree f relative start stop budget) ∧
    (ReadsAgree f relative start stop budget →
      (isAllowlistedTextPath f relative = true ↔ Shows relative text) ∧
        (Shows relative text → WithinLines start stop text ∧
          (PlainLines start stop text → RedactedFits start stop budget text) ∧
          (Untouched start stop budget text →
            ∀ l ∈ treeLines start stop text, ∀ c ∈ l, isBoundary c = false))) := by
  rw [readsAgree_iff_ranges hsame hnul hrange hfits]
  constructor
  · intro hpaths hlines
    refine ⟨hpaths, fun hshows => ?_⟩
    obtain ⟨hwithin, hplain, hbudget⟩ := hlines hshows
    refine ⟨hwithin, ?_⟩
    rw [shownLines_eq hrange hplain hwithin]
    exact take_eq_self.mpr hbudget
  · rintro ⟨hpaths, hagree⟩
    refine ⟨hpaths, fun hshows => ?_⟩
    obtain ⟨hwithin, hexcerpt⟩ := hagree hshows
    refine ⟨hwithin, fun hplain => ?_, fun huntouched => treeLines_plain ?_⟩
    · rw [shownLines_eq hrange hplain hwithin] at hexcerpt
      exact take_eq_self.mp hexcerpt
    · rw [huntouched.tree, huntouched.shown, ← take_eq_self.mpr huntouched.uncut] at hexcerpt
      exact hexcerpt

def poem : List Char := "one\ntwo\r\nthree\nfour\n".toList

/-- A repository with one file of four lines. -/
def noteRepository : Repository where
  tree := ⟨[(["repo"], .dir), (["repo", "note.txt"], .file)]⟩
  root := ["repo"]
  liveLinks := []
  deny := []
  contents _ := poem
  gitShow _ := .ok poem
  casefold s := s

theorem note_same : SameText noteRepository "note.txt" poem where
  resolves := ⟨["repo", "note.txt"], by decide +kernel, rfl⟩
  shown := rfl

theorem poem_fits : FitsRange (some 2) (some 3) 16 poem := by decide +kernel

/-- The second and the third line are the same in both reads. -/
theorem note_readsAgree :
    ReadsAgree noteRepository "note.txt" (some 2) (some 3) 16 ∧
      joinLines (treeLines (some 2) (some 3) poem) = "two\nthree" := by
  have hrange : ValidRange (some 2) (some 3) :=
    ⟨by decide, fun e he => Option.some.inj he ▸ by decide⟩
  have hagree := (readsAgree_iff note_same (by decide +kernel) hrange poem_fits).1
  have hplain : PlainLines (some 2) (some 3) poem := by
    unfold PlainLines OneLine
    decide +kernel
  have hwithin : WithinLines (some 2) (some 3) poem := by
    unfold WithinLines
    decide +kernel
  have hbudget : RedactedFits (some 2) (some 3) 16 poem := by
    unfold RedactedFits
    decide +kernel
  refine ⟨hagree (by decide +kernel) fun _ => ⟨hwithin, hplain, hbudget⟩, by decide +kernel⟩

/-- The end of a range behind the end of the file is trusted by one of the reads. -/
theorem range_past_the_end : ¬ ∀ (f : Repository) (relative : String) (start stop : Option ℕ)
    (budget : ℕ) (text : List Char), SameText f relative text → '\x00' ∉ text →
      ValidRange start stop → FitsRange start stop budget text →
      ReadsAgree f relative start stop budget := by
  intro hclaim
  have hrange : ValidRange none (some 7) :=
    ⟨Nat.le_refl 1, fun e he => Option.some.inj he ▸ by decide⟩
  have hagree := hclaim noteRepository "note.txt" none (some 7) 1024 _ note_same (by decide +kernel)
    hrange (by decide +kernel)
  have hstops := congrArg (Option.map Excerpt.lineEnd) hagree
  revert hstops
  decide +kernel

end Agreement

end ProjectControl.Source
