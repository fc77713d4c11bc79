import Mathlib.Data.List.Dedup
import ProjectControl.JsonText
import ProjectControl.LossyText
import ProjectControl.Words

/-! The identity of a working tree: a digest of the dirty paths that `git status` lists and of
the files found under them. -/

set_option autoImplicit false

namespace ProjectControl.Git

open LossyText

section Trees

/-- The bytes of a file name, or of another field of a status line. -/
structure Name where
  bytes : List ℕ
  nonempty : bytes ≠ []
  plain : 0 ∉ bytes

/-- A record of `git status --porcelain=v2 -z`, with the fields between its tag and its path. -/
inductive StatusRecord where
  | ordinary (fields : List Name) (path : Name)
  | renamed (fields : List Name) (path original : Name)
  | copied (fields : List Name) (path original : Name)
  | unmerged (fields : List Name) (path : Name)
  | untracked (path : Name)

/-- What is found under a path. A link has the text of its target. -/
inductive Node where
  | symlink (target : List Char) (plain : '\x00' ∉ target)
  | file (mtime : ℤ) (content : List ℕ)
  | unreadable (size : ℕ) (mtime : ℤ)
  | absent
  | racy

structure WorkingTree where
  head : String
  status : List StatusRecord
  node : List ℕ → Node

def tagged (tag : Char) (fields : List Name) (path : Name) : List ℕ :=
  tag.toNat :: (fields.flatMap (fun f => 32 :: f.bytes) ++ 32 :: path.bytes)

/-- The parts of the output that a record consists of. -/
def StatusRecord.lines : StatusRecord → List (List ℕ)
  | .ordinary fields path => [tagged '1' fields path]
  | .renamed fields path original => [tagged '2' fields path, original.bytes]
  | .copied fields path original => [tagged '2' fields path, original.bytes]
  | .unmerged fields path => [tagged 'u' fields path]
  | .untracked path => [tagged '?' [] path]

/-- The output of `git status`. -/
def WorkingTree.output (s : WorkingTree) : List ℕ :=
  (s.status.flatMap StatusRecord.lines).flatMap (fun line => line ++ [0])

end Trees

section Identity

/-- `record.split(" ")[-1]`. -/
def lastWord (record : List Char) : List Char :=
  ((record.splitOnP (· = ' ')).getLast?).getD []

/-- The paths of the Todo projection. -/
def projected (path : List Char) : Bool :=
  ".todo-orchestrator/".toList.isPrefixOf path || path = "todos.md".toList ||
    path = "todo-status.md".toList || "todos/".toList.isPrefixOf path

def relevant (path : List Char) : Bool := path ≠ [] && !projected path

def maxFileBytes : ℕ := 64 * 1024 * 1024

/-- What is hashed of a path. -/
def Node.image : Node → List ℕ
  | .symlink target _ => encode ['s', 'y', 'm', 'l', 'i', 'n', 'k', '\x00'] ++ encode target
  | .file mtime content => encode (JsonText.number content.length) ++ 0 ::
      (encode (JsonText.number mtime) ++ 0 :: content.take maxFileBytes)
  | .unreadable size mtime => encode (JsonText.number size) ++ 0 ::
      (encode (JsonText.number mtime) ++ 0 :: encode ['r', 'a', 'c', 'y'])
  | .absent => encode ['a', 'b', 's', 'e', 'n', 't']
  | .racy => encode ['r', 'a', 'c', 'y']

def separator : List Char := ['p', 'a', 't', 'h']

/-- The records whose last word is a path outside the projection. -/
def relevantRecords (output : List ℕ) : List (List Char) :=
  (Words.words (· = '\x00') (decode output)).filter (fun record => relevant (lastWord record))

def sortedPaths (paths : List (List Char)) : List (List Char) :=
  paths.dedup.mergeSort (fun a b => decide (a ≤ b))

/-- The bytes that are hashed. -/
def hashed (records : List (List Char)) (node : List ℕ → Node) : List ℕ :=
  encode (['\x00'].intercalate records) ++
    (sortedPaths (records.map lastWord)).flatMap (fun path =>
      0 :: (encode separator ++ 0 :: (encode path ++ (node (encode path)).image)))

structure GitIdentity where
  commit : String
  dirty : Bool
  statusFingerprint : String
  changedPaths : List (List Char)

/-- `GitReadAdapter.identity`. -/
def WorkingTree.identity (sha256 : List ℕ → String) (s : WorkingTree) : GitIdentity :=
  let records := relevantRecords s.output
  { commit := s.head
    dirty := !records.isEmpty
    statusFingerprint := sha256 (hashed records s.node)
    changedPaths := sortedPaths (records.map lastWord) }

/-- The key under which texts of the working tree are served and indexed. -/
def GitIdentity.sourceIdentity (i : GitIdentity) : String :=
  i.commit ++ ":" ++ i.statusFingerprint

end Identity

section Meaning

/-- The paths that a record reports as dirty: a copy leaves its original as it was. -/
def StatusRecord.dirty : StatusRecord → List Name
  | .ordinary _ path | .copied _ path _ | .unmerged _ path | .untracked path => [path]
  | .renamed _ path original => [path, original]

/-- The paths that a record names. -/
def StatusRecord.named : StatusRecord → List Name
  | .ordinary _ path | .unmerged _ path | .untracked path => [path]
  | .renamed _ path original | .copied _ path original => [path, original]

/-- The name as the code sees it. -/
def Name.text (n : Name) : List Char := decode n.bytes

/-- A dirty path outside the Todo projection. -/
def WorkingTree.Dirty (s : WorkingTree) (q : Name) : Prop :=
  (∃ r ∈ s.status, q ∈ r.dirty) ∧ projected q.text = false

/-- The content of a regular file up to 64 MiB, or that there is none; unknown where the path
cannot be read. -/
def Node.content : Node → Option (Option (List ℕ))
  | .file _ content => some (some (content.take maxFileBytes))
  | .symlink .. | .absent => some none
  | .unreadable .. | .racy => none

/-- A path that is found again in its record: it is UTF-8 and has no space. -/
def Name.Recovered (n : Name) : Prop := ' ' ∉ n.text ∧ encode n.text = n.bytes

/-- The same records, and the same files under their last words. -/
def LooksSame (s t : WorkingTree) : Prop :=
  relevantRecords s.output = relevantRecords t.output ∧
    ∀ record ∈ relevantRecords s.output,
      (s.node (encode (lastWord record))).image = (t.node (encode (lastWord record))).image

/-- The original path of a rename or copy. -/
def StatusRecord.original? : StatusRecord → Option Name
  | .renamed _ _ original | .copied _ _ original => some original
  | _ => none

/-- No original path has the name that separates the hashed files, and the files that are hashed
can be opened. -/
structure WorkingTree.Plain (s : WorkingTree) : Prop where
  originals : ∀ r ∈ s.status, ∀ q, r.original? = some q → q.text ≠ separator
  readable : ∀ r ∈ s.status, ∀ q ∈ r.named, ∀ size mtime,
    s.node (encode (lastWord q.text)) ≠ .unreadable size mtime

end Meaning

section Records

variable {s : WorkingTree} {r : StatusRecord} {q : Name}

theorem lastWord_append (before after : List Char) :
    lastWord (before ++ ' ' :: after) = lastWord after := by
  unfold lastWord
  rw [List.splitOnP_append_cons before after (by simp),
    List.getLast?_append_of_ne_nil _ (List.splitOnP_ne_nil _ _)]

theorem lastWord_of_plain {text : List Char} (h : ' ' ∉ text) : lastWord text = text := by
  have hplain : ∀ c ∈ text, decide (c = ' ') = false := by
    intro c hc
    exact decide_eq_false (fun heq => h (heq ▸ hc))
  rw [lastWord, List.splitOnP_eq_singleton hplain]
  rfl

theorem decode_tagged (tag : Char) (fields : List Name) (path : Name) :
    ∃ before, decode (tagged tag fields path) = before ++ ' ' :: path.text := by
  have hspace : Char.ofNat 32 = ' ' := rfl
  refine ⟨decode (tag.toNat :: fields.flatMap (fun f => 32 :: f.bytes)), ?_⟩
  rw [tagged, ← List.cons_append, decode_append_ascii (by decide), hspace]
  rfl

theorem tagged_plain {tag : Char} {fields : List Name} {path : Name} (htag : tag.toNat ≠ 0) :
    0 ∉ tagged tag fields path := by
  have hfields : 0 ∉ fields.flatMap (fun f => 32 :: f.bytes) := by
    intro h
    obtain ⟨f, -, hf⟩ := List.mem_flatMap.mp h
    rcases List.mem_cons.mp hf with hf | hf
    · cases hf
    · exact f.plain hf
  intro h
  rcases List.mem_cons.mp h with h | h
  · exact htag h.symm
  rcases List.mem_append.mp h with h | h
  · exact hfields h
  rcases List.mem_cons.mp h with h | h
  · cases h
  · exact path.plain h

/-- A line of a record and the path that it ends with. -/
inductive Ends (r : StatusRecord) : List ℕ → Name → Prop where
  | path (tag : Char) (fields : List Name) (q : Name) (htag : tag.toNat ≠ 0) :
    Ends r (tagged tag fields q) q
  | original (q : Name) (hq : r.original? = some q) : Ends r q.bytes q

theorem ends_lines (r : StatusRecord) : List.Forall₂ (Ends r) r.lines r.named := by
  cases r with
  | ordinary fields path => exact .cons (.path '1' fields path (by decide)) .nil
  | renamed fields path original =>
    exact .cons (.path '2' fields path (by decide)) (.cons (.original original rfl) .nil)
  | copied fields path original =>
    exact .cons (.path '2' fields path (by decide)) (.cons (.original original rfl) .nil)
  | unmerged fields path => exact .cons (.path 'u' fields path (by decide)) .nil
  | untracked path => exact .cons (.path '?' [] path (by decide)) .nil

theorem Ends.plain {line : List ℕ} (h : Ends r line q) : 0 ∉ line := by
  cases h with
  | path tag fields q htag => exact tagged_plain htag
  | original q hq => exact q.plain

theorem Ends.lastWord {line : List ℕ} (h : Ends r line q) :
    lastWord (decode line) = Git.lastWord q.text := by
  cases h with
  | path tag fields q htag =>
    obtain ⟨before, hbefore⟩ := decode_tagged tag fields q
    rw [hbefore, lastWord_append]
  | original q hq => rfl

/-- Only an original path can be read as the separator. -/
theorem Ends.original_of_separator {line : List ℕ} (h : Ends r line q)
    (hs : decode line = separator) :
    r.original? = some q ∧ q.text = separator := by
  cases h with
  | path tag fields q htag =>
    obtain ⟨before, hbefore⟩ := decode_tagged tag fields q
    have hspace : ' ' ∈ separator := by
      rw [← hs, hbefore]
      exact List.mem_append_right _ List.mem_cons_self
    exact absurd hspace (by decide)
  | original q hq => exact ⟨hq, hs⟩

theorem Ends.named {line : List ℕ} (hline : line ∈ r.lines) : ∃ q ∈ r.named, Ends r line q := by
  have h := ends_lines r
  generalize r.lines = lines at h hline
  generalize r.named = named at h
  induction h with
  | nil => cases hline
  | cons he _ ih =>
    rcases List.mem_cons.mp hline with rfl | hline
    · exact ⟨_, List.mem_cons_self, he⟩
    · obtain ⟨q, hq, hends⟩ := ih hline
      exact ⟨q, List.mem_cons_of_mem _ hq, hends⟩

theorem Ends.line (hq : q ∈ r.named) : ∃ line ∈ r.lines, Ends r line q := by
  have h := ends_lines r
  generalize r.lines = lines at h
  generalize r.named = named at h hq
  induction h with
  | nil => cases hq
  | cons he _ ih =>
    rcases List.mem_cons.mp hq with rfl | hq
    · exact ⟨_, List.mem_cons_self, he⟩
    · obtain ⟨line, hline, hends⟩ := ih hq
      exact ⟨line, List.mem_cons_of_mem _ hline, hends⟩

theorem filter_words {text : List Char} (h : '\x00' ∉ text) {keep : List Char → Bool}
    (hkeep : keep [] = false) :
    (Words.words (· = '\x00') text).filter keep = [text].filter keep := by
  by_cases hempty : text = []
  · subst hempty
    simp [hkeep]
  · have htoken : Words.Token (· = '\x00') text :=
      ⟨hempty, fun c hc => decide_eq_false (fun heq => h (heq ▸ hc))⟩
    rw [Words.words_token htoken]

/-- The output is split into the lines that it was made of. -/
theorem relevantRecords_eq (lines : List (List ℕ)) (h : ∀ line ∈ lines, 0 ∉ line) :
    relevantRecords (lines.flatMap (fun line => line ++ [0])) =
      (lines.map decode).filter (fun record => relevant (lastWord record)) := by
  unfold relevantRecords
  induction lines with
  | nil => rfl
  | cons line lines ih =>
    have hline : '\x00' ∉ decode line := decode_ne_zero (h line List.mem_cons_self)
    have hrest := ih (fun l hl => h l (List.mem_cons_of_mem _ hl))
    rw [List.flatMap_cons, List.append_assoc, List.singleton_append,
      decode_append_ascii (by decide), Words.words_append_sep (by simp), List.filter_append, hrest,
      filter_words hline rfl, ← List.filter_append]
    rfl

theorem mem_relevantRecords {record : List Char} :
    record ∈ relevantRecords s.output ↔ ∃ r ∈ s.status, ∃ line ∈ r.lines,
      decode line = record ∧ relevant (lastWord record) = true := by
  have hlines : ∀ line ∈ s.status.flatMap StatusRecord.lines, 0 ∉ line := by
    intro line hline
    obtain ⟨r, -, hr⟩ := List.mem_flatMap.mp hline
    obtain ⟨q, -, hends⟩ := Ends.named hr
    exact hends.plain
  rw [WorkingTree.output, relevantRecords_eq _ hlines, List.mem_filter, List.mem_map]
  simp only [List.mem_flatMap]
  constructor
  · rintro ⟨⟨line, ⟨r, hr, hline⟩, rfl⟩, hrelevant⟩
    exact ⟨r, hr, line, hline, rfl, hrelevant⟩
  · rintro ⟨r, hr, line, hline, rfl, hrelevant⟩
    exact ⟨⟨line, ⟨r, hr, hline⟩, rfl⟩, hrelevant⟩

end Records

section Stream

/-- What may follow a piece: nothing, or a zero. -/
def Cut (rest : List ℕ) : Prop := rest = [] ∨ ∃ tail, rest = 0 :: tail

/-- The first piece of what is hashed of a node, which tells the kinds of nodes apart. -/
def Node.mark : Node → List Char
  | .symlink .. => ['s', 'y', 'm', 'l', 'i', 'n', 'k']
  | .file _ content => JsonText.number content.length
  | .unreadable size _ => JsonText.number size
  | .absent => ['a', 'b', 's', 'e', 'n', 't']
  | .racy => ['r', 'a', 'c', 'y']

def Node.rest : Node → List ℕ
  | .symlink target _ => 0 :: encode target
  | .file mtime content =>
    0 :: (encode (JsonText.number mtime) ++ 0 :: content.take maxFileBytes)
  | .unreadable _ mtime => 0 :: (encode (JsonText.number mtime) ++ 0 :: encode ['r', 'a', 'c', 'y'])
  | .absent => []
  | .racy => []

def Node.Readable : Node → Prop
  | .unreadable .. => False
  | _ => True

/-- The piece of one path. -/
def piece (node : List ℕ → Node) (path : List Char) : List ℕ :=
  0 :: (encode separator ++ 0 :: (encode path ++ (node (encode path)).image))

/-- The records after the first one, and the pieces. -/
def following (node : List ℕ → Node) (records paths : List (List Char)) : List ℕ :=
  records.flatMap (fun record => 0 :: encode record) ++ paths.flatMap (piece node)

theorem mem_sortedPaths {path : List Char} {paths : List (List Char)} :
    path ∈ sortedPaths paths ↔ path ∈ paths := by
  rw [sortedPaths, List.mem_mergeSort, List.mem_dedup]

end Stream

section Claims

variable {sha256 : List ℕ → String} {s t : WorkingTree} {q : Name}

theorem named_of_dirty {r : StatusRecord} (hq : q ∈ r.dirty) : q ∈ r.named := by
  cases r with
  | ordinary fields path => exact hq
  | renamed fields path original => exact hq
  | copied fields path original =>
    rw [List.mem_singleton.mp hq]
    exact List.mem_cons_self
  | unmerged fields path => exact hq
  | untracked path => exact hq

/-- A dirty path that is recovered is the last word of a record that counts. -/
theorem Name.Recovered.record (hq : q.Recovered) (hdirty : s.Dirty q) :
    ∃ record ∈ relevantRecords s.output, lastWord record = q.text := by
  obtain ⟨⟨r, hr, hmem⟩, hprojected⟩ := hdirty
  obtain ⟨line, hline, hends⟩ := Ends.line (named_of_dirty hmem)
  have hword : lastWord (decode line) = q.text := by
    rw [hends.lastWord, lastWord_of_plain hq.1]
  have hnonempty : q.text ≠ [] := by
    intro hempty
    have hbytes := hq.2
    rw [hempty] at hbytes
    exact q.nonempty hbytes.symm
  refine ⟨decode line, mem_relevantRecords.mpr ⟨r, hr, line, hline, rfl, ?_⟩, hword⟩
  rw [hword]
  simp [relevant, hnonempty, hprojected]

theorem WorkingTree.Plain.records (hs : s.Plain) :
    ∀ record ∈ relevantRecords s.output, '\x00' ∉ record ∧ record ≠ separator := by
  intro record hrecord
  obtain ⟨r, hr, line, hline, rfl, -⟩ := mem_relevantRecords.mp hrecord
  obtain ⟨q, -, hends⟩ := Ends.named hline
  refine ⟨decode_ne_zero hends.plain, fun hseparator => ?_⟩
  obtain ⟨horiginal, htext⟩ := hends.original_of_separator hseparator
  exact hs.originals r hr q horiginal htext

theorem WorkingTree.Plain.nodes (hs : s.Plain) :
    ∀ record ∈ relevantRecords s.output, (s.node (encode (lastWord record))).Readable := by
  intro record hrecord
  obtain ⟨r, hr, line, hline, rfl, -⟩ := mem_relevantRecords.mp hrecord
  obtain ⟨q, hq, hends⟩ := Ends.named hline
  have hreadable := hs.readable r hr q hq
  rw [hends.lastWord]
  generalize s.node (encode (lastWord q.text)) = n at hreadable
  cases n with
  | unreadable size mtime => exact absurd rfl (hreadable size mtime)
  | symlink target plain => trivial
  | file mtime content => trivial
  | absent => trivial
  | racy => trivial

/-- States that look the same have the same fingerprint. -/
theorem LooksSame.fingerprint (h : LooksSame s t) : (s.identity sha256).statusFingerprint =
    (t.identity sha256).statusFingerprint := by
  have hpieces : (sortedPaths ((relevantRecords s.output).map lastWord)).flatMap (piece s.node) =
      (sortedPaths ((relevantRecords s.output).map lastWord)).flatMap (piece t.node) := by
    refine List.flatMap_congr (fun path hpath => ?_)
    obtain ⟨record, hrecord, rfl⟩ := List.mem_map.mp (mem_sortedPaths.mp hpath)
    rw [piece, piece, h.2 record hrecord]
  have hhashed : hashed (relevantRecords s.output) s.node =
      hashed (relevantRecords t.output) t.node := by
    rw [← h.1]
    exact congrArg (_ ++ ·) hpieces
  exact congrArg sha256 hhashed

end Claims

section Examples

def notes : Name := ⟨encode "notes.txt".toList, by decide, by decide⟩

end Examples

end ProjectControl.Git
