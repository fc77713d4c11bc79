import Mathlib
import ProjectControl.ResumptionLock
import ProjectControl.Segments
import ProjectControl.WireSize

/-! The files of the call audit, as the processes that write them under one lock. -/

set_option autoImplicit false

namespace ProjectControl.Audit

open Resumption Resumption.Spec

/-- `MAX_FILE_BYTES`. -/
def maxFileBytes : ℕ := 256 * 1024 * 1024

/-- `BACKUPS`. -/
def backups : ℕ := 5

/-- `MAX_EVENT_BYTES`. -/
def maxEventBytes : ℕ := 2 * 1024

/-- An encoded event, as `_encoded_event` returns it. -/
structure Line where
  text : List Char
  fits : JsonText.bytes text ≤ maxEventBytes

def Line.size (line : Line) : ℕ := JsonText.bytes line.text

/-- A line that was written, with the call that wrote it. -/
structure Entry (ι : Type) where
  call : ι
  line : Line

/-- `calls.jsonl` has the number 0, and `calls.jsonl.k` the number `k`. -/
abbrev FileNumber := ℕ

def active : FileNumber := 0

/-- `AUDIT_DIR / f"calls.jsonl.{index}"`. -/
def backup (index : ℕ) : FileNumber := index

/-- The chain of the files up to a number, the oldest file first. -/
def chain : ℕ → List FileNumber
  | 0 => [active]
  | n + 1 => backup (n + 1) :: chain n

def fileSize {ι : Type} (entries : List (Entry ι)) : ℕ :=
  (entries.map (fun entry => entry.line.size)).sum

/-- The audit directory. All lines that were written are in `written` in their order, and
those of the files that were deleted are in `deleted`. -/
structure Directory (ι : Type) where
  files : FileNumber → Option (List (Entry ι)) := fun _ => none
  written : List (Entry ι) := []
  deleted : List (Entry ι) := []

/-- What the files of the directory hold, from `calls.jsonl.5` to `calls.jsonl`. -/
def Directory.contents {ι : Type} (s : Directory ι) : List (Entry ι) :=
  Segments.contents (chain backups) s.files

inductive Operation where
  | prepare | openLock | isSymlink
  | exists (file : FileNumber)
  | stat (file : FileNumber)
  | unlink (file : FileNumber)
  | replace (source target : FileNumber)
  | openPrivate (file : FileNumber)
  | write (file : FileNumber)
  | fsync
deriving DecidableEq

inductive Failure where
  | directorySymlink | fileSymlink
  | osError (operation : Operation)
deriving DecidableEq

section Operations

variable {ι : Type}

/-- A program on the directory. Each operation may fail, and then it changes nothing. -/
abbrev Writer (ι α : Type) : Type := Prog (Directory ι) Bool Operation Failure α

/-- An operation that the environment lets succeed or fail. -/
def perform {α : Type} (operation : Operation) (failure : Failure)
    (effect : Directory ι → Directory ι × Except Failure α) : Writer ι α :=
  .atomic operation (fun s ok => if ok then effect s else (s, .error failure))

def fileExists (file : FileNumber) : Writer ι Bool :=
  .atomic (.exists file) (fun s _ => (s, .ok (s.files file).isSome))

/-- `path.stat().st_size`. -/
def statSize (file : FileNumber) : Writer ι ℕ :=
  perform (.stat file) (.osError (.stat file)) (fun s => match s.files file with
    | some entries => (s, .ok (fileSize entries))
    | none => (s, .error (.osError (.stat file))))

/-- `path.unlink(missing_ok=True)`. -/
def unlink (file : FileNumber) : Writer ι Unit :=
  perform (.unlink file) (.osError (.unlink file)) (fun s =>
    ({ s with
        files := Segments.remove file s.files
        deleted := s.deleted ++ (s.files file).getD [] }, .ok ()))

def replace (source target : FileNumber) : Writer ι Unit :=
  perform (.replace source target) (.osError (.replace source target)) (fun s =>
    match s.files source with
    | some _ => ({ s with files := Segments.rename source target s.files }, .ok ())
    | none => (s, .error (.osError (.replace source target))))

/-- `_open_private`, which creates the file. -/
def openPrivate (file : FileNumber) : Writer ι Unit :=
  perform (.openPrivate file) (.osError (.openPrivate file)) (fun s =>
    ({ s with files := Segments.extend file [] s.files }, .ok ()))

/-- `os.write` of a whole line; the answer is the line's place among all that were written. -/
def write (file : FileNumber) (entry : Entry ι) : Writer ι ℕ :=
  perform (.write file) (.osError (.write file)) (fun s =>
    ({ s with
        files := Segments.extend file [entry] s.files
        written := s.written ++ [entry] }, .ok s.written.length))

/-- An operation that only may fail. -/
def check (operation : Operation) (failure : Failure) : Writer ι Unit :=
  perform operation failure (fun s => (s, .ok ()))

/-- The loop over `range(BACKUPS - 1, 0, -1)`, from the number `index` on. -/
def shiftBackups : ℕ → Writer ι Unit
  | 0 => pure ()
  | index + 1 => do
    if ← fileExists (backup (index + 1)) then
      replace (backup (index + 1)) (backup (index + 2))
    shiftBackups index

def rotate : Writer ι Unit := do
  unlink (backup backups)
  shiftBackups (backups - 1)
  replace active (backup 1)

/-- The test that decides whether the files are rotated before the line is written. -/
def isFull (line : Line) : Writer ι Bool := do
  if ← fileExists active then
    let size ← statSize active
    return decide (maxFileBytes < size + line.size)
  else
    return false

def append (entry : Entry ι) : Writer ι ℕ := do
  openPrivate active
  let place ← write active entry
  check .fsync (.osError .fsync)
  return place

/-- What `_write_event` does while it holds the lock. -/
def writeLocked (entry : Entry ι) : Writer ι ℕ := do
  check .isSymlink .fileSymlink
  if ← isFull entry.line then
    rotate
  append entry

/-- `_write_event` of an encoded event. -/
def writeEvent [DecidableEq ι] (call : ι) (line : Line) :
    Prog (Locked ι (Directory ι)) Bool (Access Operation Unit) Failure ℕ := do
  (check .prepare .directorySymlink).inside
  (check .openLock (.osError .openLock)).inside
  Prog.withLock call () (writeLocked ⟨call, line⟩)

/-- Any number of calls, each with its event; a crash gives the lock up. -/
def auditSystem [DecidableEq ι] (event : ι → Line) :
    System ι (Locked ι (Directory ι)) Bool (Access Operation Unit) Failure ℕ Unit Empty where
  program := fun call _ => writeEvent call (event call)
  crash := Locked.freed
  env := fun _ e => nomatch e

end Operations

section Chain

variable {n k file : ℕ}

theorem le_of_mem_chain (h : file ∈ chain n) : file ≤ n := by
  induction n with
  | zero => exact (List.mem_singleton.mp h).le
  | succ n ih =>
    rcases List.mem_cons.mp h with hhead | hrest
    · exact hhead.le
    · exact (ih hrest).trans (Nat.le_succ n)

theorem nodup_chain (n : ℕ) : (chain n).Nodup := by
  induction n with
  | zero => exact List.nodup_singleton _
  | succ n ih =>
    refine List.nodup_cons.mpr ⟨fun hmem => ?_, ih⟩
    have hle : n + 1 ≤ n := le_of_mem_chain hmem
    omega

theorem chain_drop (h : k ≤ n) : ∃ older, chain n = older ++ chain k := by
  induction n with
  | zero =>
    obtain rfl : k = 0 := Nat.le_zero.mp h
    exact ⟨[], rfl⟩
  | succ n ih =>
    rcases h.lt_or_eq with hlt | rfl
    · obtain ⟨older, holder⟩ := ih (Nat.lt_succ_iff.mp hlt)
      exact ⟨backup (n + 1) :: older, by rw [chain, holder, List.cons_append]⟩
    · exact ⟨[], rfl⟩

/-- A file and the older one stand side by side in the chain. -/
theorem chain_split (h : k < n) :
    ∃ older later, chain n = older ++ backup (k + 1) :: backup k :: later := by
  obtain ⟨older, holder⟩ := chain_drop (k := k + 1) h
  cases k with
  | zero => exact ⟨older, [], holder⟩
  | succ k => exact ⟨older, chain k, holder⟩

theorem chain_last (n : ℕ) : ∃ older, chain n = older ++ [active] ∧ active ∉ older := by
  obtain ⟨older, holder⟩ := chain_drop (Nat.zero_le n)
  refine ⟨older, holder, fun hmem => ?_⟩
  have hnodup := holder ▸ nodup_chain n
  exact (List.nodup_append.mp hnodup).2.2 active hmem active (List.mem_singleton_self _) rfl

end Chain

section Invariant

variable {ι : Type} {s s' : Directory ι} {entry : Entry ι}

theorem fileSize_append (entries more : List (Entry ι)) :
    fileSize (entries ++ more) = fileSize entries + fileSize more := by
  rw [fileSize, List.map_append, List.sum_append, fileSize, fileSize]

theorem fileSize_single (entry : Entry ι) : fileSize [entry] = entry.line.size := by
  rw [fileSize, List.map_singleton, List.sum_singleton]

theorem Line.size_le (line : Line) : line.size ≤ maxFileBytes := by
  have hfits : line.size ≤ maxEventBytes := line.fits
  have hevent : maxEventBytes ≤ maxFileBytes := by decide
  omega

/-- What holds of the directory after every step, also within a rotation. -/
structure Chained (s : Directory ι) : Prop where
  whole : s.deleted ++ s.contents = s.written
  numbers : ∀ file, s.files file ≠ none → file ≤ backups
  bounded : ∀ file entries, s.files file = some entries → fileSize entries ≤ maxFileBytes

/-- What a step under the lock does: it keeps what the files hold, adds a line at the end, or
deletes the oldest file. -/
inductive Advances (s s' : Directory ι) : Prop
  | keeps (hdeleted : s'.deleted = s.deleted) (hwritten : s'.written = s.written)
      (hcontents : s'.contents = s.contents)
  | writes (entry : Entry ι) (hdeleted : s'.deleted = s.deleted)
      (hwritten : s'.written = s.written ++ [entry])
      (hcontents : s'.contents = s.contents ++ [entry])
  | deletes (hdeleted : s'.deleted = s.deleted ++ (s.files (backup backups)).getD [])
      (hwritten : s'.written = s.written)
      (hfiles : s'.files = Segments.remove (backup backups) s.files)

theorem Advances.refl (s : Directory ι) : Advances s s := .keeps rfl rfl rfl

/-- Without the lock nothing is done to the files. -/
def discipline (ι : Type) : Discipline (Directory ι) Unit where
  inv := Chained
  enters := fun _ _ => True
  held := Advances
  free := fun s s' => s' = s
  free_refl := fun _ => rfl
  free_held := fun s _ h => h ▸ Advances.refl s

/-- A line that was written keeps its place. -/
theorem Advances.place (h : Advances s s') {place : ℕ}
    (hplace : s.written[place]? = some entry) : s'.written[place]? = some entry := by
  cases h with
  | keeps _ hwritten _ => rwa [hwritten]
  | writes added _ hwritten _ =>
    have hlt : place < s.written.length := (List.getElem?_eq_some_iff.mp hplace).1
    rwa [hwritten, List.getElem?_append_left hlt]
  | deletes _ hwritten _ => rwa [hwritten]

theorem contents_oldest (s : Directory ι) : s.contents = (s.files (backup backups)).getD [] ++
    Segments.contents (chain backups) (Segments.remove (backup backups) s.files) := by
  apply Segments.contents_remove
  intro hmem
  have hle : backups ≤ 4 := le_of_mem_chain hmem
  exact absurd hle (by decide)

theorem Advances.lost {s s' : Directory ι} (h : Advances s s') :
    (s.contents <+: s'.contents ∧ s'.deleted = s.deleted) ∨
      ∃ oldest, s.files (backup backups) = some oldest ∧
        s'.files = Segments.remove (backup backups) s.files ∧
        s.contents = oldest ++ s'.contents ∧ s'.deleted = s.deleted ++ oldest := by
  cases h with
  | keeps hdeleted _ hcontents => exact .inl ⟨hcontents ▸ List.prefix_rfl, hdeleted⟩
  | writes entry hdeleted _ hcontents =>
    exact .inl ⟨hcontents ▸ List.prefix_append _ _, hdeleted⟩
  | deletes hdeleted _ hfiles =>
    have hcontents : s.contents = (s.files (backup backups)).getD [] ++ s'.contents := by
      rw [contents_oldest, ← hfiles]
      rfl
    cases holdest : s.files (backup backups) with
    | none =>
      rw [holdest] at hdeleted hcontents
      refine .inl ⟨?_, by rw [hdeleted]; exact List.append_nil _⟩
      exact hcontents ▸ List.prefix_rfl
    | some oldest =>
      rw [holdest] at hdeleted hcontents
      exact .inr ⟨oldest, rfl, hfiles, hcontents, hdeleted⟩

theorem chained_empty : Chained ({} : Directory ι) where
  whole := rfl
  numbers := fun _ hfile => absurd rfl hfile
  bounded := fun _ _ hfile => nomatch hfile

end Invariant

section Holder

variable {ι α : Type} {entry : Entry ι} {line : Line} {index : ℕ}

/-- A program of the holder of the lock, from `B` to `Q`. -/
abbrev Holds {α : Type} (B : Directory ι → Prop) (p : Writer ι α)
    (Q : α → Directory ι → Prop) : Prop :=
  (discipline ι).heldSpec.Triple () B p Q

theorem stable_holder (A : Directory ι → Prop) :
    ((discipline ι).heldSpec (ℓ := Operation)).Stable () A := by
  rintro s s' ⟨-, -, ⟨j, hj, -⟩ | heq⟩ hs
  · exact absurd rfl hj
  · exact heq ▸ hs

theorem holds_atomic {B : Directory ι → Prop} {Q : α → Directory ι → Prop} {operation : Operation}
    {f : Directory ι → Bool → Directory ι × Except Failure α}
    (h : ∀ s ok, Chained s → B s → Chained (f s ok).1 ∧ Advances s (f s ok).1 ∧
      ∀ a, (f s ok).2 = .ok a → Q a (f s ok).1) : Holds B (.atomic operation f) Q :=
  triple_atomic (stable_holder B) (fun a => stable_holder (Q a))
    fun s ok hs hb _ => h s ok hs hb

/-- The rule for an operation that may fail. -/
theorem holds_perform {B : Directory ι → Prop} {Q : α → Directory ι → Prop}
    {operation : Operation} {failure : Failure}
    {effect : Directory ι → Directory ι × Except Failure α}
    (h : ∀ s, Chained s → B s → Chained (effect s).1 ∧ Advances s (effect s).1 ∧
      ∀ a, (effect s).2 = .ok a → Q a (effect s).1) :
    Holds B (perform operation failure effect) Q := by
  apply holds_atomic
  intro s ok hs hb
  cases ok with
  | true => exact h s hs hb
  | false => exact ⟨hs, Advances.refl s, fun a ha => nomatch ha⟩

theorem holds_check {B : Directory ι → Prop} {operation : Operation} {failure : Failure} :
    Holds B (check operation failure) (fun _ => B) :=
  holds_perform fun s hs hb => ⟨hs, Advances.refl s, fun _ _ => hb⟩

theorem holds_exists {B : Directory ι → Prop} (file : FileNumber) :
    Holds B (fileExists file) (fun found s => B s ∧ found = (s.files file).isSome) := by
  apply holds_atomic
  intro s ok hs hb
  refine ⟨hs, Advances.refl s, fun found hfound => ⟨hb, ?_⟩⟩
  exact (Except.ok.inj hfound).symm

theorem holds_stat {B : Directory ι → Prop} (file : FileNumber) : Holds B (statSize file)
    (fun size s => B s ∧ ∃ entries, s.files file = some entries ∧ size = fileSize entries) := by
  apply holds_perform
  intro s hs hb
  cases hfile : s.files file with
  | none => exact ⟨hs, Advances.refl s, fun size hsize => nomatch hsize⟩
  | some entries =>
    refine ⟨hs, Advances.refl s, fun size hsize => ⟨hb, entries, hfile, ?_⟩⟩
    exact (Except.ok.inj hsize).symm

/-- Deleting the oldest file moves its lines from the files to those that are deleted. -/
theorem holds_unlink : Holds (ι := ι) (fun _ => True) (unlink (backup backups))
    (fun _ s => s.files (backup backups) = none) := by
  apply holds_perform
  intro s hs _
  have hgone : Segments.remove (backup backups) s.files (backup backups) = none :=
    Segments.remove_self
  refine ⟨⟨?_, fun file hfile => ?_, fun file entries hfile => ?_⟩, .deletes rfl rfl rfl,
    fun _ _ => hgone⟩
  · have hwhole := hs.whole
    rw [contents_oldest, ← List.append_assoc] at hwhole
    exact hwhole
  · obtain ⟨entries, hentries⟩ := Option.ne_none_iff_exists'.mp hfile
    exact hs.numbers file (Segments.remove_eq_some hentries ▸ Option.some_ne_none entries)
  · exact hs.bounded file entries (Segments.remove_eq_some hfile)

/-- A file is renamed into the vacant place before it in the chain. -/
theorem holds_replace (h : index < backups) :
    Holds (ι := ι) (fun s => s.files (backup (index + 1)) = none)
      (replace (backup index) (backup (index + 1))) (fun _ s => s.files (backup index) = none) := by
  apply holds_perform
  intro s hs hvacant
  cases hfile : s.files (backup index) with
  | none => exact ⟨hs, Advances.refl s, fun _ hraised => nomatch hraised⟩
  | some entries =>
    have hkept : Segments.contents (chain backups)
        (Segments.rename (backup index) (backup (index + 1)) s.files) = s.contents := by
      obtain ⟨older, later, hsplit⟩ := chain_split h
      have hnodup := nodup_chain backups
      rw [Directory.contents, hsplit] at *
      exact Segments.contents_rename hnodup hvacant
    refine ⟨⟨?_, fun file hfound => ?_, fun file held hheld => ?_⟩, .keeps rfl rfl hkept,
      fun _ _ => Segments.rename_source⟩
    · exact (congrArg (s.deleted ++ ·) hkept).trans hs.whole
    · obtain ⟨held, hheld⟩ := Option.ne_none_iff_exists'.mp hfound
      rcases Segments.rename_eq_some hheld with ⟨rfl, -⟩ | hsame
      · exact h
      · exact hs.numbers file (hsame ▸ Option.some_ne_none held)
    · rcases Segments.rename_eq_some hheld with ⟨-, hsource⟩ | hsame
      · exact hs.bounded _ held hsource
      · exact hs.bounded file held hsame

/-- The line fits behind what `calls.jsonl` holds. -/
def Room (line : Line) (s : Directory ι) : Prop :=
  ∀ entries, s.files active = some entries → fileSize entries + line.size ≤ maxFileBytes

theorem room_of_vacant {s : Directory ι} (h : s.files active = none) : Room line s := by
  intro entries hentries
  cases h.symm.trans hentries

/-- Entries that fit are added at the end of `calls.jsonl`. -/
theorem chained_extend {s : Directory ι} (more : List (Entry ι)) (hs : Chained s)
    (hfits : fileSize ((s.files active).getD [] ++ more) ≤ maxFileBytes) :
    let s' : Directory ι :=
      { s with files := Segments.extend active more s.files, written := s.written ++ more }
    Chained s' ∧ s'.contents = s.contents ++ more := by
  intro s'
  have hcontents : s'.contents = s.contents ++ more := by
    obtain ⟨older, hchain, hactive⟩ := chain_last backups
    rw [Directory.contents, Directory.contents, hchain]
    exact Segments.contents_extend hactive more
  refine ⟨⟨?_, fun file hfound => ?_, fun file entries hentries => ?_⟩, hcontents⟩
  · rw [hcontents, ← List.append_assoc, hs.whole]
  · obtain ⟨entries, hentries⟩ := Option.ne_none_iff_exists'.mp hfound
    rcases Segments.extend_eq_some hentries with ⟨rfl, -⟩ | hsame
    · exact Nat.zero_le backups
    · exact hs.numbers file (hsame ▸ Option.some_ne_none entries)
  · rcases Segments.extend_eq_some hentries with ⟨-, rfl⟩ | hsame
    · exact hfits
    · exact hs.bounded file entries hsame

theorem fileSize_active {s : Directory ι} (h : Room line s) :
    fileSize ((s.files active).getD []) + line.size ≤ maxFileBytes := by
  cases hactive : s.files active with
  | none =>
    have hline := line.size_le
    simpa [fileSize] using hline
  | some entries => exact h entries hactive

theorem holds_openPrivate : Holds (ι := ι) (Room line) (openPrivate active)
    (fun _ => Room line) := by
  apply holds_perform
  intro s hs hroom
  have hsize := fileSize_active hroom
  obtain ⟨hs', hcontents⟩ := chained_extend [] hs (by rw [List.append_nil]; omega)
  simp only [List.append_nil] at hs' hcontents
  have hroom' (entries : List (Entry ι))
      (hentries : Segments.extend active [] s.files active = some entries) :
      fileSize entries + line.size ≤ maxFileBytes := by
    rcases Segments.extend_eq_some hentries with ⟨-, rfl⟩ | hsame
    · rwa [List.append_nil]
    · exact hroom entries hsame
  exact ⟨hs', .keeps rfl rfl hcontents, fun _ _ => hroom'⟩

/-- The line is written whole and becomes the last one. -/
theorem holds_write : Holds (Room entry.line) (write active entry)
    (fun place s => s.written[place]? = some entry) := by
  apply holds_perform
  intro s hs hroom
  have hsize := fileSize_active hroom
  obtain ⟨hs', hcontents⟩ := chained_extend [entry] hs (by
    rw [fileSize_append, fileSize_single]
    exact hsize)
  refine ⟨hs', .writes entry rfl rfl hcontents, fun place hplace => ?_⟩
  cases hplace
  exact List.getElem?_concat_length

/-- After the loop the place behind the files that were renamed is vacant. -/
theorem holds_shiftBackups (h : index < backups) :
    Holds (ι := ι) (fun s => s.files (backup (index + 1)) = none) (shiftBackups index)
      (fun _ s => s.files (backup 1) = none) := by
  induction index with
  | zero => exact triple_done (stable_holder _) fun _ _ hvacant => hvacant
  | succ index ih =>
    have hrest := ih (by omega)
    refine triple_bind (holds_exists (backup (index + 1))) fun found => ?_
    cases found with
    | true =>
      have hpre := triple_pre (holds_replace (ι := ι) h)
        (A := fun s => s.files (backup (index + 1 + 1)) = none ∧
          true = (s.files (backup (index + 1))).isSome) fun _ _ hfound => hfound.1
      exact triple_bind hpre fun _ => hrest
    | false =>
      -- a number that has no file is left as it is: its place is vacant already
      refine triple_pre hrest fun s _ hfound => ?_
      exact Option.isNone_iff_eq_none.mp (by simpa using hfound.2.symm)

theorem holds_rotate : Holds (ι := ι) (fun _ => True) rotate (fun _ => Room line) := by
  refine triple_bind holds_unlink fun _ => ?_
  have hshift : backups - 1 < backups := by decide
  refine triple_bind (holds_shiftBackups hshift) fun _ => ?_
  have hactive : 0 < backups := by decide
  exact triple_post (holds_replace hactive) fun _ _ hvacant => room_of_vacant hvacant

theorem holds_isFull : Holds (ι := ι) (fun _ => True) (isFull line)
    (fun full s => full = false → Room line s) := by
  refine triple_bind (holds_exists active) fun found => ?_
  cases found with
  | true =>
    refine triple_bind (holds_stat active) fun size => ?_
    refine triple_done (stable_holder _) ?_
    rintro s - ⟨-, entries, hactive, rfl⟩ hfits entries' hentries'
    cases hactive.symm.trans hentries'
    simpa using hfits
  | false =>
    refine triple_done (stable_holder _) ?_
    rintro s - ⟨-, hnone⟩ -
    exact room_of_vacant (Option.isNone_iff_eq_none.mp (by simpa using hnone.symm))

theorem holds_append : Holds (Room entry.line) (append entry)
    (fun place s => s.written[place]? = some entry) :=
  triple_bind holds_openPrivate fun _ => triple_bind holds_write fun _ =>
    triple_bind holds_check fun _ => triple_done (stable_holder _) fun _ _ hplace => hplace

theorem holds_writeLocked : Holds (fun _ => True) (writeLocked entry)
    (fun place s => s.written[place]? = some entry) := by
  refine triple_bind holds_check fun _ => triple_bind holds_isFull fun full => ?_
  cases full with
  | true => exact triple_bind (triple_pre holds_rotate fun _ _ _ => trivial) fun _ => holds_append
  | false => exact triple_pre holds_append fun _ _ hroom => hroom rfl

end Holder

section System

variable {ι : Type} {event : ι → Line}

/-- The calls of `_write_event`, each where it is, and the directory with its lock. -/
abbrev Calls (ι : Type) : Type :=
  Pool ι (Locked ι (Directory ι)) Bool (Access Operation Unit) Failure ℕ

/-- An empty directory, before the first call. -/
def noCalls (ι : Type) : Calls ι where
  shared := ⟨{}, none⟩
  threads := fun _ => none

theorem triple_check {operation : Operation} {failure : Failure} (call : ι) :
    (discipline ι).spec.Triple (ℓ := Access Operation Unit) call (fun _ => True)
      (check operation failure).inside (fun _ _ => True) := by
  have hfree : (discipline ι).freeSpec.Triple () (fun _ => True)
      (check operation failure) (fun _ _ => True) := by
    apply triple_atomic stable_true (fun _ => stable_true)
    intro s ok hs _ _
    cases ok with
    | true => exact ⟨hs, rfl, fun _ _ => trivial⟩
    | false => exact ⟨hs, rfl, fun _ _ => trivial⟩
  exact Discipline.triple_inside_free hfree

/-- Every call may take the lock. -/
theorem enters_any (s : Locked ι (Directory ι)) (label : Access Operation Unit)
    (_ : System.anyStep s label) : (discipline ι).spec.cond s label := by
  cases label with
  | acquire => trivial
  | inner | release => trivial

variable [DecidableEq ι]

/-- `p` is a state that some order of steps of some calls and crashes leads to. -/
def Reached (event : ι → Line) (p : Calls ι) : Prop :=
  (auditSystem event).Reach System.anyStep (noCalls ι) p

/-- A call that returns has written its line, at the place that it returns. -/
theorem triple_writeEvent (call : ι) (line : Line) :
    (discipline ι).spec.Triple call (fun _ => True) (writeEvent call line)
      (fun place s => s.shared.written[place]? = some ⟨call, line⟩) := by
  refine triple_bind (triple_check call) fun _ => triple_bind (triple_check call) fun _ => ?_
  have hbody : (discipline ι).heldSpec.Triple ()
      (fun s => True ∧ (discipline ι).enters s ()) (writeLocked ⟨call, line⟩)
      (fun place s => s.written[place]? = some ⟨call, line⟩) :=
    triple_pre holds_writeLocked fun _ _ _ => trivial
  have hplace (place : ℕ) (s s' : Directory ι) (hstep : (discipline ι).held s s')
      (hs : s.written[place]? = some ⟨call, line⟩) : s'.written[place]? = some ⟨call, line⟩ :=
    Advances.place hstep hs
  exact Discipline.triple_withLock (fun _ _ _ _ => trivial) hplace (fun _ _ _ _ => trivial) hbody

theorem sound_audit (event : ι → Line) : (discipline ι).spec.Sound (auditSystem event) where
  crash := fun call s hs =>
    ⟨Discipline.inv_freed (D := discipline ι) call hs, Discipline.guar_freed call s⟩
  env := fun _ e => nomatch e
  program := fun call _ =>
    triple_post (triple_writeEvent call (event call)) fun _ _ _ => trivial

/-- What every call has returned, and what every step does, in a state that is reached. -/
theorem ensures_reached {p : Calls ι} (h : Reached event p) :
    (discipline ι).spec.PoolEnsures
      (fun call place s => s.shared.written[place]? = some ⟨call, event call⟩) p := by
  have hstart : Chained (noCalls ι).shared.shared := chained_empty
  exact poolEnsures_reach (sound_audit event) (fun call _ => triple_writeEvent call (event call))
    (poolEnsures_of_idle hstart fun _ => rfl) (System.Reach.mono _ enters_any h)

/-- The audit in one state of a run: what the files hold are the last lines that were written,
and what is missing was in a file that was deleted as the oldest. -/
structure KeepsEvents (event : ι → Line) (p : Calls ι) : Prop where
  contiguous : p.shared.shared.deleted ++ p.shared.shared.contents = p.shared.shared.written
  files : {file | p.shared.shared.files file ≠ none}.encard ≤ 6
  bounded : ∀ file entries, p.shared.shared.files file = some entries →
    fileSize entries ≤ maxFileBytes
  /-- A completed call has written its event, which is in the files or was deleted with one. -/
  completed : ∀ call place, p.threads call = some (.done place) →
    p.shared.shared.written[place]? = some ⟨call, event call⟩ ∧
      (⟨call, event call⟩ ∈ p.shared.shared.contents ∨ place < p.shared.shared.deleted.length)
  /-- A step keeps all that the files hold, unless it deletes the oldest file. -/
  lost : ∀ q, (auditSystem event).Step System.anyStep p q →
    (p.shared.shared.contents <+: q.shared.shared.contents ∧
      q.shared.shared.deleted = p.shared.shared.deleted) ∨
    ∃ oldest, p.shared.shared.files (backup backups) = some oldest ∧
      q.shared.shared.files = Segments.remove (backup backups) p.shared.shared.files ∧
      p.shared.shared.contents = oldest ++ q.shared.shared.contents ∧
      q.shared.shared.deleted = p.shared.shared.deleted ++ oldest

/-- In every state that the calls, their steps in any order and crashes lead to, the files hold
the last lines that were written, in their order. -/
theorem rotation_keeps_events {p : Calls ι} (h : Reached event p) : KeepsEvents event p := by
  have hensures := ensures_reached h
  have hs : Chained p.shared.shared := hensures.1
  refine ⟨hs.whole, ?_, hs.bounded, fun call place hdone => ?_, fun q hstep => ?_⟩
  · have hsubset : {file | p.shared.shared.files file ≠ none} ⊆
        ((Finset.range 6 : Finset ℕ) : Set ℕ) :=
      fun file hfile => Finset.mem_coe.mpr (Finset.mem_range.mpr (Nat.lt_succ_of_le
        (hs.numbers file hfile)))
    refine (Set.encard_le_encard hsubset).trans ?_
    rw [Set.encard_coe_eq_coe_finsetCard, Finset.card_range]
    exact le_rfl
  · have hplace : p.shared.shared.written[place]? = some ⟨call, event call⟩ :=
      hensures.returned hdone
    refine ⟨hplace, ?_⟩
    rcases Nat.lt_or_ge place p.shared.shared.deleted.length with hlt | hge
    · exact .inr hlt
    · rw [← hs.whole, List.getElem?_append_right hge] at hplace
      exact .inl (List.mem_of_getElem? hplace)
  · have henters := System.Step.mono _ enters_any hstep
    have hq := (poolSafe_step (sound_audit event) ⟨hs, fun call t ht =>
      (hensures.2 call t ht).mono fun _ _ _ => trivial⟩ henters).2
    rcases hq with ⟨call, hguar⟩ | ⟨-, hfree⟩ | hsame
    · exact hguar.held.lost
    · rw [show q.shared.shared = p.shared.shared from hfree]
      exact .inl ⟨List.prefix_rfl, rfl⟩
    · rw [hsame]
      exact .inl ⟨List.prefix_rfl, rfl⟩

end System

/-- The same event for every call. -/
def emptyEvent : ℕ → Line := fun _ => ⟨['\x7b', '\x7d', '\n'], by decide⟩

/-- A call crashes between its write and the `fsync`, and another one follows it. -/
def crashAndWrite : List (Action ℕ Bool Unit Empty) :=
  .start 0 () :: List.replicate 7 (.act 0 true) ++ .crash 0 :: .start 1 () ::
    List.replicate 10 (.act 1 true)

/-- The run ends with the lines of both calls in `calls.jsonl`. -/
theorem crashAndWrite_keeps_events : ∃ p, Reached emptyEvent p ∧
    p.shared.shared.contents.map Entry.call = [0, 1] ∧ KeepsEvents emptyEvent p := by
  obtain ⟨p, hp, hcontents⟩ := System.exists_reach (auditSystem emptyEvent) System.anyStep
    crashAndWrite (p := noCalls ℕ) (f := fun p => p.shared.shared.contents.map Entry.call)
    (b := [0, 1]) (by decide +kernel)
  exact ⟨p, hp, hcontents, rotation_keeps_events hp⟩

end ProjectControl.Audit
