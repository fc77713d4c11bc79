import Mathlib
import ProjectControl.Frames
import ProjectControl.LossyText

/-! The fingerprint of a package, as the runtime computes it and as the installer does: which
packages the two agree on, and which sources a fingerprint identifies. -/

set_option autoImplicit false

namespace ProjectControl.Build

open LossyText

section Trees

abbrev Name := List Char

/-- A path below the root of a package. -/
@[ext] structure RelPath where
  parts : List Name
  nonempty : parts ≠ []
  names : ∀ n ∈ parts, n ≠ [] ∧ '/' ∉ n ∧ '\x00' ∉ n ∧ n ≠ ['.'] ∧ n ≠ ['.', '.']

/-- Paths are compared name by name. -/
instance : LinearOrder RelPath := LinearOrder.lift' RelPath.parts fun _ _ h => RelPath.ext h

/-- `as_posix`. -/
def RelPath.posix (p : RelPath) : List Char := List.intercalate ['/'] p.parts

def RelPath.bytes (p : RelPath) : List ℕ := encode p.posix

def RelPath.name (p : RelPath) : Name := p.parts.getLast p.nonempty

/-- What stands at a path; a link to a regular file is read as that file. -/
inductive Node where
  | file (content : List ℕ)
  | dir
  | other
  | link (content : Option (List ℕ))

def Node.isSymlink : Node → Bool
  | .link _ => true
  | _ => false

/-- The bytes of what `is_file` holds of. -/
def Node.content? : Node → Option (List ℕ)
  | .file content => some content
  | .link content => content
  | _ => none

/-- A package: everything below its root, in the order in which it is listed. -/
structure Package where
  root : String
  entries : List (RelPath × Node)
  paths_nodup : (entries.map Prod.fst).Nodup
  /-- What lies below something lies in a directory. -/
  above_dir : ∀ e ∈ entries, ∀ d : RelPath, d.parts <+: e.1.parts → d ≠ e.1 → (d, .dir) ∈ entries

def Package.Unlinked (t : Package) : Prop := ∀ e ∈ t.entries, e.2.isSymlink = false

end Trees

section Fingerprints

/-- `PurePath.suffix`. -/
def suffix (name : Name) : Name :=
  match name.reverse.takeWhile (· ≠ '.'), name.reverse.dropWhile (· ≠ '.') with
  | c :: after, _ :: _ :: _ => '.' :: (c :: after).reverse
  | _, _ => []

/-- What the pattern `*.py` matches. -/
def globPy (name : Name) : Bool := ['.', 'p', 'y'] <:+ name

def hasPySuffix (name : Name) : Bool := suffix name = ['.', 'p', 'y']

variable (select : Name → Bool)

def byPath (e e' : RelPath × List ℕ) : Prop := e.1 ≤ e'.1

instance : DecidableRel byPath := fun e e' => inferInstanceAs (Decidable (e.1 ≤ e'.1))

instance : Std.Total byPath := ⟨fun e e' => le_total e.1 e'.1⟩

instance : IsTrans (RelPath × List ℕ) byPath := ⟨fun _ _ _ => le_trans⟩

def source? (e : RelPath × Node) : Option (RelPath × List ℕ) :=
  if select e.1.name then e.2.content?.map (Prod.mk e.1) else none

/-- The selected regular files, sorted. -/
def Package.sources (t : Package) : List (RelPath × List ℕ) :=
  (t.entries.filterMap (source? select)).insertionSort byPath

def Package.stream (t : Package) : List ℕ := Frames.stream 0 RelPath.bytes (t.sources select)

structure RuntimeIdentityError where
  message : String
  expected : String
  observed : String
  deriving DecidableEq

variable {D : Type*} (sha256 : List ℕ → D)

/-- `package_fingerprint`. -/
def packageFingerprint (allowEmpty : Bool) (t : Package) : Except RuntimeIdentityError D :=
  match t.entries.find? fun e => e.2.isSymlink with
  | some e => .error ⟨"Todo package contains a symlink", "regular package files",
      t.root ++ "/" ++ String.ofList e.1.posix⟩
  | none =>
    if t.sources hasPySuffix = [] ∧ allowEmpty = false then
      .error ⟨"Todo package contains no Python sources", t.root, "empty"⟩
    else .ok (sha256 (t.stream hasPySuffix))

/-- `_source_fingerprint`. -/
def sourceFingerprint (t : Package) : D := sha256 (t.stream globPy)

end Fingerprints

section Paths

variable {p q : RelPath} {name : Name}

theorem posix_injective : Function.Injective RelPath.posix := by
  intro p q h
  have hsplit (r : RelPath) : r.posix.splitOn '/' = r.parts :=
    List.splitOn_intercalate '/' (fun n hn => (r.names n hn).2.1) r.nonempty
  exact RelPath.ext (by rw [← hsplit p, h, hsplit q])

theorem bytes_injective : Function.Injective RelPath.bytes := fun _ _ h =>
  posix_injective (encode_injective h)

theorem mem_intercalate {x c : Char} {names : List Name} (h : c ∈ List.intercalate [x] names) :
    c = x ∨ ∃ n ∈ names, c ∈ n := by
  induction names with
  | nil => cases h
  | cons n names ih =>
    cases names with
    | nil => exact .inr ⟨n, List.mem_cons_self, by simpa using h⟩
    | cons n' names =>
      rw [List.intercalate_cons_cons, List.mem_append, List.mem_append] at h
      rcases h with (hn | hx) | hrest
      · exact .inr ⟨n, List.mem_cons_self, hn⟩
      · exact .inl (List.mem_singleton.mp hx)
      · exact (ih hrest).imp_right fun ⟨m, hm, hc⟩ => ⟨m, List.mem_cons_of_mem _ hm, hc⟩

theorem zero_notMem_bytes (p : RelPath) : 0 ∉ p.bytes := by
  refine encode_ne_zero fun hmem => ?_
  rcases mem_intercalate hmem with hslash | ⟨n, hn, hzero⟩
  · exact absurd hslash (by decide)
  · exact (p.names n hn).2.2.1 hzero

theorem hasPySuffix_iff :
    hasPySuffix name = true ↔ globPy name = true ∧ name ≠ ['.', 'p', 'y'] := by
  simp only [hasPySuffix, globPy, decide_eq_true_eq]
  constructor
  · intro h
    unfold suffix at h
    split at h
    case h_1 l after d c rest htake hdrop =>
      have hafter : l :: after = ['y', 'p'] := List.reverse_eq_iff.mp (List.cons.inj h).2
      have hdot : d = '.' := by
        have hhead := List.head?_dropWhile_not (fun c => decide (c ≠ '.')) name.reverse
        rw [hdrop] at hhead
        simpa using hhead
      have hsplit := List.takeWhile_append_dropWhile (p := fun c => decide (c ≠ '.'))
        (l := name.reverse)
      rw [htake, hdrop, hafter, hdot] at hsplit
      have hname : name = (c :: rest).reverse ++ ['.', 'p', 'y'] := by
        rw [← List.reverse_reverse name, ← hsplit]
        simp
      refine ⟨⟨_, hname.symm⟩, fun hpy => ?_⟩
      rw [hpy] at hname
      have hlength := congrArg List.length hname
      simp at hlength
    case h_2 => cases h
  · rintro ⟨⟨stem, rfl⟩, hne⟩
    cases hstem : stem.reverse with
    | nil =>
      rw [List.reverse_eq_nil_iff.mp hstem] at hne
      exact absurd rfl hne
    | cons c rest => simp [suffix, hstem]

end Paths

section Sources

variable {t : Package} {select : Name → Bool} {p q : RelPath} {c : List ℕ} {e : RelPath × List ℕ}

theorem source?_eq_some {e : RelPath × Node} : source? select e = some (p, c) ↔
    e.1 = p ∧ select p.name = true ∧ e.2.content? = some c := by
  unfold source?
  split
  case isTrue h =>
    constructor
    · intro hmap
      obtain ⟨content, hcontent, hpair⟩ := Option.map_eq_some_iff.mp hmap
      obtain ⟨rfl, rfl⟩ := Prod.mk.inj hpair
      exact ⟨rfl, h, hcontent⟩
    · rintro ⟨rfl, -, hcontent⟩
      rw [hcontent]
      rfl
  case isFalse h =>
    constructor
    · exact fun hnone => nomatch hnone
    · rintro ⟨rfl, hselect, -⟩
      exact absurd hselect h

theorem mem_sources : (p, c) ∈ t.sources select ↔
    select p.name = true ∧ ∃ n, (p, n) ∈ t.entries ∧ n.content? = some c := by
  rw [Package.sources, List.mem_insertionSort, List.mem_filterMap]
  constructor
  · rintro ⟨⟨path, n⟩, hmem, hsource⟩
    obtain ⟨rfl, hselect, hcontent⟩ := source?_eq_some.mp hsource
    exact ⟨hselect, n, hmem, hcontent⟩
  · rintro ⟨hselect, n, hmem, hcontent⟩
    exact ⟨(p, n), hmem, source?_eq_some.mpr ⟨rfl, hselect, hcontent⟩⟩

theorem sources_selected (h : e ∈ t.sources select) : select e.1.name = true :=
  (mem_sources.mp h).1

theorem entry_unique {n n' : Node} (h : (p, n) ∈ t.entries) (h' : (p, n') ∈ t.entries) : n = n' :=
  congrArg Prod.snd (List.inj_on_of_nodup_map t.paths_nodup h h' rfl)

theorem sources_nodup : ((t.sources select).map Prod.fst).Nodup := by
  have hperm := (List.perm_insertionSort byPath (t.entries.filterMap (source? select))).map Prod.fst
  refine hperm.nodup_iff.mpr (List.Nodup.sublist ?_ t.paths_nodup)
  generalize t.entries = entries
  induction entries with
  | nil => exact List.Sublist.slnil
  | cons e entries ih =>
    rw [List.filterMap_cons]
    split
    case h_1 => exact ih.cons _
    case h_2 s hs =>
      obtain ⟨hpath, -⟩ := source?_eq_some.mp hs
      rw [List.map_cons, List.map_cons, hpath]
      exact ih.cons_cons _

/-- The sources stand in the strict order of their paths. -/
theorem sources_sorted : ((t.sources select).map Prod.fst).Pairwise (· < ·) := by
  have hle : ((t.sources select).map Prod.fst).Pairwise (· ≤ ·) :=
    List.pairwise_map.mpr (List.pairwise_insertionSort byPath _)
  exact (hle.and sources_nodup).imp fun ⟨hle, hne⟩ => lt_of_le_of_ne hle hne

/-- No source lies below another one. -/
theorem sources_apart {e' : RelPath × List ℕ} (h : e ∈ t.sources select)
    (h' : e' ∈ t.sources select) (hbelow : e.1.parts <+: e'.1.parts) : e.1 = e'.1 := by
  obtain ⟨-, n, hmem, hcontent⟩ := mem_sources.mp h
  obtain ⟨-, n', hmem', -⟩ := mem_sources.mp h'
  by_contra hne
  have hdir := t.above_dir (e'.1, n') hmem' e.1 hbelow hne
  rw [entry_unique hmem hdir] at hcontent
  cases hcontent

end Sources

section Agreement

variable {D : Type*} {sha256 : List ℕ → D} {t : Package} {allowEmpty : Bool}

theorem find_symlink (ht : t.Unlinked) : (t.entries.find? fun e => e.2.isSymlink) = none :=
  List.find?_eq_none.mpr fun e he => by rw [ht e he]; exact Bool.false_ne_true

theorem packageFingerprint_unlinked (ht : t.Unlinked) : packageFingerprint sha256 allowEmpty t =
    if t.sources hasPySuffix = [] ∧ allowEmpty = false then
      .error ⟨"Todo package contains no Python sources", t.root, "empty"⟩
    else .ok (sha256 (t.stream hasPySuffix)) := by
  rw [packageFingerprint, find_symlink ht]

theorem packageFingerprint_ok (ht : t.Unlinked) {d : D} :
    packageFingerprint sha256 allowEmpty t = .ok d ↔
      (t.sources hasPySuffix = [] → allowEmpty = true) ∧ sha256 (t.stream hasPySuffix) = d := by
  rw [packageFingerprint_unlinked ht]
  split
  case isTrue h =>
    constructor
    · exact fun herror => nomatch herror
    · rintro ⟨hempty, -⟩
      exact absurd (hempty h.1) (by rw [h.2]; exact Bool.false_ne_true)
  case isFalse h =>
    have hempty : t.sources hasPySuffix = [] → allowEmpty = true := fun hnil =>
      Bool.not_eq_false _ ▸ fun hfalse => h ⟨hnil, hfalse⟩
    simp only [Except.ok.injEq]
    exact ⟨fun hd => ⟨hempty, hd⟩, fun hd => hd.2⟩

/-- A file whose whole name is `.py` has the ending for the installer only. -/
def Package.PlainNames (t : Package) : Prop :=
  ∀ e ∈ t.entries, e.2.content?.isSome = true → e.1.name ≠ ['.', 'p', 'y']

theorem sources_eq_filter : t.sources hasPySuffix =
    (t.sources globPy).filter fun e => e.1.name ≠ ['.', 'p', 'y'] := by
  have hfilter := sources_sorted.sublist
    (List.filter_sublist (p := fun e => decide (e.1.name ≠ ['.', 'p', 'y'])) (l := t.sources globPy)
      |>.map Prod.fst)
  have hpaths := List.pairwise_map.mp (@sources_sorted t hasPySuffix)
  refine List.Perm.eq_of_pairwise (fun e e' _ _ h h' => absurd h (lt_asymm h')) hpaths
    (List.pairwise_map.mp hfilter) ((List.perm_ext_iff_of_nodup ?_ ?_).mpr ?_)
  · exact List.Nodup.of_map _ sources_nodup
  · exact (List.Nodup.of_map _ sources_nodup).filter _
  · intro e
    rw [List.mem_filter, mem_sources, mem_sources, hasPySuffix_iff, decide_eq_true_eq]
    tauto

theorem plainNames_iff : t.PlainNames ↔ t.sources hasPySuffix = t.sources globPy := by
  rw [sources_eq_filter, List.filter_eq_self]
  constructor
  · intro h e he
    obtain ⟨-, n, hmem, hcontent⟩ := mem_sources.mp he
    exact decide_eq_true (h (e.1, n) hmem (by rw [hcontent]; rfl))
  · intro h e he hfile hname
    obtain ⟨c, hc⟩ := Option.isSome_iff_exists.mp hfile
    have hglob : globPy e.1.name = true := by
      rw [hname]
      decide
    exact of_decide_eq_true (h (e.1, c) (mem_sources.mpr ⟨hglob, e.2, he, hc⟩)) hname

/-- The two fingerprints of a package without links are equal exactly if no file is named `.py`
and the runtime does not miss the sources. -/
theorem fingerprints_agree_iff (hsha : Function.Injective sha256) (ht : t.Unlinked) :
    packageFingerprint sha256 allowEmpty t = .ok (sourceFingerprint sha256 t) ↔
      t.PlainNames ∧ (t.sources hasPySuffix = [] → allowEmpty = true) := by
  rw [packageFingerprint_ok ht, plainNames_iff, and_comm]
  refine and_congr_left fun _ => ⟨fun h => ?_, fun h => ?_⟩
  · refine Frames.eq_of_stream_eq ?_ (hsha h)
    rw [sources_eq_filter]
    exact List.filter_sublist
  · rw [sourceFingerprint, Package.stream, h, Package.stream]

end Agreement

section Placing

variable {d p : RelPath} {es : List (RelPath × List ℕ)} {select : Name → Bool}

/-- The path of the first names. -/
def RelPath.take (p : RelPath) (i : ℕ) (hi : 0 < i) : RelPath where
  parts := p.parts.take i
  nonempty := by
    rw [ne_eq, List.take_eq_nil_iff]
    exact fun h => h.elim hi.ne' p.nonempty
  names := fun n hn => p.names n (List.mem_of_mem_take hn)

/-- The directories on the way to a path. -/
def RelPath.above (p : RelPath) : List RelPath :=
  (List.range (p.parts.length - 1)).map fun i => p.take (i + 1) i.succ_pos

theorem mem_above : d ∈ p.above ↔ d.parts <+: p.parts ∧ d ≠ p := by
  constructor
  · intro h
    obtain ⟨i, hi, rfl⟩ := List.mem_map.mp h
    refine ⟨List.take_prefix _ _, fun heq => ?_⟩
    have hlength := congrArg (fun p => p.parts.length) heq
    simp only [RelPath.take, List.length_take] at hlength
    have hlt := List.mem_range.mp hi
    omega
  · rintro ⟨hstarts, hne⟩
    have hpos : 0 < d.parts.length := List.length_pos_of_ne_nil d.nonempty
    have hlt : d.parts.length < p.parts.length := by
      refine lt_of_le_of_ne hstarts.length_le fun hlength => hne (RelPath.ext ?_)
      exact hstarts.eq_of_length hlength
    refine List.mem_map.mpr ⟨d.parts.length - 1, List.mem_range.mpr (by omega), RelPath.ext ?_⟩
    have hsucc : d.parts.length - 1 + 1 = d.parts.length := by omega
    have htake : (p.take _ (d.parts.length - 1).succ_pos).parts = p.parts.take d.parts.length :=
      congrArg (fun i => p.parts.take i) hsucc
    rw [htake]
    exact (List.prefix_iff_eq_take.mp hstarts).symm

/-- Sources that can stand in one package. -/
structure Placeable (es : List (RelPath × List ℕ)) : Prop where
  sorted : (es.map Prod.fst).Pairwise (· < ·)
  apart : ∀ e ∈ es, ∀ e' ∈ es, e.1.parts <+: e'.1.parts → e.1 = e'.1

def filesOf (es : List (RelPath × List ℕ)) : List (RelPath × Node) :=
  es.map fun e => (e.1, .file e.2)

def dirsOf (es : List (RelPath × List ℕ)) : List (RelPath × Node) :=
  (es.flatMap fun e => e.1.above).dedup.map fun d => (d, .dir)

theorem mem_dirsOf {n : Node} : (d, n) ∈ dirsOf es ↔
    n = .dir ∧ ∃ e ∈ es, d.parts <+: e.1.parts ∧ d ≠ e.1 := by
  simp only [dirsOf, List.mem_map, List.mem_dedup, List.mem_flatMap, mem_above, Prod.mk.injEq]
  constructor
  · rintro ⟨d', ⟨e, he, habove⟩, rfl, rfl⟩
    exact ⟨rfl, e, he, habove⟩
  · rintro ⟨rfl, e, he, habove⟩
    exact ⟨d, ⟨e, he, habove⟩, rfl, rfl⟩

/-- The package of these sources and the directories above them. -/
def place (root : String) (es : List (RelPath × List ℕ)) (h : Placeable es) : Package where
  root := root
  entries := filesOf es ++ dirsOf es
  paths_nodup := by
    rw [List.map_append, List.nodup_append]
    have hfiles : (filesOf es).map Prod.fst = es.map Prod.fst := by
      rw [filesOf, List.map_map]
      rfl
    have hdirs : (dirsOf es).map Prod.fst = (es.flatMap fun e => e.1.above).dedup := by
      rw [dirsOf, List.map_map]
      exact List.map_id _
    refine ⟨hfiles ▸ h.sorted.imp ne_of_lt, hdirs ▸ List.nodup_dedup _, ?_⟩
    rintro p hp d hd rfl
    rw [hfiles] at hp
    rw [hdirs, List.mem_dedup] at hd
    obtain ⟨e, he, rfl⟩ := List.mem_map.mp hp
    obtain ⟨e', he', habove⟩ := List.mem_flatMap.mp hd
    obtain ⟨hstarts, hne⟩ := mem_above.mp habove
    exact hne (h.apart e he e' he' hstarts)
  above_dir := by
    rintro ⟨p, n⟩ hmem d hstarts hne
    refine List.mem_append_right _ (mem_dirsOf.mpr ⟨rfl, ?_⟩)
    rcases List.mem_append.mp hmem with hfile | hdir
    · obtain ⟨e, he, heq⟩ := List.mem_map.mp hfile
      obtain ⟨rfl, -⟩ := Prod.mk.inj heq
      exact ⟨e, he, hstarts, hne⟩
    · obtain ⟨-, e, he, hbelow, hstrict⟩ := mem_dirsOf.mp hdir
      refine ⟨e, he, hstarts.trans hbelow, ?_⟩
      rintro rfl
      have hlength := hbelow.length_le.antisymm hstarts.length_le
      exact hstrict (RelPath.ext (hbelow.eq_of_length hlength))

variable {root : String}

theorem place_unlinked (h : Placeable es) : (place root es h).Unlinked := by
  rintro ⟨p, n⟩ hmem
  rcases List.mem_append.mp hmem with hfile | hdir
  · obtain ⟨e, -, heq⟩ := List.mem_map.mp hfile
    obtain ⟨-, rfl⟩ := Prod.mk.inj heq
    rfl
  · obtain ⟨rfl, -⟩ := mem_dirsOf.mp hdir
    rfl

theorem sources_place (h : Placeable es) (hes : ∀ e ∈ es, select e.1.name = true) :
    (place root es h).sources select = es := by
  have hfiles : (filesOf es).filterMap (source? select) = es := by
    rw [filesOf, List.filterMap_map]
    refine (List.filterMap_congr fun e he => ?_).trans List.filterMap_some
    exact source?_eq_some.mpr ⟨rfl, hes e he, rfl⟩
  have hdirs : (dirsOf es).filterMap (source? select) = [] := by
    refine List.filterMap_eq_nil_iff.mpr fun ⟨d, n⟩ hmem => ?_
    obtain ⟨rfl, -⟩ := mem_dirsOf.mp hmem
    exact Option.eq_none_iff_forall_ne_some.mpr fun s hs => by cases (source?_eq_some.mp hs).2.2
  rw [Package.sources, place, List.filterMap_append, hfiles, hdirs, List.append_nil]
  exact List.Pairwise.insertionSort_eq ((List.pairwise_map.mp h.sorted).imp le_of_lt)

end Placing

section Ambiguity

variable {D : Type*} (sha256 : List ℕ → D) (select : Name → Bool)

/-- The bytes hold the end of one source and the whole of another one that could stand after it. -/
def Splits (e : RelPath × List ℕ) : Prop :=
  ∃ q : RelPath, select q.name = true ∧ e.1 < q ∧ ¬ e.1.parts <+: q.parts ∧
    ∃ u v, e.2 = u ++ 0 :: (q.bytes ++ 0 :: v)

/-- There is one source at most, and it does not split. -/
def Single (es : List (RelPath × List ℕ)) : Prop :=
  es.length ≤ 1 ∧ ∀ e ∈ es, ¬ Splits select e

def SameSources (t t' : Package) : Prop := ∀ e, e ∈ t.sources select ↔ e ∈ t'.sources select

variable {select} {t t' : Package} {e : RelPath × List ℕ} {es : List (RelPath × List ℕ)}

theorem placeable_sources (t : Package) : Placeable (t.sources select) where
  sorted := sources_sorted
  apart := fun _ he _ he' hbelow => sources_apart he he' hbelow

theorem sameSources_iff : SameSources select t t' ↔ t.sources select = t'.sources select := by
  refine ⟨fun h => ?_, fun h e => by rw [h]⟩
  exact List.Perm.eq_of_pairwise (fun e e' _ _ h h' => absurd h (lt_asymm h'))
    (List.pairwise_map.mp sources_sorted) (List.pairwise_map.mp sources_sorted)
    ((List.perm_ext_iff_of_nodup (List.Nodup.of_map _ sources_nodup)
      (List.Nodup.of_map _ sources_nodup)).mpr h)

/-- A single source that does not split has a stream of its own. -/
theorem single_identifies (h : Single select (t.sources select))
    (hstream : t.stream select = t'.stream select) : t.sources select = t'.sources select := by
  unfold Package.stream at hstream
  cases hsources : t.sources select with
  | nil =>
    rw [hsources] at hstream
    exact (Frames.stream_eq_nil hstream.symm).symm
  | cons e rest =>
    rw [hsources] at h hstream
    have hrest : rest = [] :=
      List.eq_nil_of_length_eq_zero (Nat.le_zero.mp (Nat.le_of_succ_le_succ h.1))
    subst hrest
    rcases Frames.stream_single bytes_injective zero_notMem_bytes (k := e.1) (c := e.2) hstream with
      heq | ⟨u, q, v, rest, heq, w, hw⟩
    · exact heq.symm
    · have hplace : Placeable (t'.sources select) := placeable_sources t'
      have hq : (q, v) ∈ t'.sources select := by
        rw [heq]
        exact List.mem_cons_of_mem _ List.mem_cons_self
      have he : (e.1, u) ∈ t'.sources select := by
        rw [heq]
        exact List.mem_cons_self
      have hlt : e.1 < q := by
        have hsorted := hplace.sorted
        rw [heq] at hsorted
        exact List.rel_of_pairwise_cons hsorted List.mem_cons_self
      refine absurd ⟨q, sources_selected hq, hlt, fun hbelow => ?_, u, w, hw⟩
        (h.2 e List.mem_cons_self)
      exact hlt.ne (hplace.apart (e.1, u) he (q, v) hq hbelow)

/-- Two sources or more have the stream of one source fewer. -/
theorem merged_placeable {e' : RelPath × List ℕ} {c : List ℕ} (h : Placeable (e :: e' :: es)) :
    Placeable ((e.1, c) :: es) where
  sorted := by
    have hsorted := h.sorted
    rw [List.map_cons, List.map_cons] at hsorted
    exact hsorted.sublist ((List.sublist_cons_self _ _).cons_cons _)
  apart := by
    have hkeep : ∀ a ∈ (e.1, c) :: es, ∃ b ∈ e :: e' :: es, b.1 = a.1 := by
      intro a ha
      rcases List.mem_cons.mp ha with rfl | ha
      · exact ⟨e, List.mem_cons_self, rfl⟩
      · exact ⟨a, List.mem_cons_of_mem _ (List.mem_cons_of_mem _ ha), rfl⟩
    intro a ha b hb hbelow
    obtain ⟨a', ha', hpath⟩ := hkeep a ha
    obtain ⟨b', hb', hpath'⟩ := hkeep b hb
    rw [← hpath, ← hpath'] at hbelow ⊢
    exact h.apart a' ha' b' hb' hbelow

theorem le_of_above {p q : RelPath} (h : p.parts <+: q.parts) : p ≤ q := by
  obtain ⟨below, hq⟩ := h
  cases below with
  | nil => exact le_of_eq (RelPath.ext (by rw [← hq, List.append_nil]))
  | cons n below =>
    have hlt : List.Lex (· < ·) (p.parts ++ []) (p.parts ++ n :: below) :=
      List.Lex.append_left _ List.Lex.nil p.parts
    rw [List.append_nil, hq] at hlt
    exact le_of_lt (show p < q from hlt)

theorem split_placeable {q : RelPath} {u v : List ℕ} (hlt : e.1 < q)
    (hapart : ¬ e.1.parts <+: q.parts) : Placeable [(e.1, u), (q, v)] where
  sorted := List.pairwise_pair.mpr hlt
  apart := by
    have hnot : ¬ q.parts <+: e.1.parts := by
      intro hbelow
      exact absurd hlt (not_lt_of_ge (le_of_above hbelow))
    have hcase : ∀ a ∈ [(e.1, u), (q, v)], a.1 = e.1 ∨ a.1 = q := by simp
    intro a ha b hb hbelow
    rcases hcase a ha with hpath | hpath <;> rcases hcase b hb with hpath' | hpath' <;>
      rw [hpath, hpath'] at hbelow ⊢
    · exact absurd hbelow hapart
    · exact absurd hbelow hnot

/-- What a package without links and with the stream of another one has as sources. -/
def Identified (select : Name → Bool) (t : Package) : Prop :=
  ∀ t' : Package, t'.Unlinked → t.stream select = t'.stream select → SameSources select t t'

theorem identified_iff : Identified select t ↔ Single select (t.sources select) := by
  constructor
  · intro h
    have hother {es : List (RelPath × List ℕ)} (hes : Placeable es)
        (hselect : ∀ e ∈ es, select e.1.name = true)
        (hstream : t.stream select = Frames.stream 0 RelPath.bytes es) : t.sources select = es := by
      have hsources : (place t.root es hes).sources select = es := sources_place hes hselect
      rw [← hsources]
      refine sameSources_iff.mp (h _ (place_unlinked hes) ?_)
      rw [hstream, Package.stream, hsources]
    have hselected : ∀ e ∈ t.sources select, select e.1.name = true := fun _ => sources_selected
    have hplace : Placeable (t.sources select) := placeable_sources t
    unfold Package.stream at hother
    generalize t.sources select = es at *
    match es with
    | [] => exact ⟨Nat.zero_le 1, fun e he => nomatch he⟩
    | [e] =>
      refine ⟨le_refl 1, fun e' he' => ?_⟩
      obtain rfl := List.mem_singleton.mp he'
      rintro ⟨q, hq, hlt, hapart, u, v, hsplit⟩
      have heq := hother (split_placeable (u := u) (v := v) hlt hapart)
        (by simpa using ⟨hselected e' List.mem_cons_self, hq⟩)
        (by rw [← Frames.stream_merge, ← hsplit])
      exact absurd (congrArg List.length heq) (by simp)
    | e :: e' :: rest =>
      have heq := hother (merged_placeable (c := e.2 ++ 0 :: (e'.1.bytes ++ 0 :: e'.2)) hplace)
        (List.forall_mem_cons.mpr ⟨hselected e List.mem_cons_self, fun a ha =>
          hselected a (List.mem_cons_of_mem _ (List.mem_cons_of_mem _ ha))⟩)
        (by rw [Frames.stream_merge])
      exact absurd (congrArg List.length heq) (by simp)
  · exact fun h t' _ hstream => sameSources_iff.mpr (single_identifies h hstream)

/-- Sources without a zero byte are told apart by their stream. -/
theorem sameSources_of_plain (h : ∀ e ∈ t.sources select, 0 ∉ e.2)
    (h' : ∀ e ∈ t'.sources select, 0 ∉ e.2) (hstream : t.stream select = t'.stream select) :
    SameSources select t t' :=
  sameSources_iff.mpr (Frames.stream_injective bytes_injective zero_notMem_bytes h h' hstream)

end Ambiguity

section Identity

variable {D : Type*} {sha256 : List ℕ → D} {t : Package}

/-- What the fingerprint of the runtime identifies. -/
theorem runtime_identifies_iff (hsha : Function.Injective sha256) (allowEmpty : Bool)
    (ht : t.Unlinked) :
    (∀ t' : Package, t'.Unlinked → ∀ d, packageFingerprint sha256 allowEmpty t = .ok d →
      packageFingerprint sha256 allowEmpty t' = .ok d → SameSources hasPySuffix t t') ↔
    Single hasPySuffix (t.sources hasPySuffix) := by
  rw [← identified_iff]
  constructor
  · intro h t' ht' hstream
    cases hsources : t.sources hasPySuffix with
    | nil =>
      rw [Package.stream, hsources] at hstream
      rw [sameSources_iff, hsources, Frames.stream_eq_nil hstream.symm]
    | cons e rest =>
      refine h t' ht' _ ((packageFingerprint_ok ht).mpr ⟨fun hnil => ?_, rfl⟩)
        ((packageFingerprint_ok ht').mpr ⟨fun hnil => ?_, congrArg sha256 hstream.symm⟩)
      · rw [hsources] at hnil
        cases hnil
      · rw [Package.stream, Package.stream, hnil] at hstream
        rw [Frames.stream_eq_nil hstream] at hsources
        cases hsources
  · intro h t' ht' d hd hd'
    refine h t' ht' (hsha ?_)
    rw [((packageFingerprint_ok ht).mp hd).2, ((packageFingerprint_ok ht').mp hd').2]

/-- The two fingerprints of a package without links agree exactly if no file is named `.py` and
the runtime finds a source where it wants one; and either fingerprint identifies the sources of
the package exactly if there is one source at most and it does not hold the end of a file and the
whole of another one. Among packages without zero bytes in their sources it always does. -/
theorem build_identity_iff (hsha : Function.Injective sha256) (allowEmpty : Bool)
    (ht : t.Unlinked) :
    (packageFingerprint sha256 allowEmpty t = .ok (sourceFingerprint sha256 t) ↔
      t.PlainNames ∧ (t.sources hasPySuffix = [] → allowEmpty = true)) ∧
    ((∀ t' : Package, t'.Unlinked → ∀ d, packageFingerprint sha256 allowEmpty t = .ok d →
      packageFingerprint sha256 allowEmpty t' = .ok d → SameSources hasPySuffix t t') ↔
      Single hasPySuffix (t.sources hasPySuffix)) ∧
    ((∀ t' : Package, t'.Unlinked → sourceFingerprint sha256 t = sourceFingerprint sha256 t' →
      SameSources globPy t t') ↔ Single globPy (t.sources globPy)) ∧
    ∀ t' : Package, t'.Unlinked → (∀ e ∈ t.sources globPy, 0 ∉ e.2) →
      (∀ e ∈ t'.sources globPy, 0 ∉ e.2) →
      (sourceFingerprint sha256 t = sourceFingerprint sha256 t' → SameSources globPy t t') ∧
      ∀ d, packageFingerprint sha256 allowEmpty t = .ok d →
        packageFingerprint sha256 allowEmpty t' = .ok d → SameSources hasPySuffix t t' := by
  refine ⟨fingerprints_agree_iff hsha ht, runtime_identifies_iff hsha allowEmpty ht, ?_, ?_⟩
  · rw [← identified_iff]
    exact forall₂_congr fun t' _ => by rw [sourceFingerprint, sourceFingerprint, hsha.eq_iff]
  · intro t' ht' hplain hplain'
    have hfewer (t : Package) (h : ∀ e ∈ t.sources globPy, 0 ∉ e.2) :
        ∀ e ∈ t.sources hasPySuffix, 0 ∉ e.2 := by
      intro e he
      rw [sources_eq_filter] at he
      exact h e (List.mem_of_mem_filter he)
    refine ⟨fun h => sameSources_of_plain hplain hplain' (hsha h), fun d hd hd' => ?_⟩
    refine sameSources_of_plain (hfewer t hplain) (hfewer t' hplain') (hsha ?_)
    rw [((packageFingerprint_ok ht).mp hd).2, ((packageFingerprint_ok ht').mp hd').2]

end Identity

section Examples

/-- `a.py` and its like. -/
def modulePath (c : Char) (hc : c ∈ ['a', 'b']) : RelPath where
  parts := [[c, '.', 'p', 'y']]
  nonempty := List.cons_ne_nil _ _
  names := by
    intro n hn
    obtain rfl := List.mem_singleton.mp hn
    rcases List.mem_pair.mp hc with rfl | rfl <;> simp

def pathA : RelPath := modulePath 'a' (by simp)

def pathB : RelPath := modulePath 'b' (by simp)

theorem one_placeable (p : RelPath) (c : List ℕ) : Placeable [(p, c)] where
  sorted := List.pairwise_singleton _ _
  apart := by
    intro e he e' he' _
    rw [List.mem_singleton.mp he, List.mem_singleton.mp he']

def oneModule (c : List ℕ) : Package := place "todo_orchestrator" [(pathA, c)] (one_placeable _ c)

theorem pathA_py : hasPySuffix pathA.name = true ∧ globPy pathA.name = true := by decide

theorem pathB_py : hasPySuffix pathB.name = true ∧ globPy pathB.name = true := by decide

theorem one_module_identified :
    packageFingerprint id false (oneModule [10]) = .ok (sourceFingerprint id (oneModule [10])) := by
  have hsources : (oneModule [10]).sources hasPySuffix = [(pathA, [10])] :=
    sources_place _ (by simpa using pathA_py.1)
  have hglob : (oneModule [10]).sources globPy = [(pathA, [10])] :=
    sources_place _ (by simpa using pathA_py.2)
  refine (build_identity_iff Function.injective_id false (place_unlinked _)).1.mpr
    ⟨plainNames_iff.mpr (hsources.trans hglob.symm), fun hnil => ?_⟩
  exact absurd (hsources.symm.trans hnil) (List.cons_ne_nil _ _)

theorem pathA_lt : pathA < pathB := by
  have hlt : List.Lex (· < ·) pathA.parts pathB.parts := List.Lex.rel (List.Lex.rel (by decide))
  exact hlt

theorem two_placeable (u v : List ℕ) : Placeable [(pathA, u), (pathB, v)] := by
  have hapart : ¬ pathA.parts <+: pathB.parts := by decide
  exact split_placeable (e := (pathA, u)) (pathA_lt) hapart

def twoModules : Package :=
  place "todo_orchestrator" [(pathA, [120]), (pathB, [121])] (two_placeable _ _)

/-- `a.py` holds what the two modules hold, between the zero bytes. -/
def mergedModule : Package := oneModule ([120] ++ 0 :: (pathB.bytes ++ 0 :: [121]))

/-- One file takes the place of two, and neither fingerprint shows it. -/
theorem merged_module_accepted :
    packageFingerprint id false twoModules = packageFingerprint id false mergedModule ∧
    sourceFingerprint id twoModules = sourceFingerprint id mergedModule ∧
    (∃ d, packageFingerprint id false twoModules = .ok d) ∧
    ¬ SameSources hasPySuffix twoModules mergedModule := by
  have htwo : ∀ e ∈ [(pathA, [120]), (pathB, [121])],
      hasPySuffix e.1.name = true ∧ globPy e.1.name = true := by
    simpa using ⟨pathA_py, pathB_py⟩
  have hsources : twoModules.sources hasPySuffix = [(pathA, [120]), (pathB, [121])] :=
    sources_place (two_placeable _ _) fun e he => (htwo e he).1
  have hglob : twoModules.sources globPy = [(pathA, [120]), (pathB, [121])] :=
    sources_place (two_placeable _ _) fun e he => (htwo e he).2
  have hmerged (select : Name → Bool) (h : select pathA.name = true) : mergedModule.sources select =
      [(pathA, [120] ++ 0 :: (pathB.bytes ++ 0 :: [121]))] :=
    sources_place (one_placeable _ _) (by simpa using h)
  have hstream : twoModules.stream hasPySuffix = mergedModule.stream hasPySuffix := by
    rw [Package.stream, Package.stream, hmerged _ pathA_py.1, Frames.stream_merge]
    exact congrArg _ hsources
  have hfound : packageFingerprint id false twoModules = .ok (twoModules.stream hasPySuffix) :=
    (packageFingerprint_ok (place_unlinked _)).mpr
      ⟨fun hnil => absurd (hsources.symm.trans hnil) (List.cons_ne_nil _ _), rfl⟩
  have hfound' : packageFingerprint id false mergedModule = .ok (twoModules.stream hasPySuffix) :=
    (packageFingerprint_ok (place_unlinked (one_placeable _ _))).mpr
      ⟨fun hnil => absurd ((hmerged _ pathA_py.1).symm.trans hnil) (List.cons_ne_nil _ _),
        hstream.symm⟩
  refine ⟨hfound.trans hfound'.symm, ?_, ⟨_, hfound⟩, fun hsame => ?_⟩
  · rw [sourceFingerprint, sourceFingerprint, Package.stream, Package.stream,
      hmerged _ pathA_py.2, Frames.stream_merge]
    exact congrArg (Frames.stream 0 RelPath.bytes) hglob
  · have heq := sameSources_iff.mp hsame
    rw [hmerged _ pathA_py.1] at heq
    exact absurd (congrArg List.length (hsources.symm.trans heq)) (by simp)

end Examples

end ProjectControl.Build
