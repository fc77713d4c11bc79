import Mathlib
import ProjectControl.DisjointSets
import ProjectControl.Keyed
import ProjectControl.Lines
import ProjectControl.ProcessStart

/-! The topology matrix of a host, and the islands of devices that NV links connect. -/

set_option autoImplicit false

namespace ProjectControl.HostTopology

section Parser

open Processes (isSpace)

/-- What the parser asks of the Unicode database: the characters that `str.isdigit` takes for
digits, and the number that `int` makes of some of them, or none. -/
structure Numerals where
  isDigit : Char → Bool
  int? : List Char → Option ℕ

/-- The rows by device, and in each row the relations to its peers. -/
abbrev Links := List (ℤ × List (ℤ × String))

structure Matrix where
  columns : List (ℕ × ℤ)
  links : Links
  numa : List (ℤ × String)
  numaColumn : Option ℕ
  complete : Bool

/-- `ANSI_ESCAPE.sub("", text)`, in at most so many steps. -/
def dropEscapes : ℕ → List Char → List Char
  | 0, text => text
  | _ + 1, [] => []
  | fuel + 1, c :: rest =>
    match c, rest with
    | '\x1b', '[' :: code =>
      match code.dropWhile (fun c => c ∈ "0123456789;".toList) with
      | 'm' :: after => dropEscapes fuel after
      | _ => c :: dropEscapes fuel rest
    | _, _ => c :: dropEscapes fuel rest

def strip (text : List Char) : String :=
  String.ofList ((text.dropWhile isSpace).rdropWhile isSpace)

def fieldsOf (clean : List Char) : List String :=
  if '\t' ∈ clean then
    match (clean.splitOn '\t').map strip with
    | "" :: fields => fields
    | fields => fields
  else (Words.words isSpace clean).map String.ofList

variable (n : Numerals)

def namesGpu (field : String) : Bool := "GPU".toList.isPrefixOf field.toList

def isNumeral (text : List Char) : Bool := !text.isEmpty && text.all n.isDigit

/-- `name.startswith("GPU") and name[3:].isdigit()`. -/
def isGpu (name : String) : Bool := namesGpu name && isNumeral n (name.toList.drop 3)

/-- `int(name[3:])`. -/
def gpuIndex? (name : String) : Option ℤ := (n.int? (name.toList.drop 3)).map Int.ofNat

def headerColumns? (header : List String) : Option (List (ℕ × ℤ)) :=
  (header.filter (isGpu n)).mapM fun name =>
    (gpuIndex? n name).map fun index => (header.idxOf name + 1, index)

def headerNuma (header : List String) (known : Option ℕ) : Option ℕ :=
  if "NUMA Affinity" ∈ header then some (header.idxOf "NUMA Affinity")
  else if "NUMA_Affinity" ∈ header then some (header.idxOf "NUMA_Affinity")
  else known

/-- The relations of a row; a column that it lacks is left out. -/
def rowOf (columns : List (ℕ × ℤ)) (fields : List String) : List (ℤ × String) :=
  columns.foldl (fun row column =>
    match fields[column.1]? with
    | some value => Keyed.assign row column.2 value
    | none => row) []

def numaOf (m : Matrix) (index : ℤ) (fields : List String) : List (ℤ × String) :=
  match m.numaColumn.bind (fun column => fields[column + 1]?) with
  | some value =>
    if isNumeral n (value.toList.dropWhile (· = '-')) then Keyed.assign m.numa index value
    else m.numa
  | none => m.numa

/-- One line of the matrix; there is none after a number that `int` rejects. -/
def readLine? (m : Matrix) (raw : List Char) : Option Matrix :=
  let fields := fieldsOf (dropEscapes raw.length raw)
  match fields with
  | [] => some m
  | first :: rest =>
    if namesGpu first && (rest.head?.map namesGpu).getD false then
      (headerColumns? n fields).map fun columns =>
        { m with columns := columns, numaColumn := headerNuma fields m.numaColumn }
    else if isGpu n first then
      (gpuIndex? n first).map fun index =>
        { m with
          links := Keyed.assign m.links index (rowOf m.columns fields)
          numa := numaOf n m index fields
          complete := m.complete && m.columns.all (fun column => column.1 < fields.length) }
    else some m

/-- `_parse_topology_matrix`: the sorted indices of the header, and the matrix. -/
def parseTopologyMatrix? (topology : String) : Option (List ℤ × Matrix) :=
  ((Lines.splitlines [] topology.toList).foldlM (readLine? n) ⟨[], [], [], none, true⟩).map
    fun m =>
      let indices := (m.columns.map Prod.snd).insertionSort (· ≤ ·)
      let same (keys : List ℤ) : Bool := keys.toFinset = indices.toFinset
      let full := same (m.links.map Prod.fst) && m.links.all (fun row => same (row.2.map Prod.fst))
      (indices, { m with complete := m.complete && !indices.isEmpty && full })

end Parser

section Components

/-- `relation.startswith("NV")`. -/
def isNv (relation : String) : Bool := "NV".toList.isPrefixOf relation.toList

/-- `union`, which looks both devices up. -/
def union? (parent : Forest ℤ) (left right : ℤ) : Option (Forest ℤ) :=
  if h : left ∈ parent.keys ∧ right ∈ parent.keys then some (parent.union left right h.1 h.2)
  else none

def joinRow (left : ℤ) : List (ℤ × String) → Forest ℤ → Option (Forest ℤ)
  | [], parent => some parent
  | (right, relation) :: rest, parent =>
    if isNv relation ∧ right ∈ parent.keys then
      (union? parent left right).bind (joinRow left rest)
    else joinRow left rest parent

def joinAll : Links → Forest ℤ → Option (Forest ℤ)
  | [], parent => some parent
  | (left, adjacent) :: rest, parent => (joinRow left adjacent parent).bind (joinAll rest)

abbrev Groups := List (ℤ × List ℤ)

/-- `groups.setdefault(root, []).append(index)`. -/
def addMember (groups : Groups) (root index : ℤ) : Groups :=
  Keyed.assign groups root ((groups.lookup root).getD [] ++ [index])

def groupAll : List ℤ → Forest ℤ → Groups → Option Groups
  | [], _, groups => some groups
  | index :: rest, parent, groups =>
    if h : index ∈ parent.keys then
      let found := parent.find index h
      groupAll rest found.1 (addMember groups found.2 index)
    else none

/-- `_nvlink_components`; there is no result where a device is looked up that is none of
`indices`. -/
def nvlinkComponents (indices : List ℤ) (links : Links) : Option (List (List ℤ)) := do
  let parent ← joinAll links (Forest.discrete indices.toFinset)
  let groups ← groupAll indices parent []
  some ((groups.map (fun group => group.2.insertionSort (· ≤ ·))).insertionSort (· ≤ ·))

end Components

section Islands

/-- The row of one device reports an NV link to another. -/
def NvLink (links : Links) (u v : ℤ) : Prop :=
  ∃ row ∈ links, row.1 = u ∧ ∃ entry ∈ row.2, entry.1 = v ∧ isNv entry.2 = true

/-- An NV link is reported between two devices of the inventory, in either direction. -/
def Linked (inventory : Finset ℤ) (links : Links) (u v : ℤ) : Prop :=
  (u ∈ inventory ∧ v ∈ inventory) ∧ (NvLink links u v ∨ NvLink links v u)

/-- The sorted list of the connected components, each sorted. -/
structure Islands (inventory : Finset ℤ) (links : Links) (groups : List (List ℤ)) : Prop where
  sorted : groups.Pairwise (· < ·)
  ascending : ∀ group ∈ groups, group.Pairwise (· < ·)
  component : ∀ group ∈ groups, ∃ x ∈ inventory, ∀ y,
    y ∈ group ↔ y ∈ inventory ∧ Relation.EqvGen (Linked inventory links) x y
  covers : ∀ x ∈ inventory, ∃ group ∈ groups, x ∈ group

/-- The row of a device that is not in the inventory reports an NV link to one that is. -/
def Stray (inventory : Finset ℤ) (links : Links) : Prop :=
  ∃ u v, u ∉ inventory ∧ v ∈ inventory ∧ NvLink links u v

/-- The rows stand in another order, or the entries of some of them do. -/
inductive Reordered : Links → Links → Prop
  | rows {links links' : Links} : links.Perm links' → Reordered links links'
  | columns (before after : Links) (u : ℤ) {row row' : List (ℤ × String)} : row.Perm row' →
      Reordered (before ++ (u, row) :: after) (before ++ (u, row') :: after)
  | trans {links links' links'' : Links} :
      Reordered links links' → Reordered links' links'' → Reordered links links''

end Islands

section Joining

variable {F : Forest ℤ} {R : ℤ → ℤ → Prop} {left : ℤ}

theorem represents_congr {R' : ℤ → ℤ → Prop} (h : F.Represents R) (hR : ∀ x y, R x y ↔ R' x y) :
    F.Represents R' := by
  have heq : R = R' := funext fun x => funext fun y => propext (hR x y)
  exact heq ▸ h

/-- The row of a known device joins it with its known peers. -/
theorem joinRow_known (row : List (ℤ × String)) (h : F.Represents R) (hleft : left ∈ F.keys) :
    ∃ F', joinRow left row F = some F' ∧ F'.keys = F.keys ∧ F'.Represents (fun x y => R x y ∨
      (x = left ∧ y ∈ F.keys ∧ ∃ entry ∈ row, entry.1 = y ∧ isNv entry.2 = true)) := by
  induction row generalizing F R with
  | nil => exact ⟨F, rfl, rfl, represents_congr h fun x y => by simp⟩
  | cons entry row ih =>
    obtain ⟨right, relation⟩ := entry
    rw [joinRow]
    split
    · next hjoin =>
      obtain ⟨hnv, hright⟩ := hjoin
      have hunion : union? F left right = some (F.union left right hleft hright) :=
        dif_pos ⟨hleft, hright⟩
      have hkeys := F.union_keys left right hleft hright
      obtain ⟨F', hF', hkeys', hrep⟩ := ih (h.union hleft hright) (hkeys ▸ hleft)
      refine ⟨F', by rw [hunion, Option.bind_some, hF'], hkeys'.trans hkeys, ?_⟩
      refine represents_congr hrep fun x y => ?_
      rw [hkeys]
      constructor
      · rintro ((hold | ⟨rfl, rfl⟩) | ⟨rfl, hy, entry, he, hentry⟩)
        · exact .inl hold
        · exact .inr ⟨rfl, hright, (y, relation), List.mem_cons_self, rfl, hnv⟩
        · exact .inr ⟨rfl, hy, entry, List.mem_cons_of_mem _ he, hentry⟩
      · rintro (hold | ⟨rfl, hy, entry, he, rfl, hentry⟩)
        · exact .inl (.inl hold)
        · rcases List.mem_cons.mp he with rfl | he
          · exact .inl (.inr ⟨rfl, rfl⟩)
          · exact .inr ⟨rfl, hy, entry, he, rfl, hentry⟩
    · next hskip =>
      obtain ⟨F', hF', hkeys', hrep⟩ := ih h hleft
      refine ⟨F', hF', hkeys', represents_congr hrep fun x y => or_congr_right ?_⟩
      refine and_congr_right fun _ => and_congr_right fun hy => ?_
      constructor
      · rintro ⟨entry, he, hentry⟩
        exact ⟨entry, List.mem_cons_of_mem _ he, hentry⟩
      · rintro ⟨entry, he, rfl, hentry⟩
        rcases List.mem_cons.mp he with rfl | he
        · exact absurd ⟨hentry, hy⟩ hskip
        · exact ⟨entry, he, rfl, hentry⟩

/-- The row of an unknown device without a link to a known one is passed over. -/
theorem joinRow_unknown (row : List (ℤ × String))
    (hrow : ¬ ∃ entry ∈ row, isNv entry.2 = true ∧ entry.1 ∈ F.keys) :
    joinRow left row F = some F := by
  induction row with
  | nil => rfl
  | cons entry row ih =>
    rw [joinRow, if_neg fun h => hrow ⟨entry, List.mem_cons_self, h⟩]
    exact ih fun ⟨e, he, h⟩ => hrow ⟨e, List.mem_cons_of_mem _ he, h⟩

/-- The row of an unknown device with a link to a known one raises. -/
theorem joinRow_stray (row : List (ℤ × String)) (hleft : left ∉ F.keys)
    (hrow : ∃ entry ∈ row, isNv entry.2 = true ∧ entry.1 ∈ F.keys) :
    joinRow left row F = none := by
  induction row with
  | nil => exact absurd hrow (by simp)
  | cons entry row ih =>
    rw [joinRow]
    split
    · rw [union?, dif_neg fun h => hleft h.1, Option.bind_none]
    · next hskip =>
      obtain ⟨e, he, h⟩ := hrow
      rcases List.mem_cons.mp he with rfl | he
      · exact absurd h hskip
      · exact ih ⟨e, he, h⟩

/-- Without a stray link every known pair with an NV link is joined. -/
theorem joinAll_spec (links : Links) (h : F.Represents R) (hstray : ¬ Stray F.keys links) :
    ∃ F', joinAll links F = some F' ∧ F'.keys = F.keys ∧ F'.Represents (fun x y => R x y ∨
      ((x ∈ F.keys ∧ y ∈ F.keys) ∧ NvLink links x y)) := by
  induction links generalizing F R with
  | nil => exact ⟨F, rfl, rfl, represents_congr h fun x y => by simp [NvLink]⟩
  | cons row links ih =>
    obtain ⟨left, row⟩ := row
    have hrest : ¬ Stray F.keys links := by
      rintro ⟨u, v, hu, hv, r, hr, hlink⟩
      exact hstray ⟨u, v, hu, hv, r, List.mem_cons_of_mem _ hr, hlink⟩
    by_cases hleft : left ∈ F.keys
    · obtain ⟨F₁, hF₁, hkeys₁, hrep₁⟩ := joinRow_known row h hleft
      obtain ⟨F', hF', hkeys', hrep'⟩ := ih hrep₁ (hkeys₁ ▸ hrest)
      refine ⟨F', by rw [joinAll, hF₁, Option.bind_some, hF'], hkeys'.trans hkeys₁, ?_⟩
      refine represents_congr hrep' fun x y => ?_
      rw [hkeys₁]
      constructor
      · rintro ((hold | ⟨rfl, hy, hentry⟩) | ⟨hmem, r, hr, hlink⟩)
        · exact .inl hold
        · exact .inr ⟨⟨hleft, hy⟩, _, List.mem_cons_self, rfl, hentry⟩
        · exact .inr ⟨hmem, r, List.mem_cons_of_mem _ hr, hlink⟩
      · rintro (hold | ⟨hmem, r, hr, rfl, hentry⟩)
        · exact .inl (.inl hold)
        · rcases List.mem_cons.mp hr with rfl | hr
          · exact .inl (.inr ⟨rfl, hmem.2, hentry⟩)
          · exact .inr ⟨hmem, r, hr, rfl, hentry⟩
    · have hrow : ¬ ∃ entry ∈ row, isNv entry.2 = true ∧ entry.1 ∈ F.keys := by
        rintro ⟨entry, he, hnv, hmem⟩
        exact hstray ⟨left, entry.1, hleft, hmem, _, List.mem_cons_self, rfl, entry, he, rfl, hnv⟩
      obtain ⟨F', hF', hkeys', hrep'⟩ := ih h hrest
      refine ⟨F', by rw [joinAll, joinRow_unknown row hrow, Option.bind_some, hF'], hkeys', ?_⟩
      refine represents_congr hrep' fun x y => or_congr_right (and_congr_right fun hmem => ?_)
      constructor
      · rintro ⟨r, hr, hlink⟩
        exact ⟨r, List.mem_cons_of_mem _ hr, hlink⟩
      · rintro ⟨r, hr, rfl, hentry⟩
        rcases List.mem_cons.mp hr with rfl | hr
        · exact absurd hmem.1 hleft
        · exact ⟨r, hr, rfl, hentry⟩

theorem joinAll_stray (links : Links) (hstray : Stray F.keys links) : joinAll links F = none := by
  induction links generalizing F with
  | nil =>
    obtain ⟨u, v, _, _, r, hr, _⟩ := hstray
    exact absurd hr List.not_mem_nil
  | cons row links ih =>
    obtain ⟨left, row⟩ := row
    rw [joinAll]
    obtain ⟨u, v, hu, hv, r, hr, rfl, entry, he, rfl, hnv⟩ := hstray
    by_cases hrow : left ∉ F.keys ∧ ∃ entry ∈ row, isNv entry.2 = true ∧ entry.1 ∈ F.keys
    · rw [joinRow_stray row hrow.1 hrow.2, Option.bind_none]
    · have hr : r ∈ links := by
        rcases List.mem_cons.mp hr with rfl | hr
        · exact absurd ⟨hu, entry, he, hnv, hv⟩ hrow
        · exact hr
      -- the rows before the stray one leave the devices as they are
      obtain ⟨F', hF', hkeys⟩ : ∃ F', joinRow left row F = some F' ∧ F'.keys = F.keys := by
        by_cases hleft : left ∈ F.keys
        · obtain ⟨F', hF', hkeys, _⟩ := joinRow_known row F.represents_root hleft
          exact ⟨F', hF', hkeys⟩
        · exact ⟨F, joinRow_unknown row fun h => hrow ⟨hleft, h⟩, rfl⟩
      rw [hF', Option.bind_some]
      exact ih ⟨r.1, entry.1, hkeys ▸ hu, hkeys ▸ hv, r, hr, rfl, entry, he, rfl, hnv⟩

end Joining

section Grouping

variable {ρ : ℤ → ℤ} {done : List ℤ} {groups : Groups}

/-- The devices so far under their roots, in their order. -/
structure Grouped (ρ : ℤ → ℤ) (done : List ℤ) (groups : Groups) : Prop where
  distinct : (groups.map Prod.fst).Nodup
  members : ∀ group ∈ groups, group.2 = done.filter (ρ · = group.1)
  roots : ∀ root, root ∈ groups.map Prod.fst ↔ ∃ x ∈ done, ρ x = root

theorem Grouped.lookup (h : Grouped ρ done groups) (root : ℤ) :
    (groups.lookup root).getD [] = done.filter (ρ · = root) := by
  rcases hlookup : groups.lookup root with _ | members
  · have hnone : ∀ x ∈ done, ¬ ρ x = root := by
      intro x hx heq
      obtain ⟨group, hgroup, hroot⟩ := List.mem_map.mp ((h.roots root).mpr ⟨x, hx, heq⟩)
      have hne := List.lookup_eq_none_iff.mp hlookup group hgroup
      simp [hroot] at hne
    rw [Option.getD_none, eq_comm, List.filter_eq_nil_iff]
    simpa using hnone
  · obtain ⟨front, back, hsplit, _⟩ := List.lookup_eq_some_iff.mp hlookup
    have hmem : (root, members) ∈ groups := hsplit ▸ List.mem_append_right _ List.mem_cons_self
    exact h.members _ hmem

theorem Grouped.add (h : Grouped ρ done groups) (x : ℤ) :
    Grouped ρ (done ++ [x]) (addMember groups (ρ x) x) := by
  have hkeys := Keyed.keys_assign groups (ρ x) ((groups.lookup (ρ x)).getD [] ++ [x])
  constructor
  case distinct => exact Keyed.nodup_assign h.distinct
  case members =>
    intro group hgroup
    rw [List.filter_append, List.filter_singleton]
    by_cases hroot : group.1 = ρ x
    · obtain rfl := Keyed.eq_of_mem_assign hgroup hroot
      simp [h.lookup]
    · rcases Keyed.mem_assign hgroup with rfl | hold
      · exact absurd rfl hroot
      · simp [Ne.symm hroot, h.members group hold]
  case roots =>
    intro root
    rw [addMember, hkeys]
    split_ifs with hknown
    · rw [h.roots]
      constructor
      · rintro ⟨y, hy, heq⟩
        exact ⟨y, List.mem_append_left _ hy, heq⟩
      · rintro ⟨y, hy, heq⟩
        rcases List.mem_append.mp hy with hy | hy
        · exact ⟨y, hy, heq⟩
        · obtain rfl := List.mem_singleton.mp hy
          exact (h.roots root).mp (heq ▸ hknown)
    · rw [List.mem_append, h.roots, List.mem_singleton]
      constructor
      · rintro (⟨y, hy, heq⟩ | rfl)
        · exact ⟨y, List.mem_append_left _ hy, heq⟩
        · exact ⟨x, List.mem_append_right _ List.mem_cons_self, rfl⟩
      · rintro ⟨y, hy, heq⟩
        rcases List.mem_append.mp hy with hy | hy
        · exact .inl ⟨y, hy, heq⟩
        · obtain rfl := List.mem_singleton.mp hy
          exact .inr heq.symm

/-- Every device goes to the group of its root. -/
theorem groupAll_spec (indices : List ℤ) {F : Forest ℤ} (hroot : ∀ x, F.root x = ρ x)
    (hmem : ∀ x ∈ indices, x ∈ F.keys) (h : Grouped ρ done groups) :
    ∃ groups', groupAll indices F groups = some groups' ∧ Grouped ρ (done ++ indices) groups' := by
  induction indices generalizing F done groups with
  | nil => exact ⟨groups, rfl, (List.append_nil done).symm ▸ h⟩
  | cons x indices ih =>
    have hx := hmem x List.mem_cons_self
    obtain ⟨hkeys, hroots, hfound⟩ := F.find_spec x hx
    have hstep := h.add x
    rw [← hroot x, ← hfound] at hstep
    obtain ⟨groups', hgroups', hdone⟩ := ih (F := (F.find x hx).1)
      (fun y => (hroots y).trans (hroot y))
      (fun y hy => hkeys ▸ hmem y (List.mem_cons_of_mem _ hy)) hstep
    refine ⟨groups', ?_, ?_⟩
    · rw [groupAll, dif_pos hx]
      exact hgroups'
    · rwa [List.append_assoc, List.singleton_append] at hdone

end Grouping

section Partition

variable {inventory : Finset ℤ} {links links' : Links} {groups groups' : List (List ℤ)}

theorem Reordered.nvLink (h : Reordered links links') (u v : ℤ) :
    NvLink links u v ↔ NvLink links' u v := by
  induction h with
  | rows hperm =>
    unfold NvLink
    simp only [hperm.mem_iff]
  | columns before after w hperm =>
    unfold NvLink
    simp only [List.mem_append, List.mem_cons, or_and_right, exists_or, exists_eq_left,
      hperm.mem_iff]
  | trans _ _ ih ih' => exact ih.trans ih'

theorem linked_congr (h : ∀ u v, NvLink links u v ↔ NvLink links' u v) :
    Linked inventory links = Linked inventory links' := by
  funext u v
  rw [Linked, Linked, h u v, h v u]

theorem stray_congr (h : ∀ u v, NvLink links u v ↔ NvLink links' u v) :
    Stray inventory links ↔ Stray inventory links' := by
  simp only [Stray, h]

/-- There is no other list of the islands. -/
theorem Islands.unique (h : Islands inventory links groups) (h' : Islands inventory links groups') :
    groups = groups' := by
  have hsub {groups groups' : List (List ℤ)} (h : Islands inventory links groups)
      (h' : Islands inventory links groups') : ∀ group ∈ groups, group ∈ groups' := by
    intro group hgroup
    obtain ⟨x, hx, hclass⟩ := h.component group hgroup
    obtain ⟨group', hgroup', hmem⟩ := h'.covers x hx
    obtain ⟨z, _, hclass'⟩ := h'.component group' hgroup'
    have hzx := ((hclass' x).mp hmem).2
    have hsame (y : ℤ) : y ∈ group ↔ y ∈ group' := by
      rw [hclass, hclass']
      refine and_congr_right fun _ => ⟨fun hxy => hzx.trans _ _ _ hxy, fun hzy => ?_⟩
      exact hzx.symm.trans _ _ _ hzy
    have hascending := h.ascending group hgroup
    have hascending' := h'.ascending group' hgroup'
    have hperm : group.Perm group' :=
      (List.perm_ext_iff_of_nodup hascending.nodup hascending'.nodup).mpr hsame
    have heq : group = group' := hperm.eq_of_pairwise' hascending hascending'
    exact heq ▸ hgroup'
  have hperm : groups.Perm groups' :=
    (List.perm_ext_iff_of_nodup h.sorted.nodup h'.sorted.nodup).mpr
      fun group => ⟨hsub h h' group, hsub h' h group⟩
  exact hperm.eq_of_pairwise' h.sorted h'.sorted

/-- The direction in which a link is reported connects no more. -/
theorem eqvGen_linked (inventory : Finset ℤ) (links : Links) :
    Relation.EqvGen (fun x y => (x ∈ inventory ∧ y ∈ inventory) ∧ NvLink links x y) =
      Relation.EqvGen (Linked inventory links) := by
  apply le_antisymm
  · exact Relation.EqvGen.mono fun x y h => ⟨h.1, .inl h.2⟩
  · apply Relation.EqvGen.eqvGen_le
    rintro x y ⟨hmem, hlink | hlink⟩
    · exact .rel x y ⟨hmem, hlink⟩
    · exact (Relation.EqvGen.rel y x ⟨hmem.symm, hlink⟩).symm

theorem pairwise_lt {α : Type} [LinearOrder α] {xs : List α} (hsorted : xs.Pairwise (· ≤ ·))
    (hnodup : xs.Nodup) : xs.Pairwise (· < ·) :=
  (List.pairwise_and_iff.mpr ⟨hsorted, hnodup⟩).imp fun h => lt_of_le_of_ne h.1 h.2

/-- The sorted groups of connected devices are the islands. -/
theorem islands_of_grouped {ρ : ℤ → ℤ} {indices : List ℤ} {found : Groups}
    (hindices : ∀ x, x ∈ indices ↔ x ∈ inventory) (hnodup : indices.Nodup)
    (hclass : ∀ x y, ρ x = ρ y ↔ Relation.EqvGen (Linked inventory links) x y)
    (h : Grouped ρ indices found) : Islands inventory links
      ((found.map (fun group => group.2.insertionSort (· ≤ ·))).insertionSort (· ≤ ·)) := by
  have hmem (group : ℤ × List ℤ) (hgroup : group ∈ found) (y : ℤ) :
      y ∈ group.2.insertionSort (· ≤ ·) ↔ y ∈ inventory ∧ ρ y = group.1 := by
    rw [List.mem_insertionSort, h.members group hgroup, List.mem_filter, hindices,
      decide_eq_true_iff]
  have hroot (group : ℤ × List ℤ) (hgroup : group ∈ found) :
      ∃ x ∈ inventory, ρ x = group.1 := by
    obtain ⟨x, hx, heq⟩ := (h.roots group.1).mp (List.mem_map_of_mem hgroup)
    exact ⟨x, (hindices x).mp hx, heq⟩
  constructor
  case sorted =>
    refine pairwise_lt (List.pairwise_insertionSort _ _) ?_
    rw [(List.perm_insertionSort _ _).nodup_iff]
    refine List.Nodup.map_on (fun group hgroup group' hgroup' heq => ?_) h.distinct.of_map
    -- the groups of different roots have no device in common
    obtain ⟨x, hx, hxroot⟩ := hroot group hgroup
    have hx' : x ∈ group'.2.insertionSort (· ≤ ·) := heq ▸ (hmem group hgroup x).mpr ⟨hx, hxroot⟩
    have hkeys : group.1 = group'.1 := hxroot.symm.trans ((hmem group' hgroup' x).mp hx').2
    exact List.inj_on_of_nodup_map h.distinct hgroup hgroup' hkeys
  case ascending =>
    intro members hmembers
    obtain ⟨group, hgroup, rfl⟩ := List.mem_map.mp ((List.mem_insertionSort _).mp hmembers)
    refine pairwise_lt (List.pairwise_insertionSort _ _) ?_
    rw [(List.perm_insertionSort _ _).nodup_iff, h.members group hgroup]
    exact hnodup.filter _
  case component =>
    intro members hmembers
    obtain ⟨group, hgroup, rfl⟩ := List.mem_map.mp ((List.mem_insertionSort _).mp hmembers)
    obtain ⟨x, hx, hxroot⟩ := hroot group hgroup
    refine ⟨x, hx, fun y => ?_⟩
    rw [hmem group hgroup, ← hxroot, eq_comm, hclass]
  case covers =>
    intro x hx
    have hroot := (h.roots (ρ x)).mpr ⟨x, (hindices x).mpr hx, rfl⟩
    obtain ⟨group, hgroup, hkey⟩ := List.mem_map.mp hroot
    refine ⟨_, (List.mem_insertionSort _).mpr (List.mem_map_of_mem hgroup), ?_⟩
    exact (hmem group hgroup x).mpr ⟨hx, hkey.symm⟩

/-- Without a stray link the islands are returned. -/
theorem islands_of_not_stray (hstray : ¬ Stray inventory links) :
    ∃ groups, nvlinkComponents (inventory.sort (· ≤ ·)) links = some groups ∧
      Islands inventory links groups := by
  have hindices (x : ℤ) : x ∈ inventory.sort (· ≤ ·) ↔ x ∈ inventory := Finset.mem_sort _
  obtain ⟨F, hF, hkeys, hrep⟩ := joinAll_spec links (Forest.represents_discrete inventory) hstray
  have hclass (x y : ℤ) : F.root x = F.root y ↔ Relation.EqvGen (Linked inventory links) x y := by
    rw [← eqvGen_linked]
    exact represents_congr hrep (fun x y => iff_of_eq (false_or _)) x y
  have hnone : Grouped F.root [] [] := ⟨List.nodup_nil, by simp, by simp⟩
  obtain ⟨found, hfound, hgrouped⟩ := groupAll_spec (inventory.sort (· ≤ ·)) (fun _ => rfl)
    (fun x hx => by rw [hkeys]; exact (hindices x).mp hx) hnone
  refine ⟨(found.map (fun group => group.2.insertionSort (· ≤ ·))).insertionSort (· ≤ ·), ?_,
    islands_of_grouped hindices (inventory.sort_nodup _) hclass hgrouped⟩
  rw [nvlinkComponents, Finset.sort_toFinset, hF, Option.bind_eq_bind, Option.bind_some, hfound]
  rfl

/-- The islands are returned, whatever the order of the rows and of their entries, exactly when no
row of a device outside the inventory reports an NV link to a device of the inventory. -/
theorem nvlinkComponents_islands_iff (inventory : Finset ℤ) (links : Links) :
    (∃ groups, Islands inventory links groups ∧
      nvlinkComponents (inventory.sort (· ≤ ·)) links = some groups ∧
      ∀ links', Reordered links links' →
        nvlinkComponents (inventory.sort (· ≤ ·)) links' = some groups) ↔
      ¬ ∃ u v, u ∉ inventory ∧ v ∈ inventory ∧ NvLink links u v := by
  constructor
  · rintro ⟨groups, _, hgroups, _⟩ hstray
    have hnone := joinAll_stray (F := Forest.discrete inventory) links hstray
    rw [nvlinkComponents, Finset.sort_toFinset, hnone] at hgroups
    cases hgroups
  · intro hstray
    obtain ⟨groups, hgroups, hislands⟩ := islands_of_not_stray hstray
    refine ⟨groups, hislands, hgroups, fun links' hreordered => ?_⟩
    have hlinks := hreordered.nvLink
    obtain ⟨groups', hgroups', hislands'⟩ :=
      islands_of_not_stray (mt (stray_congr hlinks).mpr hstray)
    have hsame : Islands inventory links groups' := by
      have hlinked : Linked inventory links = Linked inventory links' := linked_congr hlinks
      exact ⟨hislands'.sorted, hislands'.ascending, hlinked ▸ hislands'.component,
        hislands'.covers⟩
    rw [hgroups', hislands.unique hsame]

end Partition

section Dropped

/-- Digits are those of ASCII. -/
def ascii : Numerals where
  isDigit := Char.isDigit
  int? := fun text =>
    if text.all Char.isDigit then
      some (text.foldl (fun n c => 10 * n + (c.toNat - '0'.toNat)) 0)
    else none

/-- Two devices with an NV link between them. -/
def pairTopology : String := "\tGPU0\tGPU1\nGPU0\t X \tNV1\nGPU1\tNV1\t X "

/-- The second device has left the inventory, which the matrix still lists: the first one is an
island of its own, and the second one's row raises. -/
theorem dropped_device_raises : ∃ read, parseTopologyMatrix? ascii pairTopology = some read ∧
    read.2.links = [(0, [(0, "X"), (1, "NV1")]), (1, [(0, "NV1"), (1, "X")])] ∧
    Islands {0} read.2.links [[0]] ∧
    nvlinkComponents (({0} : Finset ℤ).sort (· ≤ ·)) read.2.links = none := by
  have hlinks : (parseTopologyMatrix? ascii pairTopology).map (·.2.links) =
      some [(0, [(0, "X"), (1, "NV1")]), (1, [(0, "NV1"), (1, "X")])] := by decide
  obtain ⟨read, hread, hlinks⟩ := Option.map_eq_some_iff.mp hlinks
  have hisland (links : Links) : Islands {0} links [[0]] := by
    constructor
    case sorted => exact List.pairwise_singleton _ _
    case ascending => simp
    case component =>
      intro group hgroup
      obtain rfl := List.mem_singleton.mp hgroup
      refine ⟨0, Finset.mem_singleton_self 0, fun y => ?_⟩
      rw [List.mem_singleton, Finset.mem_singleton]
      exact ⟨fun h => ⟨h, by rw [h]; exact .refl 0⟩, fun h => h.1⟩
    case covers => simp
  refine ⟨read, hread, hlinks, hisland _, ?_⟩
  rw [hlinks, Finset.sort_singleton]
  rfl

end Dropped

end ProjectControl.HostTopology
