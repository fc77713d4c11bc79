import Mathlib.Data.List.Basic
import Mathlib.Data.List.Infix
import Mathlib.Data.List.Nodup
import Mathlib.Data.List.Perm.Subperm
import Mathlib.Tactic.Cases

/-! File trees with symbolic links: what the segments of a path lead to, and the resolution
that computes it with a bound on how deep links are resolved inside one another. -/

set_option autoImplicit false

namespace FileTree

/-- The text of a symbolic link: whether it starts at the top, and the segments it names. -/
structure Target where
  absolute : Bool
  segments : List String
  deriving DecidableEq

inductive Node
  | file
  | dir
  | other
  | link (target : Target)
  deriving DecidableEq

def Node.isLink : Node → Bool
  | .link _ => true
  | _ => false

/-- The names on the way from the top of the tree. -/
abbrev Path := List String

structure Tree where
  entries : List (Path × Node)

/-- Why a path leads nowhere. -/
inductive Fault
  | missing
  | notDirectory
  | loop
  deriving DecidableEq

def Target.start (target : Target) (dir : Path) : Path :=
  if target.absolute then [] else dir

namespace Tree

variable (t : Tree)

/-- The top of the tree is a directory. -/
def node? (p : Path) : Option Node :=
  if p = [] then some .dir else (t.entries.find? (fun e => e.1 = p)).map (·.2)

/-- What a directory has under a name. -/
def child (dir : Path) (name : String) : Except Fault Node :=
  match t.node? dir with
  | some .dir => (t.node? (dir ++ [name])).elim (.error .missing) .ok
  | some _ => .error .notDirectory
  | none => .error .missing

/-- Walks the segments of a path; `resolve` answers where a link leads. -/
def follow (resolve : Path → Target → Except Fault Path) : Path → List String → Except Fault Path
  | dir, [] => .ok dir
  | dir, name :: rest =>
    if name = ".." then follow resolve dir.dropLast rest
    else
      match t.child dir name with
      | .error e => .error e
      | .ok (.link target) =>
        match resolve dir target with
        | .error e => .error e
        | .ok p => follow resolve p rest
      | .ok _ => follow resolve (dir ++ [name]) rest

/-- Resolves links inside one another up to a depth, and takes what is deeper for a loop. -/
def resolveIn : ℕ → Path → List String → Except Fault Path
  | 0 => t.follow (fun _ _ => .error .loop)
  | d + 1 => t.follow (fun dir target => resolveIn d (target.start dir) target.segments)

/-- Only a link that is resolved inside itself is nested deeper than the tree has entries. -/
def realpath (dir : Path) (segments : List String) : Except Fault Path :=
  t.resolveIn t.entries.length dir segments

/-- Where the segments of a path lead from a directory. -/
inductive Leads : Path → List String → Path → Prop
  | here (dir : Path) : Leads dir [] dir
  | up {dir p : Path} {rest : List String} : Leads dir.dropLast rest p → Leads dir (".." :: rest) p
  | into {dir p : Path} {name : String} {rest : List String} {n : Node} : name ≠ ".." →
      t.child dir name = .ok n → n.isLink = false → Leads (dir ++ [name]) rest p →
      Leads dir (name :: rest) p
  | through {dir p q : Path} {name : String} {rest : List String} {target : Target} :
      name ≠ ".." → t.child dir name = .ok (.link target) →
      Leads (target.start dir) target.segments q → Leads q rest p → Leads dir (name :: rest) p

end Tree

section Follow

variable {t : Tree} {resolve resolve' : Path → Target → Except Fault Path} {dir p : Path}
  {name : String} {rest segments : List String}

theorem follow_up : t.follow resolve dir (".." :: rest) = t.follow resolve dir.dropLast rest := by
  simp [Tree.follow]

theorem follow_into {n : Node} (hname : name ≠ "..") (hn : t.child dir name = .ok n)
    (hlink : n.isLink = false) :
    t.follow resolve dir (name :: rest) = t.follow resolve (dir ++ [name]) rest := by
  cases n with
  | link target => cases hlink
  | file => simp [Tree.follow, hname, hn]
  | dir => simp [Tree.follow, hname, hn]
  | other => simp [Tree.follow, hname, hn]

theorem follow_through {target : Target} (hname : name ≠ "..")
    (hn : t.child dir name = .ok (.link target)) :
    t.follow resolve dir (name :: rest) =
      (resolve dir target).bind (fun q => t.follow resolve q rest) := by
  cases hq : resolve dir target with
  | error e => simp [Tree.follow, hname, hn, hq, Except.bind]
  | ok q => simp [Tree.follow, hname, hn, hq, Except.bind]

/-- The ways in which a walk of one segment and more succeeds. -/
theorem follow_cons (h : t.follow resolve dir (name :: rest) = .ok p) :
    (name = ".." ∧ t.follow resolve dir.dropLast rest = .ok p) ∨
    (∃ n, name ≠ ".." ∧ t.child dir name = .ok n ∧ n.isLink = false ∧
      t.follow resolve (dir ++ [name]) rest = .ok p) ∨
    ∃ target q, name ≠ ".." ∧ t.child dir name = .ok (.link target) ∧
      resolve dir target = .ok q ∧ t.follow resolve q rest = .ok p := by
  by_cases hname : name = ".."
  · subst hname
    exact Or.inl ⟨rfl, follow_up.symm.trans h⟩
  cases hn : t.child dir name with
  | error e => simp [Tree.follow, hname, hn] at h
  | ok n =>
    cases hlink : n.isLink with
    | false =>
      rw [follow_into hname hn hlink] at h
      exact Or.inr (Or.inl ⟨n, hname, rfl, hlink, h⟩)
    | true =>
      obtain ⟨target, rfl⟩ : ∃ target, n = .link target := by
        cases n with
        | link target => exact ⟨target, rfl⟩
        | file => cases hlink
        | dir => cases hlink
        | other => cases hlink
      rw [follow_through hname hn] at h
      cases hq : resolve dir target with
      | error e => rw [hq] at h; cases h
      | ok q =>
        rw [hq] at h
        exact Or.inr (Or.inr ⟨target, q, hname, rfl, hq, h⟩)

/-- A walk succeeds as well where links are resolved at least as often. -/
theorem follow_mono (hresolve : ∀ dir target q, resolve dir target = .ok q →
    resolve' dir target = .ok q) (h : t.follow resolve dir segments = .ok p) :
    t.follow resolve' dir segments = .ok p := by
  induction segments generalizing dir with
  | nil => exact h
  | cons name rest ih =>
    obtain ⟨rfl, h⟩ | ⟨n, hname, hn, hlink, h⟩ | ⟨target, q, hname, hn, hq, h⟩ := follow_cons h
    · rw [follow_up]
      exact ih h
    · rw [follow_into hname hn hlink]
      exact ih h
    · rw [follow_through hname hn, hresolve dir target q hq]
      exact ih h

end Follow

section Depth

variable {t : Tree} {dir p q : Path} {segments : List String} {d k : ℕ}

theorem resolveIn_succ (h : t.resolveIn d dir segments = .ok p) :
    t.resolveIn (d + 1) dir segments = .ok p := by
  induction d generalizing dir segments p with
  | zero => exact follow_mono (fun _ _ _ hq => by cases hq) h
  | succ d ih => exact follow_mono (fun _ _ _ hq => ih hq) h

theorem resolveIn_mono (hd : d ≤ k) (h : t.resolveIn d dir segments = .ok p) :
    t.resolveIn k dir segments = .ok p := by
  induction hd with
  | refl => exact h
  | step _ ih => exact resolveIn_succ ih

theorem resolveIn_unique (hp : t.resolveIn d dir segments = .ok p)
    (hq : t.resolveIn k dir segments = .ok q) : p = q := by
  have hp' := resolveIn_mono (Nat.le_max_left d k) hp
  have hq' := resolveIn_mono (Nat.le_max_right d k) hq
  exact Except.ok.inj (hp'.symm.trans hq')

/-- A link whose resolution takes the depth `k` and no smaller one. -/
def Needs (t : Tree) (link : Path) (k : ℕ) : Prop :=
  ∃ dir name target p, link = dir ++ [name] ∧ t.child dir name = .ok (.link target) ∧
    t.resolveIn k (target.start dir) target.segments = .ok p ∧
    ∀ j < k, t.resolveIn j (target.start dir) target.segments ≠ .ok p

theorem Needs.unique {link : Path} (h : Needs t link d) (h' : Needs t link k) : d = k := by
  obtain ⟨dir, name, target, p, hlink, hn, hp, hleast⟩ := h
  obtain ⟨dir', name', target', p', hlink', hn', hp', hleast'⟩ := h'
  obtain ⟨rfl, hname⟩ := List.append_inj' (hlink.symm.trans hlink') rfl
  obtain rfl : name = name' := List.head_eq_of_cons_eq hname
  obtain rfl : target = target' := Node.link.inj (Except.ok.inj (hn.symm.trans hn'))
  obtain rfl : p = p' := resolveIn_unique hp hp'
  rcases Nat.lt_trichotomy d k with hlt | heq | hgt
  · exact absurd hp (hleast' d hlt)
  · exact heq
  · exact absurd hp' (hleast k hgt)

theorem child_ok {name : String} {n : Node} (h : t.child dir name = .ok n) :
    t.node? (dir ++ [name]) = some n := by
  unfold Tree.child at h
  split at h
  · cases hn : t.node? (dir ++ [name]) with
    | none => simp [hn] at h
    | some m => simpa [hn] using h
  · cases h
  · cases h

theorem mem_of_node? {n : Node} (hp : p ≠ []) (h : t.node? p = some n) :
    p ∈ t.entries.map (·.1) := by
  unfold Tree.node? at h
  rw [if_neg hp] at h
  obtain ⟨e, he, -⟩ := Option.map_eq_some_iff.mp h
  have hkey : e.1 = p := by simpa using List.find?_some he
  exact hkey ▸ List.mem_map_of_mem (List.mem_of_find?_eq_some he)

theorem Needs.mem {link : Path} (h : Needs t link k) : link ∈ t.entries.map (·.1) := by
  obtain ⟨dir, name, target, -, rfl, hn, -, -⟩ := h
  exact mem_of_node? (by simp) (child_ok hn)

/-- Where one more level of depth makes a difference, some link needs it. -/
theorem needs_of_succ (h : t.resolveIn (d + 1) dir segments = .ok p)
    (hnot : t.resolveIn d dir segments ≠ .ok p) : ∃ link, Needs t link d := by
  induction segments generalizing dir with
  | nil =>
    refine absurd ?_ hnot
    cases d with
    | zero => exact h
    | succ d => exact h
  | cons name rest ih =>
    have hstep : ∀ dir', t.resolveIn (d + 1) dir' rest = .ok p →
        (t.resolveIn d dir' rest = .ok p → t.resolveIn d dir (name :: rest) = .ok p) →
        ∃ link, Needs t link d :=
      fun dir' h' hback => ih h' (fun hd => hnot (hback hd))
    obtain ⟨rfl, h⟩ | ⟨n, hname, hn, hlink, h⟩ | ⟨target, q, hname, hn, hq, h⟩ := follow_cons h
    · refine hstep dir.dropLast h (fun hd => ?_)
      cases d with
      | zero => exact follow_up.trans hd
      | succ d => exact follow_up.trans hd
    · refine hstep (dir ++ [name]) h (fun hd => ?_)
      cases d with
      | zero => exact (follow_into hname hn hlink).trans hd
      | succ d => exact (follow_into hname hn hlink).trans hd
    · -- the link on the way needs the depth, or a smaller one is enough for it
      by_cases hleast : ∀ j < d, t.resolveIn j (target.start dir) target.segments ≠ .ok q
      · exact ⟨dir ++ [name], dir, name, target, q, rfl, hn, hq, hleast⟩
      · push Not at hleast
        obtain ⟨j, hj, hjq⟩ := hleast
        refine hstep q h (fun hd => ?_)
        cases d with
        | zero => omega
        | succ d =>
          have hlow := resolveIn_mono (Nat.le_of_lt_succ hj) hjq
          calc t.resolveIn (d + 1) dir (name :: rest)
              = (t.resolveIn d (target.start dir) target.segments).bind
                  (fun q => t.resolveIn (d + 1) q rest) := follow_through hname hn
            _ = t.resolveIn (d + 1) q rest := by rw [hlow]; rfl
            _ = .ok p := hd

/-- A link that needs a depth has inside it links that need every smaller one. -/
theorem Needs.below {link : Path} (h : Needs t link d) : ∀ k ≤ d, ∃ link', Needs t link' k := by
  induction d generalizing link with
  | zero =>
    intro k hk
    obtain rfl : k = 0 := Nat.le_zero.mp hk
    exact ⟨link, h⟩
  | succ d ih =>
    intro k hk
    rcases Nat.lt_or_eq_of_le hk with hlt | rfl
    · obtain ⟨dir, name, target, p, -, -, hp, hleast⟩ := h
      obtain ⟨link', h'⟩ := needs_of_succ hp (hleast d d.lt_succ_self)
      exact ih h' k (Nat.le_of_lt_succ hlt)
    · exact ⟨link, h⟩

theorem Needs.lt_length {link : Path} (h : Needs t link d) : d < t.entries.length := by
  choose f hf using h.below
  let links := (List.range (d + 1)).attach.map
    (fun k => f k.1 (Nat.le_of_lt_succ (List.mem_range.mp k.2)))
  have hnodup : links.Nodup := by
    refine List.Nodup.map_on (fun k _ k' _ hkk => ?_) (List.nodup_attach.mpr List.nodup_range)
    have hk := hf k.1 (Nat.le_of_lt_succ (List.mem_range.mp k.2))
    rw [hkk] at hk
    exact Subtype.ext (hk.unique (hf k'.1 _))
  have hsub : links ⊆ t.entries.map (·.1) := by
    intro link' hlink'
    obtain ⟨k, -, rfl⟩ := List.mem_map.mp hlink'
    exact (hf k.1 _).mem
  have hlength := (hnodup.subperm hsub).length_le
  simp only [links, List.length_map, List.length_attach, List.length_range] at hlength
  omega

/-- What some depth resolves, the number of entries resolves. -/
theorem realpath_of_resolveIn (h : t.resolveIn d dir segments = .ok p) :
    t.realpath dir segments = .ok p := by
  by_cases hd : d ≤ t.entries.length
  · exact resolveIn_mono hd h
  induction d with
  | zero => omega
  | succ d ih =>
    by_cases hlow : t.resolveIn d dir segments = .ok p
    · by_cases hd' : d ≤ t.entries.length
      · exact resolveIn_mono hd' hlow
      · exact ih hlow hd'
    · obtain ⟨link, hlink⟩ := needs_of_succ h hlow
      have hlt := hlink.lt_length
      omega

end Depth

section Leads

variable {t : Tree} {dir p q : Path} {segments xs ys : List String} {d : ℕ}

theorem leads_of_follow {resolve : Path → Target → Except Fault Path}
    (hresolve : ∀ dir target q, resolve dir target = .ok q →
      t.Leads (target.start dir) target.segments q)
    (h : t.follow resolve dir segments = .ok p) : t.Leads dir segments p := by
  induction segments generalizing dir with
  | nil =>
    obtain rfl : dir = p := Except.ok.inj h
    exact .here dir
  | cons name rest ih =>
    obtain ⟨rfl, h⟩ | ⟨n, hname, hn, hlink, h⟩ | ⟨target, q, hname, hn, hq, h⟩ := follow_cons h
    · exact .up (ih h)
    · exact .into hname hn hlink (ih h)
    · exact .through hname hn (hresolve dir target q hq) (ih h)

theorem leads_of_resolveIn (h : t.resolveIn d dir segments = .ok p) : t.Leads dir segments p := by
  induction d generalizing dir segments p with
  | zero => exact leads_of_follow (fun _ _ _ hq => by cases hq) h
  | succ d ih => exact leads_of_follow (fun _ _ _ hq => ih hq) h

theorem resolveIn_of_leads (h : t.Leads dir segments p) :
    ∃ d, t.resolveIn (d + 1) dir segments = .ok p := by
  induction h with
  | here dir => exact ⟨0, rfl⟩
  | up _ ih =>
    obtain ⟨d, hd⟩ := ih
    exact ⟨d, follow_up.trans hd⟩
  | into hname hn hlink _ ih =>
    obtain ⟨d, hd⟩ := ih
    exact ⟨d, (follow_into hname hn hlink).trans hd⟩
  | @through dir p q name rest target hname hn _ _ ihq ih =>
    -- the larger of the two depths serves the link and what follows it
    obtain ⟨d, hd⟩ := ihq
    obtain ⟨k, hk⟩ := ih
    have hq := resolveIn_mono (Nat.succ_le_succ (Nat.le_max_left d k)) hd
    have hp := resolveIn_mono (Nat.succ_le_succ (Nat.le_succ_of_le (Nat.le_max_right d k))) hk
    refine ⟨max d k + 1, ?_⟩
    calc t.resolveIn (max d k + 1 + 1) dir (name :: rest)
        = (t.resolveIn (max d k + 1) (target.start dir) target.segments).bind
            (fun q => t.resolveIn (max d k + 1 + 1) q rest) := follow_through hname hn
      _ = t.resolveIn (max d k + 1 + 1) q rest := by rw [hq]; rfl
      _ = .ok p := hp

/-- The resolution finds where a path leads, if it leads anywhere. -/
theorem realpath_eq_ok : t.realpath dir segments = .ok p ↔ t.Leads dir segments p := by
  constructor
  · exact leads_of_resolveIn
  · intro h
    obtain ⟨d, hd⟩ := resolveIn_of_leads h
    exact realpath_of_resolveIn hd

theorem Tree.Leads.unique (hp : t.Leads dir segments p) (hq : t.Leads dir segments q) : p = q :=
  Except.ok.inj ((realpath_eq_ok.mpr hp).symm.trans (realpath_eq_ok.mpr hq))

theorem Tree.Leads.append (hq : t.Leads dir xs q) (hp : t.Leads q ys p) :
    t.Leads dir (xs ++ ys) p := by
  induction hq with
  | here dir => exact hp
  | up _ ih => exact .up (ih hp)
  | into hname hn hlink _ ih => exact .into hname hn hlink (ih hp)
  | through hname hn hlink _ _ ih => exact .through hname hn hlink (ih hp)

theorem leads_append : t.Leads dir (xs ++ ys) p ↔ ∃ q, t.Leads dir xs q ∧ t.Leads q ys p := by
  refine ⟨fun h => ?_, fun ⟨q, hq, hp⟩ => hq.append hp⟩
  induction xs generalizing dir with
  | nil => exact ⟨dir, .here dir, h⟩
  | cons name rest ih =>
    cases h with
    | up h =>
      obtain ⟨q, hq, hp⟩ := ih h
      exact ⟨q, .up hq, hp⟩
    | into hname hn hlink h =>
      obtain ⟨q, hq, hp⟩ := ih h
      exact ⟨q, .into hname hn hlink hq, hp⟩
    | through hname hn hlink h =>
      obtain ⟨q, hq, hp⟩ := ih h
      exact ⟨q, .through hname hn hlink hq, hp⟩

/-- Nothing on the way along these names is a link. -/
def Unlinked (t : Tree) (dir : Path) (names : List String) : Prop :=
  ∀ before name, before ++ [name] <+: names →
    ∀ n, t.node? (dir ++ before ++ [name]) = some n → n.isLink = false

theorem Unlinked.tail {name : String} (h : Unlinked t dir (name :: xs)) :
    Unlinked t (dir ++ [name]) xs := by
  intro before name' hbefore n hn
  refine h (name :: before) name' ?_ n (by simpa using hn)
  exact List.cons_prefix_cons.mpr ⟨rfl, hbefore⟩

/-- Names without a link among them lead to the place they spell. -/
theorem Unlinked.leads (hnames : ".." ∉ xs) (h : Unlinked t dir xs) (hp : t.Leads dir xs p) :
    p = dir ++ xs := by
  induction xs generalizing dir with
  | nil =>
    cases hp
    exact (List.append_nil p).symm
  | cons name rest ih =>
    have htail := fun hp => ih (fun hr => hnames (List.mem_cons_of_mem _ hr)) h.tail hp
    cases hp with
    | up => exact absurd List.mem_cons_self hnames
    | into hname hn hlink hp =>
      have hrest := htail hp
      rwa [List.append_assoc, List.singleton_append] at hrest
    | through hname hn =>
      have hfirst : [] ++ [name] <+: name :: rest := List.prefix_append [name] rest
      have hlink := h [] name hfirst _ (by simpa using child_ok hn)
      cases hlink

/-- A place that is reached under its own names. -/
def Settled (t : Tree) (p : Path) : Prop :=
  ∀ before name, before ++ [name] <+: p →
    name ≠ ".." ∧ ∃ n, t.child before name = .ok n ∧ n.isLink = false

theorem settled_nil : Settled t [] := by
  intro before name h
  have hlength := h.length_le
  simp at hlength

theorem Settled.dropLast (h : Settled t p) : Settled t p.dropLast :=
  fun before name hp => h before name (hp.trans (List.dropLast_prefix p))

theorem Settled.snoc {name : String} {n : Node} (h : Settled t p) (hname : name ≠ "..")
    (hn : t.child p name = .ok n) (hlink : n.isLink = false) : Settled t (p ++ [name]) := by
  intro before name' hp
  rcases List.prefix_concat_iff.mp hp with heq | hprefix
  · obtain ⟨rfl, hlast⟩ := List.append_inj' heq rfl
    obtain rfl : name' = name := List.head_eq_of_cons_eq hlast
    exact ⟨hname, n, hn, hlink⟩
  · exact h before name' hprefix

theorem Settled.start {target : Target} (h : Settled t dir) : Settled t (target.start dir) := by
  unfold Target.start
  split
  · exact settled_nil
  · exact h

/-- Links lead from places under their own names to places under their own names. -/
theorem Tree.Leads.settled (h : t.Leads dir segments p) (hdir : Settled t dir) : Settled t p := by
  induction h with
  | here => exact hdir
  | up _ ih => exact ih hdir.dropLast
  | into hname hn hlink _ ih => exact ih (hdir.snoc hname hn hlink)
  | through _ _ _ _ ihq ih => exact ih (ihq hdir.start)

theorem Settled.leads_from (hp : Settled t (dir ++ xs)) : t.Leads dir xs (dir ++ xs) := by
  induction xs generalizing dir with
  | nil =>
    rw [List.append_nil]
    exact .here dir
  | cons name rest ih =>
    have hsplit : dir ++ name :: rest = dir ++ [name] ++ rest := by simp
    obtain ⟨hname, n, hn, hlink⟩ := hp dir name ⟨rest, hsplit.symm⟩
    rw [hsplit] at hp ⊢
    exact .into hname hn hlink (ih hp)

theorem Settled.leads (hp : Settled t p) : t.Leads [] p p := by
  have h : t.Leads [] p ([] ++ p) := Settled.leads_from hp
  exact h

/-- Below a place under its own names a path leads where it leads from that place. -/
theorem Settled.leads_append (hp : Settled t p) : t.Leads [] (p ++ xs) q ↔ t.Leads p xs q := by
  rw [FileTree.leads_append]
  constructor
  · rintro ⟨p', hp', hq⟩
    rwa [hp.leads.unique hp']
  · exact fun hq => ⟨p, hp.leads, hq⟩

end Leads

end FileTree
