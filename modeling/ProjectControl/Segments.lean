import Mathlib

/-! A log that is kept in a chain of files: each file holds a list of entries, and the log is
what the files hold in the order of the chain. A file that does not exist holds nothing. -/

set_option autoImplicit false

namespace Segments

section Chain

variable {ν α : Type*}

/-- What the files of a chain hold, from the first to the last. -/
def contents (chain : List ν) (files : ν → Option (List α)) : List α :=
  chain.flatMap (fun name => (files name).getD [])

variable {chain : List ν} {files files' : ν → Option (List α)} {name source target : ν}

theorem contents_cons : contents (name :: chain) files =
    (files name).getD [] ++ contents chain files := rfl

theorem contents_append (later : List ν) : contents (chain ++ later) files =
    contents chain files ++ contents later files := List.flatMap_append

theorem contents_congr (h : ∀ name ∈ chain, files name = files' name) :
    contents chain files = contents chain files' := by
  induction chain with
  | nil => rfl
  | cons name chain ih =>
    have hrest := ih fun other hother => h other (List.mem_cons_of_mem _ hother)
    rw [contents_cons, contents_cons, h name List.mem_cons_self, hrest]

variable [DecidableEq ν]

/-- The file `name` is deleted. -/
def remove (name : ν) (files : ν → Option (List α)) : ν → Option (List α) :=
  Function.update files name none

/-- The file `source` is renamed; a file of the name `target` is lost. -/
def rename (source target : ν) (files : ν → Option (List α)) : ν → Option (List α) :=
  Function.update (Function.update files target (files source)) source none

/-- Entries are added at the end of a file, which is created if it does not exist. -/
def extend (name : ν) (more : List α) (files : ν → Option (List α)) : ν → Option (List α) :=
  Function.update files name (some ((files name).getD [] ++ more))

variable {other : ν} {entries : List α}

@[simp]
theorem remove_self : remove name files name = none := Function.update_self ..

theorem remove_eq_some (h : remove name files other = some entries) :
    files other = some entries := by
  by_cases heq : other = name
  · rw [heq, remove_self] at h
    cases h
  · rwa [remove, Function.update_of_ne heq] at h

@[simp]
theorem rename_source : rename source target files source = none := Function.update_self ..

/-- A file after a renaming is the renamed one or was there before. -/
theorem rename_eq_some (h : rename source target files other = some entries) :
    other = target ∧ files source = some entries ∨ files other = some entries := by
  by_cases hsource : other = source
  · rw [hsource, rename_source] at h
    cases h
  · rw [rename, Function.update_of_ne hsource] at h
    by_cases htarget : other = target
    · rw [htarget, Function.update_self] at h
      exact .inl ⟨htarget, h⟩
    · rw [Function.update_of_ne htarget] at h
      exact .inr h

@[simp]
theorem extend_self {more : List α} :
    extend name more files name = some ((files name).getD [] ++ more) := Function.update_self ..

theorem extend_eq_some {more : List α} (h : extend name more files other = some entries) :
    other = name ∧ entries = (files name).getD [] ++ more ∨ files other = some entries := by
  by_cases heq : other = name
  · rw [heq, extend_self] at h
    exact .inl ⟨heq, (Option.some.inj h).symm⟩
  · rw [extend, Function.update_of_ne heq] at h
    exact .inr h

theorem contents_update (h : name ∉ chain) (entries : Option (List α)) :
    contents chain (Function.update files name entries) = contents chain files := by
  apply contents_congr
  intro other hother
  have hne : other ≠ name := fun heq => h (heq ▸ hother)
  exact Function.update_of_ne hne _ _

/-- What the first file held is what the chain loses with it. -/
theorem contents_remove (h : name ∉ chain) : contents (name :: chain) files =
    (files name).getD [] ++ contents (name :: chain) (remove name files) := by
  rw [contents_cons, contents_cons, remove_self, remove, contents_update h]
  rfl

/-- A file that takes the vacant place before its own changes nothing of the log. -/
theorem contents_rename {earlier later : List ν}
    (hchain : (earlier ++ target :: source :: later).Nodup) (hvacant : files target = none) :
    contents (earlier ++ target :: source :: later) (rename source target files) =
      contents (earlier ++ target :: source :: later) files := by
  obtain ⟨-, htail, hapart⟩ := List.nodup_append.mp hchain
  obtain ⟨htarget, hsource, -⟩ : target ∉ source :: later ∧ source ∉ later ∧ later.Nodup :=
    ⟨(List.nodup_cons.mp htail).1, List.nodup_cons.mp (List.nodup_cons.mp htail).2⟩
  have hne : target ≠ source := fun heq => htarget (heq ▸ List.mem_cons_self)
  have hearlier : contents earlier (rename source target files) = contents earlier files := by
    rw [rename, contents_update, contents_update]
    · exact fun hmem => hapart target hmem target List.mem_cons_self rfl
    · exact fun hmem => hapart source hmem source (List.mem_cons_of_mem _ List.mem_cons_self) rfl
  have hlater : contents later (rename source target files) = contents later files := by
    rw [rename, contents_update hsource, contents_update]
    exact fun hmem => htarget (List.mem_cons_of_mem _ hmem)
  have hmoved : rename source target files target = files source := by
    rw [rename, Function.update_of_ne hne, Function.update_self]
  simp only [contents_append, contents_cons, hearlier, hlater, hmoved, rename_source, hvacant,
    Option.getD_none, List.nil_append]

theorem contents_extend (h : name ∉ chain) (more : List α) :
    contents (chain ++ [name]) (extend name more files) =
      contents (chain ++ [name]) files ++ more := by
  have hlast (f : ν → Option (List α)) : contents [name] f = (f name).getD [] :=
    List.flatMap_singleton _ _
  rw [contents_append, contents_append, extend, contents_update h, hlast, hlast,
    Function.update_self, Option.getD_some, List.append_assoc]

end Chain

end Segments
