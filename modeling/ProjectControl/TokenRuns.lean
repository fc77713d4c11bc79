import Mathlib
import ProjectControl.ResumptionLock
import ProjectControl.ResumptionAlone
import ProjectControl.TokenStore

/-! Calls of several processes on the file with the credentials, each under the lock on the
file. As long as what is written can be read again, no entry is lost. -/

set_option autoImplicit false

namespace ProjectControl.Tokens

open JsonText Resumption Resumption.Spec

section System

/-- The file, and the calls that took effect on it, oldest first. -/
structure World where
  file : Option StoreFile
  log : List Call := []

inductive Label where
  | readStore
  | writeStore
  deriving DecidableEq

abbrev Body (α : Type) := Prog World Unit Label Error α

/-- The part of a call under the lock. It takes effect when the file is replaced, or when its
entry is found. -/
def Call.body (call : Call) : Body Unit := do
  let value ← .atomic .readStore (fun s _ => (s, readStore s.file))
  match ← Prog.ofExcept (call.change value) with
  | some changed => .atomic .writeStore (fun s _ =>
      (⟨writeStore changed, s.log ++ [call]⟩, .ok ()))
  | none => .atomic .readStore (fun s _ => (⟨s.file, s.log ++ [call]⟩, .ok ()))

/-- A call of the thread `i`, which remembers what it called. -/
def Call.program (i : ℕ) (call : Call) :
    Prog (Locked ℕ World) Unit (Access Label Call) Error Call := do
  Prog.ofExcept call.check
  Prog.withLock i call call.body
  return call

/-- The threads of all processes. A thread that dies gives up the lock. -/
def tokenSystem : System ℕ (Locked ℕ World) Unit (Access Label Call) Error Call Call Empty where
  program := Call.program
  crash := Locked.freed
  env := fun _ e => e.elim

/-- No call has been made yet. -/
def start (file : Option StoreFile) :
    Pool ℕ (Locked ℕ World) Unit (Access Label Call) Error Call :=
  ⟨⟨⟨file, []⟩, none⟩, fun _ => none⟩

/-- The call takes the lock at a file in which its entry has room. -/
def HasRoom (s : World) (call : Call) : Prop :=
  ∀ store, readStore s.file = .ok store → store.Fits call.stores?

end System

section Accounts

/-- No identity that the calls forget is one of this entry. -/
def Keep (part : Part) (entry : Json) (calls : List Call) : Prop :=
  ∀ call ∈ calls, ∀ key, call.forgets? = some (part, key) → identifies key entry = false

/-- The store has what was in it at the start and what has been stored since, if it was not
forgotten. -/
structure Accounted (initial : Store) (log : List Call) (s : Store) : Prop where
  unique : s.Unique
  sessions : s.sessions = initial.sessions
  kept : ∀ part, ∀ entry ∈ initial.part part, Keep part entry log → entry ∈ s.part part
  stored : ∀ before call after, log = before ++ call :: after → ∀ part key entry,
    call.stores? = some (part, key, entry) → Keep part entry after → entry ∈ s.part part

end Accounts

section Steps

variable {s s' : Store} {call : Call} {part : Part} {key : Key} {entry : Json}

/-- What a call that takes effect makes of a store. -/
structure Applied (call : Call) (s s' : Store) : Prop where
  unique : s.Unique → s'.Unique
  sessions : s'.sessions = s.sessions
  kept : ∀ part, ∀ entry ∈ s.part part, Keep part entry [call] → entry ∈ s'.part part
  stored : ∀ part key entry, call.stores? = some (part, key, entry) → entry ∈ s'.part part

theorem entries_append (records : List Json) (key : Key) (entry : Json) :
    entries (records ++ [entry]) key =
      entries records key ++ if identifies key entry then [entry] else [] := by
  rw [entries, List.filter_append, List.filter_singleton, entries]
  cases identifies key entry with
  | true => rfl
  | false => rfl

theorem applied_found (hs : call.stores? = some (part, key, entry))
    (hfound : entries (s.part part) key = [entry]) : Applied call s s where
  unique := id
  sessions := rfl
  kept := fun _ _ he _ => he
  stored := by
    intro part' key' entry' h
    obtain ⟨rfl, rfl, rfl⟩ : part = part' ∧ key = key' ∧ entry = entry' := by simpa [hs] using h
    have hmem : entry ∈ entries (s.part part) key := hfound ▸ List.mem_singleton_self entry
    exact (List.mem_filter.mp hmem).1

theorem applied_added (hs : call.stores? = some (part, key, entry))
    (hfree : entries (s.part part) key = []) :
    Applied call s (s.withPart part (s.part part ++ [entry])) where
  unique := by
    intro hunique other key' hnames
    by_cases hpart : other = part
    · subst hpart
      obtain ⟨hkey, hnames', -⟩ := stores_identifies hs
      rw [part_withPart, entries_append]
      split
      · next hkey' =>
        have hsame : key' = key := identifies_unique (hnames.trans hnames'.symm) hkey hkey'
        rw [hsame, hfree]
        exact Nat.le_refl 1
      · rw [List.append_nil]
        exact hunique other key' hnames
    · rw [part_withPart_of_ne s _ hpart]
      exact hunique other key' hnames
  sessions := by cases part <;> rfl
  kept := by
    intro other e he _
    by_cases hpart : other = part
    · subst hpart
      rw [part_withPart]
      exact List.mem_append_left _ he
    · rwa [part_withPart_of_ne s _ hpart]
  stored := by
    intro part' key' entry' h
    obtain ⟨rfl, rfl, rfl⟩ : part = part' ∧ key = key' ∧ entry = entry' := by simpa [hs] using h
    rw [part_withPart]
    exact List.mem_append_right _ (List.mem_singleton_self entry)

theorem applied_forgotten (hs : call.stores? = none)
    (hforgets : call.forgets? = some (.attempts, key)) :
    Applied call s (s.withPart .attempts (s.attempts.filter (!identifies key ·))) where
  unique := by
    intro hunique other key' hnames
    cases other with
    | attempts =>
      have hsub : (entries (s.attempts.filter (!identifies key ·)) key').Sublist
          (entries s.attempts key') := List.filter_sublist.filter _
      exact hsub.length_le.trans (hunique .attempts key' hnames)
    | children => exact hunique .children key' hnames
  sessions := rfl
  kept := by
    intro other e he hkeep
    cases other with
    | attempts =>
      have hother : identifies key e = false := hkeep call (List.mem_singleton_self call) key hforgets
      exact List.mem_filter.mpr ⟨he, by simp [hother]⟩
    | children => exact he
  stored := by
    intro part' key' entry' h
    rw [hs] at h
    cases h

theorem change_applied (call : Call) (s : Store) :
    Ensures (call.change s) (fun r => Applied call s (r.getD s)) := by
  refine (change_ensures call s).mono (fun r hr => ?_)
  rcases hr with ⟨part, key, entry, hs, ⟨hfree, rfl⟩ | ⟨hfound, rfl⟩⟩ | ⟨key, hs, hforgets, rfl⟩
  · exact applied_added hs hfree
  · exact applied_found hs hfound
  · exact applied_forgotten hs hforgets

/-- A store that is written is read again. -/
structure Store.Readable (s : Store) : Prop where
  canonical : s.Canonical
  size : bytes s.text ≤ maxStoreBytes

/-- What is written can be read if the call has room for its entry. -/
theorem change_readable (hs : s.Readable) (hfits : s.Fits call.stores?) :
    Ensures (call.change s) (fun r => (r.getD s).Readable) := by
  refine (change_ensures call s).mono (fun r hr => ?_)
  rcases hr with ⟨part, key, entry, hstores, ⟨hfree, rfl⟩ | ⟨-, rfl⟩⟩ | ⟨key, hstores, -, rfl⟩
  · rw [hstores] at hfits
    have hentry := (stores_identifies hstores).2.2
    have hrecords : CanonicalItems (s.part part ++ [entry]) := by
      refine canonicalItems_iff.mpr (fun v hv => ?_)
      rcases List.mem_append.mp hv with hv | hv
      · exact canonicalItems_iff.mp (canonical_part hs.canonical part) v hv
      · rw [List.mem_singleton.mp hv]
        exact hentry
    exact ⟨hs.canonical.withPart part hrecords, hfits hfree⟩
  · exact hs
  · have hrecords : CanonicalItems (s.attempts.filter (!identifies key ·)) :=
      canonicalItems_iff.mpr (fun v hv =>
        canonicalItems_iff.mp hs.canonical.attempts v (List.mem_filter.mp hv).1)
    exact ⟨hs.canonical.withPart .attempts hrecords, (bytes_forget s _).trans hs.size⟩

theorem Keep.left {log after : List Call} (h : Keep part entry (log ++ after)) :
    Keep part entry log :=
  fun call hcall => h call (List.mem_append_left _ hcall)

theorem Keep.right {log after : List Call} (h : Keep part entry (log ++ after)) :
    Keep part entry after :=
  fun call hcall => h call (List.mem_append_right _ hcall)

theorem accounted_start (hunique : s.Unique) : Accounted s [] s where
  unique := hunique
  sessions := rfl
  kept := fun _ _ he _ => he
  stored := fun before _ _ h => by cases before <;> cases h

/-- A call that takes effect keeps the account. -/
theorem Accounted.apply {initial : Store} {log : List Call} (h : Accounted initial log s)
    (ha : Applied call s s') : Accounted initial (log ++ [call]) s' where
  unique := ha.unique h.unique
  sessions := ha.sessions.trans h.sessions
  kept := fun part entry he hkeep =>
    ha.kept part entry (h.kept part entry he hkeep.left) hkeep.right
  stored := by
    intro before earlier after hlog part key entry hstores hkeep
    rcases List.eq_nil_or_concat after with rfl | ⟨middle, last, rfl⟩
    · obtain ⟨-, hcall⟩ := List.append_inj' hlog rfl
      obtain rfl := List.singleton_inj.mp hcall
      exact ha.stored part key entry hstores
    · have hsplit : log ++ [call] = (before ++ earlier :: middle) ++ [last] := by simpa using hlog
      obtain ⟨hbefore, hlast⟩ := List.append_inj' hsplit rfl
      obtain rfl := List.singleton_inj.mp hlast
      rw [List.concat_eq_append] at hkeep
      exact ha.kept part entry (h.stored before earlier middle hbefore part key entry hstores
        hkeep.left) hkeep.right

end Steps

section Runs

variable {initial : Store} {call : Call}

/-- The file is read without an error, and nothing that it should hold is missing. -/
def Sound (initial : Store) (s : World) : Prop :=
  ∃ store, readStore s.file = .ok store ∧ store.Readable ∧ Accounted initial s.log store

/-- Only the thread with the lock changes the file, and no effect is taken back. -/
def tokenDiscipline (initial : Store) : Discipline World Call where
  inv := Sound initial
  enters := HasRoom
  held := fun s s' => s.log <+: s'.log
  free := Eq
  free_refl := fun _ => rfl
  free_held := fun _ _ h => h ▸ List.prefix_rfl

/-- The part of a call under the lock keeps the account, and the call has taken effect when it
returns. -/
theorem triple_body (initial : Store) (call : Call) :
    (tokenDiscipline initial).heldSpec.Triple () (fun s => True ∧ HasRoom s call) call.body
      (fun _ s => call ∈ s.log) := by
  have hstable : ∀ A : World → Prop, (tokenDiscipline initial).heldSpec (ℓ := Label) |>.Stable () A := by
    rintro A s s' ⟨-, -, ⟨j, hj, -⟩ | rfl⟩ ha
    · exact absurd rfl hj
    · exact ha
  refine triple_bind (M := fun value s => readStore s.file = .ok value ∧ HasRoom s call)
    (triple_atomic (hstable _) (fun _ => hstable _) ?_) (fun value => ?_)
  · intro s _ hs ha _
    exact ⟨hs, List.prefix_rfl, fun value hvalue => ⟨hvalue, ha.2⟩⟩
  · refine triple_bind (M := fun r s => call.change value = .ok r ∧
      readStore s.file = .ok value ∧ HasRoom s call) ?_ (fun r => ?_)
    · cases hchange : call.change value with
      | error e => exact triple_fail
      | ok r => exact triple_done (hstable _) (fun s _ ha => ⟨rfl, ha⟩)
    · refine triple_pre (B := fun s => call.change value = .ok r ∧ readStore s.file = .ok value ∧
        value.Readable ∧ Accounted initial s.log value ∧ value.Fits call.stores?) ?_ ?_
      · cases r with
        | none =>
          refine triple_atomic (hstable _) (fun _ => hstable _) ?_
          rintro s - - ⟨hchange, hread, hvalue, haccount, -⟩ -
          exact ⟨⟨value, hread, hvalue, haccount.apply (change_applied call value none hchange)⟩,
            List.prefix_append _ _, fun _ _ => List.mem_append_right _ List.mem_cons_self⟩
        | some changed =>
          refine triple_atomic (hstable _) (fun _ => hstable _) ?_
          rintro s - - ⟨hchange, hread, hvalue, haccount, hfits⟩ -
          have hreadable : changed.Readable := change_readable hvalue hfits _ hchange
          exact ⟨⟨changed, readStore_writeStore hreadable.canonical hreadable.size, hreadable,
            haccount.apply (change_applied call value _ hchange)⟩,
            List.prefix_append _ _, fun _ _ => List.mem_append_right _ List.mem_cons_self⟩
      · -- the value that was read is the one for which the account is kept
        rintro s ⟨store, hstore, hreadable, haccount⟩ ⟨hchange, hread, hroom⟩
        obtain rfl : store = value := Except.ok.inj (hstore.symm.trans hread)
        exact ⟨hchange, hread, hreadable, haccount, hroom store hread⟩

theorem triple_program (initial : Store) (i : ℕ) (call : Call) :
    (tokenDiscipline initial).spec.Triple i (fun _ => True) (call.program i)
      (fun answer s => answer ∈ s.shared.log) := by
  have hlog : ∀ s s' : World, s.log <+: s'.log → call ∈ s.log → call ∈ s'.log :=
    fun _ _ h hmem => h.subset hmem
  refine triple_bind (M := fun _ _ => True) ?_ (fun _ => ?_)
  · cases call.check with
    | error e => exact triple_fail
    | ok u => exact triple_done stable_true (fun _ _ _ => trivial)
  · refine triple_bind (M := fun _ s => call ∈ s.shared.log) ?_ (fun _ => ?_)
    · exact Discipline.triple_withLock (fun _ _ _ h => h) (fun _ => hlog)
        (fun _ _ h hroom => h ▸ hroom) (triple_body initial call)
    · exact triple_done (Discipline.stable_free (D := tokenDiscipline initial) hlog)
        (fun _ _ h => h)

theorem tokenSound (initial : Store) :
    (tokenDiscipline initial).spec.Sound (ι := ℕ) tokenSystem where
  crash := fun i s hs => ⟨Discipline.inv_freed (D := tokenDiscipline initial) i hs,
    Discipline.guar_freed i s⟩
  env := fun _ e => e.elim
  program := fun i call => triple_post (triple_program initial i call) (fun _ _ _ => trivial)

/-- In every run in which each call takes the lock at a file with room for its entry, the file
can be read, has at most one entry for each identity, and has all entries that were stored by the
calls which returned and that were not forgotten since. -/
theorem store_survives {file : Option StoreFile} (hread : readStore file = .ok initial)
    (hsize : bytes initial.text ≤ maxStoreBytes) (hunique : initial.Unique)
    {p : Pool ℕ (Locked ℕ World) Unit (Access Label Call) Error Call}
    (h : tokenSystem.Reach (EntersWith HasRoom) (start file) p) :
    (∃ store, readStore p.shared.shared.file = .ok store ∧
      Accounted initial p.shared.shared.log store) ∧
    ∀ i call, p.threads i = some (.done call) → call ∈ p.shared.shared.log := by
  have hreadable : initial.Readable := ⟨canonical_readStore hread, hsize⟩
  have hstart : (tokenDiscipline initial).spec.PoolEnsures (fun _ answer s => answer ∈ s.shared.log)
      (start file) :=
    poolEnsures_of_idle ⟨initial, hread, hreadable, accounted_start hunique⟩ (fun _ => rfl)
  have hend := poolEnsures_reach (tokenSound initial) (triple_program initial) hstart h
  obtain ⟨store, hstore, -, haccount⟩ := hend.1
  exact ⟨⟨store, hstore, haccount⟩, fun i call hcall => hend.returned hcall⟩

instance (s : World) (call : Call) : Decidable (HasRoom s call) :=
  match h : readStore s.file with
  | .ok store => decidable_of_iff (store.Fits call.stores?) (by simp [HasRoom, h])
  | .error _ => isTrue (by simp [HasRoom, h])

def demoProject : ProjectMetadata := ⟨"project-one", "authority-one"⟩

def demoCall (attemptId bearer : String) : Call :=
  .storeAttempt demoProject "host" attemptId bearer "coder"

/-- Two processes store one bearer each. -/
theorem two_bearers_survive : ∃ p, tokenSystem.Reach (EntersWith HasRoom) (start none) p ∧
    p.shared.shared.log.length = 2 ∧ ∃ store, readStore p.shared.shared.file = .ok store ∧
      Accounted {} p.shared.shared.log store := by
  obtain ⟨p, hp, hlength⟩ := System.exists_reach tokenSystem (EntersWith HasRoom)
    (p := start none) ([.start 0 (demoCall "attempt-one" "one"),
      .start 1 (demoCall "attempt-two" "two")] ++ List.replicate 4 (.act 0 ()) ++
        List.replicate 4 (.act 1 ()))
    (f := fun p => p.shared.shared.log.length) (b := 2) (by decide +kernel)
  have hunique : Store.Unique {} := fun part _ _ => by cases part <;> exact Nat.zero_le 1
  exact ⟨p, hp, hlength, (store_survives rfl (by decide +kernel) hunique hp).1⟩

end Runs

section Oversized

variable {bearer : String}

def demoStore (bearer : String) : Store :=
  { attempts := [attemptEntry demoProject "host" "attempt-one" bearer "coder"] }

theorem bytes_demoStore (hlong : maxStoreBytes ≤ bearer.toList.length) :
    maxStoreBytes < bytes (demoStore bearer).text := by
  have hescaped : bearer.toList.length ≤ (bearer.toList.flatMap (escape true)).length :=
    length_le_flatMap_escape bearer.toList
  refine Nat.lt_of_lt_of_le ?_ (length_le_bytes _)
  simp only [Store.text, Store.toJson, demoStore, attemptEntry, render, renderFields, renderItems,
    quote, List.length_cons, List.length_append]
  omega

theorem demoCall_check (hbearer : blank bearer = false) : (demoCall "attempt-one" bearer).check = .ok () := by
  have hrest : blank "host" = false ∧ blank "attempt-one" = false ∧ blank "coder" = false := by
    decide
  simp [demoCall, Call.check, hbearer, hrest]

/-- A call with a bearer that fills the file alone returns, and leaves a file that no call can
read. -/
theorem oversized_call (hlong : maxStoreBytes ≤ bearer.toList.length)
    (hbearer : blank bearer = false) :
    ∃ p call, tokenSystem.Reach System.anyStep (start none) p ∧ p.threads 0 = some (.done call) ∧
      call = demoCall "attempt-one" bearer ∧ readStore p.shared.shared.file = .error (.unavailable
        "private Todo credential store has unsafe ownership, permissions, or size") := by
  have hchange : (demoCall "attempt-one" bearer).change {} = .ok (some (demoStore bearer)) := rfl
  have hbody : (demoCall "attempt-one" bearer).body.Can
      (fun _ s => s.file = writeStore (demoStore bearer)) ⟨none, []⟩ := by
    refine Prog.can_bind (M := fun value s => value = {} ∧ s = ⟨none, []⟩)
      (Prog.can_atomic () rfl ⟨rfl, rfl⟩) ?_
    rintro _ _ ⟨rfl, rfl⟩
    rw [hchange]
    exact Prog.can_atomic () (a := ()) rfl rfl
  have hprogram : ((demoCall "attempt-one" bearer).program 0).Can (fun answer s => answer = demoCall "attempt-one" bearer ∧
      s.shared.file = writeStore (demoStore bearer)) (start none).shared := by
    unfold Call.program
    rw [demoCall_check hbearer]
    refine Prog.can_bind (M := fun _ s => s = (start none).shared) rfl ?_
    rintro _ _ rfl
    exact Prog.can_bind (Prog.can_withLock () rfl hbody) (fun _ _ hfile => ⟨rfl, hfile⟩)
  obtain ⟨p, call, hreach, hdone, hcall, hfile⟩ :=
    Prog.Can.reach_start (S := tokenSystem) (i := 0) hprogram rfl
  exact ⟨p, call, hreach, hdone, hcall, hfile ▸ readStore_oversized (bytes_demoStore hlong)⟩

/-- A bearer of a megabyte. -/
def largeBearer : String := String.ofList (List.replicate maxStoreBytes 'x')

theorem large_bearer_is_never_read :
    ∃ p call, tokenSystem.Reach System.anyStep (start none) p ∧ p.threads 0 = some (.done call) ∧
      call = demoCall "attempt-one" largeBearer ∧ readStore p.shared.shared.file = .error (.unavailable
        "private Todo credential store has unsafe ownership, permissions, or size") := by
  have hlength : largeBearer.toList.length = maxStoreBytes := by simp [largeBearer]
  have hplain : Processes.isSpace 'x' = false := by decide
  have hpositive : maxStoreBytes ≠ 0 := by decide
  have hbearer : blank largeBearer = false := by
    simp [blank, largeBearer, List.all_replicate, hpositive, hplain]
  exact oversized_call (Nat.le_of_eq hlength.symm) hbearer

end Oversized

end ProjectControl.Tokens
