import Mathlib
import ProjectControl.HostOwners
import ProjectControl.HostRows
import ProjectControl.ProcessStart

/-! The identities of processes in the owner rows, and what an observer makes of them. -/

set_option autoImplicit false

namespace ProjectControl.Processes

open HostResources

section Observer

/-- `ProcessLiveness`. -/
inductive ProcessLiveness where
  | live
  | stopped
  | unknown
  deriving DecidableEq, Repr

/-- What the observer reads of a row: `none` for a field of another type. -/
structure ProcessRow where
  pid : Option ℤ
  processStart : Option String

/-- What the loop of `inspect_rows` answers at a row, `none` if it goes on to the next. -/
def inspectRow (proc : ℕ → StatFile) (row : ProcessRow) : Option ProcessLiveness :=
  match row.pid, row.processStart with
  | some pid, some expected =>
    if pid ≤ 0 ∨ expected = "" then some .unknown
    else match Providers.processStart (proc pid.toNat) with
    | (none, state) => if state = some "gone" then none else some .unknown
    | (some actual, state) =>
      if actual = expected ∧ state ≠ some "Z" ∧ state ≠ some "X" ∧ state ≠ some "x" then
        some .live
      else none
  | _, _ => some .unknown

/-- `TrackedProcessObserver.inspect_rows`. -/
def inspectRows (proc : ℕ → StatFile) : Option (List ProcessRow) → ProcessLiveness
  | none | some [] => .unknown
  | some (row :: rest) => ((row :: rest).findSome? (inspectRow proc)).getD .stopped

/-- The row of an owner, as the observer reads it. -/
def processRow (o : Owner) : ProcessRow := ⟨o.pid.map (↑), o.processStart⟩

variable {proc : ℕ → StatFile} {row : ProcessRow} {rows : List ProcessRow}

theorem inspectRow_ne_stopped : inspectRow proc row ≠ some .stopped := by
  unfold inspectRow
  split
  · split
    · simp
    · split <;> split <;> simp
  · simp

/-- A row at which the loop answers keeps the observer from finding the others stopped. -/
theorem inspectRows_ne_stopped (hrow : row ∈ rows) (hanswer : inspectRow proc row ≠ none) :
    inspectRows proc (some rows) ≠ .stopped := by
  cases rows with
  | nil => cases hrow
  | cons first rest =>
    change ((first :: rest).findSome? (inspectRow proc)).getD .stopped ≠ .stopped
    cases hfound : (first :: rest).findSome? (inspectRow proc) with
    | none => exact absurd (List.findSome?_eq_none_iff.mp hfound row hrow) hanswer
    | some liveness =>
      obtain ⟨other, -, hother⟩ := List.exists_of_findSome?_eq_some hfound
      intro hstopped
      rw [Option.getD_some] at hstopped
      exact inspectRow_ne_stopped (hstopped ▸ hother)

/-- A row with the start time of a running process is not passed over. -/
theorem inspectRow_running {s : Stat} {p : ℕ} (hp : p ≠ 0) (hpid : row.pid = some (p : ℤ))
    (hstart : row.processStart = some s.start) (hfile : proc p = .text s.render)
    (hascii : s.Ascii) (hrunning : s.Running) : inspectRow proc row ≠ none := by
  unfold inspectRow
  rw [hpid, hstart]
  dsimp only
  have hpositive : ¬ ((p : ℤ) ≤ 0) := by omega
  split
  · simp
  · rw [Int.toNat_natCast, hfile, providers_reads hascii]
    dsimp only
    have hstate (b : UInt8) (h : s.state ≠ b) :
        some (String.ofList [char s.state]) ≠ some (String.ofList [char b]) := by
      intro heq
      have hlist := String.ofList_injective (Option.some.inj heq)
      exact h (char_injective (List.cons.inj hlist).1)
    obtain ⟨hzombie, hdead, hdead'⟩ := hrunning
    have halive := And.intro (hstate 90 hzombie) (And.intro (hstate 88 hdead) (hstate 120 hdead'))
    rw [if_pos ⟨rfl, halive⟩]
    simp

end Observer

section Runs

/-- What `/proc` has of a process. -/
inductive Entry where
  | gone
  | unreadable
  | shows (s : Stat)

def Entry.file : Entry → StatFile
  | .gone => .missing
  | .unreadable => .unreadable
  | .shows s => .text s.render

/-- A call of `HostCoordinator` and the processes when it is made. -/
structure Moment where
  proc : ℕ → Entry
  action : Action

/-- The call finds the process whose identity it writes, and reads its file. -/
def Moment.Reads (m : Moment) : Prop :=
  ∀ p, m.action.call.process? = some p → p ≠ 0 → ∃ s, m.proc p = .shows s ∧
    Host.processStart (m.proc p).file = .ok (m.action.env.processStart p)

/-- A process has a text at some moment. -/
def Shown (moments : List Moment) (p : ℕ) (s : Stat) : Prop := ∃ m ∈ moments, m.proc p = .shows s

/-- The text from which the identity in an owner row was read. -/
structure WrittenFrom (moments : List Moment) (p : ℕ) (start : Option String) (s : Stat) :
    Prop where
  shown : Shown moments p s
  read : Host.processStart (.text s.render) = .ok start

/-- Every owner row that names a process was written from a text of it. -/
def Identified (moments : List Moment) (db : Registry) : Prop :=
  ∀ id o, db.owner? id = some o → ∀ p, o.pid = some p → p ≠ 0 →
    ∃ s, WrittenFrom moments p o.processStart s

variable {hashes : Hashes} {moments : List Moment} {m : Moment} {db : Registry}

theorem newOwner_identity {hashes : Hashes} {env : Env} {call : Call} {new : Owner}
    (hnew : call.newOwner hashes env = some new) :
    new.pid = call.process? ∧ new.processStart = new.pid.bind env.processStart := by
  cases call <;> cases hnew <;> exact ⟨rfl, rfl⟩

theorem keeps_identified (hm : m ∈ moments) (hreads : m.Reads)
    (hlegible : ∀ p s, Shown moments p s → s.Legible) :
    Keeps hashes m.action.env m.action.call (Identified moments) := by
  intro db s hs h db' hdb' id o' ho' p hp hne
  -- What the call reads for its process is what the row gets.
  have hread (hnamed : m.action.call.process? = some p) : ∃ s, Shown moments p s ∧
      m.action.env.processStart p = some s.start ∧
      Host.processStart (.text s.render) = .ok (some s.start) := by
    obtain ⟨s, hshows, hread⟩ := hreads p hnamed hne
    have hstart := host_reads_start (hlegible p s ⟨m, hm, hshows⟩)
    rw [hshows, Entry.file, hstart] at hread
    exact ⟨s, ⟨m, hm, hshows⟩, (Except.ok.inj hread).symm, hstart⟩
  cases ho : db.owner? id with
  | none =>
    rcases exec_fresh hdb' ho with hnone | ⟨new, rfl, rfl, hnew⟩
    · rw [hnone] at ho'
      cases ho'
    · rw [hnew] at ho'
      cases ho'
      obtain ⟨hpid, hstart⟩ := newOwner_identity hs
      obtain ⟨s, hshown, henv, hhost⟩ := hread (hpid.symm.trans hp)
      refine ⟨s, hshown, ?_⟩
      rw [hstart, hp, Option.bind_some, henv, hhost]
  | some o =>
    have hold := h id o ho
    rcases exec_owner hdb' ho with hsame | ⟨o₁, ho₁, hwrite, -⟩ | ⟨selected, rfl, -⟩
    · rw [hsame] at ho'
      cases ho'
      exact hold p hp hne
    · rw [ho₁] at ho'
      cases ho'
      cases hwrite with
      | beat now _ pid start =>
        obtain ⟨hcall, hbeat⟩ := hs
        cases pid with
        | none =>
          obtain ⟨s, hshown, hhost⟩ := hold p hp hne
          refine ⟨s, hshown, ?_⟩
          rw [hhost, hbeat]
          rfl
        | some q =>
          have hq : q = p := Option.some.inj hp
          subst hq
          obtain ⟨s, hshown, henv, hhost⟩ := hread hcall.symm
          refine ⟨s, hshown, ?_⟩
          have hstart : start = some s.start := by
            rw [hbeat, Option.filter_some, if_pos (by simpa using hne), Option.bind_some, henv]
          rw [hhost, hstart]
          rfl
      | recordProcess now _ pid start metadata =>
        obtain ⟨hcall, henv'⟩ := hs
        have hq : pid = p := Option.some.inj hp
        subst hq
        obtain ⟨s, hshown, henv, hhost⟩ := hread hcall
        refine ⟨s, hshown, ?_⟩
        rw [hhost, ← henv, henv']
      | preempt | preemptActive | setPriority | activate | releaseOwner | protect | unprotect =>
        exact hold p hp hne
    · exact hs.elim

theorem identified_run (hreads : ∀ m ∈ moments, m.Reads)
    (hlegible : ∀ p s, Shown moments p s → s.Legible) :
    Identified moments ((moments.map (·.action)).foldl (step hashes) {}) := by
  -- The texts of the whole run stay in view while its calls are made one by one.
  have hsuffix (rest : List Moment) (hrest : ∀ m ∈ rest, m ∈ moments) (db : Registry)
      (h : Identified moments db) :
      Identified moments ((rest.map (·.action)).foldl (step hashes) db) := by
    induction rest generalizing db with
    | nil => exact h
    | cons m rest ih =>
      have hm := hrest m List.mem_cons_self
      refine ih (fun m hm => hrest m (List.mem_cons_of_mem _ hm)) _ ?_
      exact step_of_ensures h ((keeps_identified hm (hreads m hm) hlegible).transact h)
  exact hsuffix moments (fun _ hm => hm) {} (fun id o ho => by cases ho)

/-- Whether the identities of processes agree: every reader of a text answers with its start
time or not at all, and no row that a run leaves for a process that is still running makes
an observer find it stopped. -/
structure Agreement (hashes : Hashes) (moments : List Moment) (now : ℕ → Entry) : Prop where
  readers : ∀ p s, Shown moments p s ∨ now p = .shows s → s.Agree
  observed : ∀ o ∈ ((moments.map (·.action)).foldl (step hashes) {}).owners, ∀ p,
    o.pid = some p → p ≠ 0 → ∃ s, WrittenFrom moments p o.processStart s ∧
      ∀ s', now p = .shows s' → s'.start = s.start → s'.Running →
        ∀ rows, processRow o ∈ rows → inspectRows (fun p => (now p).file) (some rows) ≠ .stopped

/-- The readers agree exactly where every name is ASCII and none displaces the start time. -/
theorem identities_agree_iff (hashes : Hashes) (moments : List Moment) (now : ℕ → Entry)
    (hreads : ∀ m ∈ moments, m.Reads) : Agreement hashes moments now ↔
      ∀ p s, Shown moments p s ∨ now p = .shows s → s.Legible := by
  constructor
  · intro h p s hs
    exact s.agree_iff_legible.mp (h.readers p s hs)
  · intro h
    refine ⟨fun p s hs => s.agree_iff_legible.mpr (h p s hs), fun o ho p hp hne => ?_⟩
    have hrun : Identified moments ((moments.map (·.action)).foldl (step hashes) {}) :=
      identified_run hreads (fun p s hs => h p s (.inl hs))
    obtain ⟨s, hwritten⟩ := hrun o.id o (owner?_eq_some.mpr ⟨ho, rfl⟩) p hp hne
    refine ⟨s, hwritten, fun s' hnow hsame hrunning rows hrow => ?_⟩
    have hstart : o.processStart = some s'.start := by
      have hread := hwritten.read
      rw [host_reads_start (h p s (.inl hwritten.shown))] at hread
      rw [hsame]
      exact (Except.ok.inj hread).symm
    have hpid : (processRow o).pid = some (p : ℤ) := by
      unfold processRow
      rw [hp]
      rfl
    have hfile : (now p).file = .text s'.render := by rw [hnow, Entry.file]
    exact inspectRows_ne_stopped hrow (inspectRow_running hne hpid hstart hfile
      (h p s' (.inr hnow)).ascii hrunning)

theorem seven_decimal : Decimal [55] := ⟨by simp, by decide +kernel⟩

theorem sleeping_letter : 65 ≤ (83 : UInt8) ∧ (83 : UInt8) ≤ 90 ∨
    97 ≤ (83 : UInt8) ∧ (83 : UInt8) ≤ 122 := by
  decide +kernel

theorem counters_decimal :
    ∀ t ∈ List.replicate 18 [48] ++ [49, 48, 48] :: List.replicate 30 [48], Decimal t := by
  intro t ht
  simp only [List.mem_append, List.mem_cons, List.mem_replicate] at ht
  rcases ht with ⟨-, rfl⟩ | rfl | ⟨-, rfl⟩ <;> exact ⟨by simp, by decide +kernel⟩

/-- Process 7 under a name, started at tick 100. -/
def named (comm : List UInt8) (hlength : comm.length ≤ 15) (hnul : 0 ∉ comm) : Stat where
  pid := [55]
  comm := comm
  state := 83
  numbers := List.replicate 18 [48] ++ [49, 48, 48] :: List.replicate 30 [48]
  pid_decimal := seven_decimal
  comm_length := hlength
  comm_nul := hnul
  state_letter := sleeping_letter
  numbers_decimal := counters_decimal
  numbers_length := by simp

/-- `python3`. -/
def python : Stat := named [112, 121, 116, 104, 111, 110, 51] (by decide) (by decide +kernel)

/-- `tmux: server`. -/
def tmux : Stat :=
  named [116, 109, 117, 120, 58, 32, 115, 101, 114, 118, 101, 114] (by decide) (by decide +kernel)

/-- A host on which only process 7 runs. -/
def procOf (s : Stat) (p : ℕ) : Entry := if p = 7 then .shows s else .gone

/-- Process 7 asks for a device, and its start time is read. -/
def request (s : Stat) (start : String) : Moment where
  proc := procOf s
  action := ⟨{ hostAt 1 with processStart := fun _ => some start },
    .beginForeground "/p" {} 7 .foregroundGpu⟩

theorem shows_procOf {s s' : Stat} {p : ℕ} (h : procOf s p = .shows s') : s' = s := by
  unfold procOf at h
  split at h <;> cases h
  rfl

theorem python_legible : python.Legible := ⟨by decide +kernel, by decide +kernel⟩

theorem python_start : python.start = "100" := by decide +kernel

/-- An ordinary name is read alike by all. -/
theorem python_is_not_stopped : Agreement plainHashes [request python "100"] (procOf python) := by
  refine (identities_agree_iff plainHashes _ _ (fun m hm p hp _ => ?_)).mpr (fun p s hs => ?_)
  · rw [List.mem_singleton.mp hm] at hp ⊢
    have hseven : 7 = p := Option.some.inj hp
    subst hseven
    refine ⟨python, rfl, ?_⟩
    exact (host_reads_start python_legible).trans (by rw [python_start]; rfl)
  · have hpython : s = python := by
      rcases hs with ⟨m, hm, hshows⟩ | hshows
      · rw [List.mem_singleton.mp hm] at hshows
        exact shows_procOf hshows
      · exact shows_procOf hshows
    rw [hpython]
    exact python_legible

theorem tmux_reads : Host.processStart (.text tmux.render) = .ok (some "0") := by
  rw [host_reads (by decide +kernel)]
  decide +kernel

/-- A space in the name moves the words, and the running process is taken for stopped. -/
theorem tmux_is_stopped :
    (request tmux "0").Reads ∧ tmux.Running ∧
    Host.processStart (.text tmux.render) = .ok (some "0") ∧
    Providers.processStart (.text tmux.render) = (some "100", some "S") ∧
    DeviceScheduler.processStart (.text tmux.render) = .ok (some "100") ∧
    inspectRows (fun p => (procOf tmux p).file) (some
      ((([request tmux "0"].map (·.action)).foldl (step plainHashes) {}).owners.rows.map
        processRow)) = .stopped ∧
    ¬ Agreement plainHashes [request tmux "0"] (procOf tmux) := by
  refine ⟨fun p hp _ => ?_, by decide +kernel, tmux_reads, by decide +kernel, by decide +kernel,
    by decide +kernel, fun h => ?_⟩
  · have hseven : 7 = p := Option.some.inj hp
    subst hseven
    exact ⟨tmux, rfl, tmux_reads⟩
  · rcases (h.readers 7 tmux (.inr rfl)).host with hread | hread
    · rw [tmux_reads] at hread
      cases hread
    · rw [tmux_reads] at hread
      revert hread
      decide +kernel

end Runs

end ProjectControl.Processes
