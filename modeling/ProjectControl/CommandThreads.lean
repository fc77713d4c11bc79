import ProjectControl.CommandSafety

/-! The threads keep the invariant of the host, whatever the others do between their
steps. -/

set_option autoImplicit false

namespace ProjectControl.Native

open Resumption Resumption.Spec Resumption.Prog

section Rely

variable {i : ℕ} {s s' : Host} {op : OperationId} {a : AttemptId} {n : LockName}

theorem rely_locks (hr : hostSpec.Rely i s s') (h : s.locks n = some i) : s'.locks n = some i := by
  obtain ⟨-, -, ⟨j, hj, hstep⟩ | henv⟩ := hr
  · exact (hstep.locks n i (fun e => hj e.symm)).mpr h
  · exact (congrFun henv.locks n).trans h

theorem rely_record (hr : hostSpec.Rely i s s') (h : s.locks (.operation op) = some i) :
    s'.record op = s.record op := by
  obtain ⟨-, -, ⟨j, hj, hstep⟩ | henv⟩ := hr
  · refine hstep.kept op (fun hl => hj ?_)
    rw [h] at hl
    exact (Option.some.inj hl).symm
  · rw [Host.record, henv.commands, Host.record]

theorem rely_fresh (hr : hostSpec.Rely i s s') (h : s.locks (.attempt a) = some i)
    {r : CommandRecord} (hn : s.record op = none) (hnew : s'.record op = some r) :
    r.attemptId ≠ a := by
  rintro rfl
  obtain ⟨-, -, ⟨j, hj, hstep⟩ | henv⟩ := hr
  · have hl := hstep.fresh op r hn hnew
    rw [h] at hl
    exact hj (Option.some.inj hl).symm
  · rw [Host.record, henv.commands] at hnew
    exact absurd (hn.symm.trans hnew) (by simp)

theorem rely_closes (hr : hostSpec.Rely i s s') (h : s.locks (.attempt a) = some i) :
    s'.handoffs a = s.handoffs a ∧ s'.attestations a = s.attestations a := by
  obtain ⟨-, -, ⟨j, hj, hstep⟩ | henv⟩ := hr
  · refine hstep.closes a (fun hl => hj ?_)
    rw [h] at hl
    exact (Option.some.inj hl).symm
  · exact ⟨congrFun henv.handoffs a, congrFun henv.attestations a⟩

theorem rely_advances (hr : hostSpec.Rely i s s') : Advances s s' := by
  obtain ⟨-, -, ⟨j, hj, hstep⟩ | henv⟩ := hr
  · exact hstep.advances
  · exact henv.advances

theorem rely_process (hr : hostSpec.Rely i s s') {h : ℕ} {sv : Supervisor}
    (hsv : s.processes[h]? = some sv) (how : sv.owner = i) :
    ∃ sv', s'.processes[h]? = some sv' ∧ sv'.operation = sv.operation ∧
      sv'.attempt = sv.attempt ∧ sv'.owner = i ∧ sv'.stdin = sv.stdin ∧
      ∀ report code, sv.outer = .exited report code → sv'.outer = .exited report code := by
  obtain ⟨-, -, ⟨j, hj, hstep⟩ | henv⟩ := hr
  · exact ⟨sv, hstep.processes h sv hsv (fun e => hj (e.symm.trans how)), rfl, rfl, how, rfl,
      fun _ _ h => h⟩
  · obtain ⟨sv', h1, h2, h3, h4, h5, h6⟩ := henv.processes h sv hsv
    exact ⟨sv', h1, h2, h3, h4.trans how, h5, h6⟩

theorem rely_spawns (hr : hostSpec.Rely i s s') (h : s.locks (.operation op) = some i)
    (hn : ∀ sv ∈ s.processes, sv.operation ≠ op) : ∀ sv ∈ s'.processes, sv.operation ≠ op := by
  obtain ⟨-, -, ⟨j, hj, hstep⟩ | henv⟩ := hr
  · refine hstep.spawns op (fun hl => hj ?_) hn
    rw [h] at hl
    exact (Option.some.inj hl).symm
  · intro sv' hsv'
    obtain ⟨sv, hsv, hop⟩ := henv.operations sv' hsv'
    rw [← hop]
    exact hn sv hsv

end Rely

section Assertions

variable (i : ℕ)

def Holds (n : LockName) (s : Host) : Prop := s.locks n = some i

/-- The thread holds the operation's lock, and the operation has no record. -/
def Unrecorded (op : OperationId) (s : Host) : Prop :=
  Holds i (.operation op) s ∧ s.record op = none

/-- The thread holds the operation's lock, and its record is not settled. -/
def Unsettled (op : OperationId) (a : AttemptId) (s : Host) : Prop :=
  Holds i (.operation op) s ∧ ∃ r, s.record op = some r ∧ r.state.settled = false ∧
    r.attemptId = a

/-- The operation has no supervisor yet. -/
def Unspawned (op : OperationId) (s : Host) : Prop :=
  Holds i (.operation op) s ∧ ∀ sv ∈ s.processes, sv.operation ≠ op

/-- The thread owns the operation's supervisor, to which it has given nothing. -/
def OwnsIdle (op : OperationId) (h : ℕ) (s : Host) : Prop :=
  ∃ sv, s.processes[h]? = some sv ∧ sv.operation = op ∧ sv.owner = i ∧ sv.stdin ≠ .delivered

def Owns (op : OperationId) (h : ℕ) (s : Host) : Prop :=
  ∃ sv, s.processes[h]? = some sv ∧ sv.operation = op ∧ sv.owner = i

/-- The operation's supervisor has ended with this report. -/
def Ended (op : OperationId) (h : ℕ) (report : Option Report) (code : ℤ) (s : Host) : Prop :=
  ∃ sv, s.processes[h]? = some sv ∧ sv.operation = op ∧ sv.owner = i ∧
    sv.outer = .exited report code

def NotHandedOff (a : AttemptId) (s : Host) : Prop :=
  Holds i (.attempt a) s ∧ s.handoffs a = none

/-- The thread holds the attempt's lock, and its commands may be started. -/
def Startable (a : AttemptId) (s : Host) : Prop :=
  Holds i (.attempt a) s ∧ s.handoffs a = none ∧ s.attestations a = none

/-- The attempt's records are settled, except for those of the listed operations. -/
def ClearBut (a : AttemptId) (rest : List OperationId) (s : Host) : Prop :=
  Holds i (.attempt a) s ∧ ∀ op r, s.record op = some r → r.attemptId = a →
    r.state.settled = true ∨ op ∈ rest

variable {i} {op : OperationId} {a : AttemptId} {h : ℕ}

theorem stable_holds (n : LockName) : hostSpec.Stable i (Holds i n) :=
  fun _ _ hr hl => rely_locks hr hl

theorem stable_unrecorded : hostSpec.Stable i (Unrecorded i op) :=
  fun _ _ hr hu => ⟨rely_locks hr hu.1, (rely_record hr hu.1).trans hu.2⟩

theorem stable_unsettled : hostSpec.Stable i (Unsettled i op a) := by
  rintro s s' hr ⟨hl, r, hrec, hset, hat⟩
  exact ⟨rely_locks hr hl, r, (rely_record hr hl).trans hrec, hset, hat⟩

theorem stable_unspawned : hostSpec.Stable i (Unspawned i op) :=
  fun _ _ hr hu => ⟨rely_locks hr hu.1, rely_spawns hr hu.1 hu.2⟩

theorem stable_ownsIdle : hostSpec.Stable i (OwnsIdle i op h) := by
  rintro s s' hr ⟨sv, hsv, hop, how, hin⟩
  obtain ⟨sv', h1, h2, -, h4, h5, -⟩ := rely_process hr hsv how
  exact ⟨sv', h1, h2.trans hop, h4, by rwa [h5]⟩

theorem stable_owns : hostSpec.Stable i (Owns i op h) := by
  rintro s s' hr ⟨sv, hsv, hop, how⟩
  obtain ⟨sv', h1, h2, -, h4, -⟩ := rely_process hr hsv how
  exact ⟨sv', h1, h2.trans hop, h4⟩

theorem stable_ended {report : Option Report} {code : ℤ} :
    hostSpec.Stable i (Ended i op h report code) := by
  rintro s s' hr ⟨sv, hsv, hop, how, hx⟩
  obtain ⟨sv', h1, h2, -, h4, -, h6⟩ := rely_process hr hsv how
  exact ⟨sv', h1, h2.trans hop, h4, h6 _ _ hx⟩

theorem stable_notHandedOff : hostSpec.Stable i (NotHandedOff i a) :=
  fun _ _ hr hn => ⟨rely_locks hr hn.1, (rely_closes hr hn.1).1.trans hn.2⟩

theorem stable_startable : hostSpec.Stable i (Startable i a) :=
  fun _ _ hr hn => ⟨rely_locks hr hn.1, (rely_closes hr hn.1).1.trans hn.2.1,
    (rely_closes hr hn.1).2.trans hn.2.2⟩

theorem stable_clearBut {rest : List OperationId} : hostSpec.Stable i (ClearBut i a rest) := by
  rintro s s' hr ⟨hl, hc⟩
  refine ⟨rely_locks hr hl, fun op r hrec hat => ?_⟩
  cases hold : s.record op with
  | none => exact absurd hat (rely_fresh hr hl hold hrec)
  | some old =>
    obtain ⟨r', hr', hat'⟩ := (rely_advances hr).attempt op old hold
    rw [hrec] at hr'
    cases hr'
    rcases hc op old hold (hat'.symm.trans hat) with hset | hmem
    · have hsame := (rely_advances hr).settled op old hold hset
      rw [hrec] at hsame
      cases hsame
      exact Or.inl hset
    · exact Or.inr hmem

end Assertions

section Steps

variable {i : ℕ} {α : Type} {A : Host → Prop} {Q : α → Host → Prop}

/-- A look changes nothing. -/
theorem triple_look {f : Host → Choice → Except Fault α} (hA : hostSpec.Stable i A)
    (hQ : ∀ a, hostSpec.Stable i (Q a))
    (h : ∀ s v a, HostInv s → A s → f s v = .ok a → Q a s) : hostSpec.Triple i A (look f) Q :=
  triple_atomic hA hQ (fun s v hs ha _ => ⟨hs, HostStep.refl i s, fun a hf => h s v a hs ha hf⟩)

theorem triple_check (hA : hostSpec.Stable i A) : hostSpec.Triple i A check (fun _ => A) :=
  triple_look hA (fun _ => hA) (fun _ _ _ _ ha _ => ha)

theorem triple_require (hA : hostSpec.Stable i A) : hostSpec.Triple i A require (fun _ => A) :=
  triple_look hA (fun _ => hA) (fun _ _ _ _ ha _ => ha)

theorem triple_now (hA : hostSpec.Stable i A) : hostSpec.Triple i A now (fun _ => A) :=
  triple_look hA (fun _ => hA) (fun _ _ _ _ ha _ => ha)

theorem triple_durably {f : Host → Host} {B : Host → Prop} (hA : hostSpec.Stable i A)
    (hB : hostSpec.Stable i B)
    (h : ∀ s, HostInv s → A s → HostInv (f s) ∧ HostStep i s (f s) ∧ B (f s)) :
    hostSpec.Triple i A (durably f) (fun _ => B) := by
  refine triple_atomic hA (fun _ => hB) (fun s v hs ha _ => ?_)
  obtain ⟨h1, h2, h3⟩ := h s hs ha
  by_cases hok : v.ok = true
  · simp only [hok, true_or, if_true]
    exact ⟨h1, h2, fun _ _ => h3⟩
  · by_cases hd : v.durable = true
    · simp only [hok, hd, or_true, if_true]
      exact ⟨h1, h2, fun _ hf => by simp at hf⟩
    · simp only [hok, hd]
      exact ⟨hs, HostStep.refl i s, fun _ hf => by simp at hf⟩

/-- An assertion that a change of the lock `n` by its holder, or from free, keeps. -/
def Lockable (n : LockName) (A : Host → Prop) : Prop :=
  ∀ s (l : LockName → Option ℕ), (∀ m, m ≠ n → l m = s.locks m) → A s → A { s with locks := l }

theorem triple_acquire {n : LockName} (hA : hostSpec.Stable i A) (hn : Lockable n A) :
    hostSpec.Triple i A (acquire i n) (fun _ s => Holds i n s ∧ A s) := by
  refine triple_await hA (fun _ => (stable_holds n).and hA) (fun s v hs ha _ hen => ?_)
  cases hok : v.ok with
  | false =>
    simp only [Bool.false_eq_true, if_false]
    exact ⟨hs, HostStep.refl i s, fun _ h => by cases h⟩
  | true =>
    have hfree : s.locks n = none := by simpa [hok] using hen
    simp only [if_true]
    refine ⟨hs.of_eq rfl rfl rfl rfl rfl, hostStep_of_eq ?_ rfl rfl rfl rfl (fun _ _ h => h)
      (fun _ => rfl) (fun _ _ => rfl), fun _ _ => ⟨Function.update_self _ _ _, ?_⟩⟩
    · intro m j hj
      by_cases hm : m = n
      · subst hm
        simp [hfree, hj.symm]
      · simp [Function.update_of_ne hm]
    · exact hn s _ (fun m hm => Function.update_of_ne hm _ _) ha

theorem triple_release {n : LockName} {B : Host → Prop} (hA : hostSpec.Stable i A)
    (hB : hostSpec.Stable i B) (hn : Lockable n B) (hAB : ∀ s, A s → B s) :
    hostSpec.Triple i A (release i n) (fun _ => B) := by
  refine triple_atomic hA (fun _ => hB) (fun s v hs ha _ => ?_)
  refine ⟨hs.of_eq rfl rfl rfl rfl rfl, hostStep_of_eq ?_ rfl rfl rfl rfl (fun _ _ h => h)
    (fun _ => rfl) (fun _ _ => rfl), fun _ _ => ?_⟩
  · intro m j hj
    change (if m = n ∧ s.locks n = some i then none else s.locks m) = some j ↔ _
    split
    · rename_i hm
      rw [hm.1, hm.2]
      simp [hj.symm]
    · exact Iff.rfl
  · refine hn s _ (fun m hm => ?_) (hAB s ha)
    exact if_neg (fun h => hm h.1)

/-- A body that runs while a lock is held. -/
theorem triple_locked {n : LockName} {body : Effect α} {Q' : α → Host → Prop}
    (hA : hostSpec.Stable i A) (hn : Lockable n A) (hQ : ∀ a, hostSpec.Stable i (Q a))
    (hQ' : ∀ a, hostSpec.Stable i (Q' a)) (hn' : ∀ a, Lockable n (Q' a))
    (hQQ : ∀ a s, Q a s → Q' a s)
    (hbody : hostSpec.Triple i (fun s => Holds i n s ∧ A s) body Q) :
    hostSpec.Triple i A (locked i n body) Q' := by
  refine triple_bind (triple_acquire hA hn) (fun _ => triple_andThen hQ' hbody (fun a => ?_) ?_)
  · exact triple_release (hQ a) (hQ' a) (hn' a) (hQQ a)
  · exact triple_release stable_true stable_true (fun _ _ _ h => h) (fun _ h => h)

theorem lockable_true {n : LockName} : Lockable n (fun _ => True) := fun _ _ _ h => h

theorem lockable_holds {n m : LockName} (hm : m ≠ n) : Lockable n (Holds i m) :=
  fun _ _ hl h => (hl m hm).trans h

theorem Lockable.and {n : LockName} {B : Host → Prop} (hA : Lockable n A) (hB : Lockable n B) :
    Lockable n (fun s => A s ∧ B s) :=
  fun s l hl h => ⟨hA s l hl h.1, hB s l hl h.2⟩

end Steps

section Processes

variable {i : ℕ} {s : Host} {op : OperationId} {a : AttemptId} {h : ℕ}

theorem hostStep_setProcess {sv sv' : Supervisor} (hh : s.processes[h]? = some sv)
    (how : sv.owner = i) (hop : sv'.operation = sv.operation) :
    HostStep i s (s.setProcess h sv') where
  locks := fun _ _ _ => Iff.rfl
  kept := fun _ _ => rfl
  fresh := fun op r hn hr => absurd (hn.symm.trans hr) (by simp)
  closes := fun _ _ => ⟨rfl, rfl⟩
  processes := by
    intro k x hx hne
    have hkh : h ≠ k := by
      rintro rfl
      rw [hh] at hx
      cases hx
      exact hne how
    change (s.processes.set h sv')[k]? = some x
    rwa [List.getElem?_set_ne hkh]
  spawns := by
    intro op' _ hn x hx
    rcases List.mem_or_eq_of_mem_set hx with hx | rfl
    · exact hn x hx
    · rw [hop]
      exact hn sv (List.mem_of_getElem? hh)
  advances := Advances.of_commands rfl (fun _ _ h => h)
        (fun _ => Fence.of_eq rfl rfl rfl rfl)

/-- A thread changes neither what the command did nor what was reported of it. -/
theorem changeable_of_same {sv sv' : Supervisor} (hs : HostInv s)
    (hh : s.processes[h]? = some sv) (hop : sv'.operation = sv.operation)
    (hat : sv'.attempt = sv.attempt) (hc : sv'.Coherent) (hst : sv'.started = sv.started)
    (htr : sv'.tree = sv.tree)
    (hout : ∀ report code, sv'.outer = .exited (some report) code →
      sv.outer = .exited (some report) code)
    (hl : sv'.CanLaunch → sv.CanLaunch ∨
      ∀ r, s.record sv.operation = some r → r.state.settled = false) :
    Changeable s sv sv' [] := by
  have hmem : sv ∈ s.processes := List.mem_of_getElem? hh
  refine ⟨hop, hat, hc, fun h => hst.trans h, ?_, ?_, ?_, hs.ordered⟩
  · intro r hr hset
    obtain ⟨hn, ht, hns⟩ := hs.settled sv hmem r hr hset
    refine ⟨fun hcan => ?_, htr.trans ht, fun h => hst.trans (hns h)⟩
    rcases hl hcan with hold | hun
    · exact hn hold
    · rw [hun r hr] at hset
      cases hset
  · intro report code hx hstate
    exact hs.reported sv hmem report code (hout report code hx) hstate
  · intro op a hev
    cases hev

/-- The thread's supervisor is the only one of the operation. -/
theorem only_process (hs : HostInv s) {sv : Supervisor} (hh : s.processes[h]? = some sv)
    {x : Supervisor} (hx : x ∈ s.processes) (hop : x.operation = sv.operation) : x = sv := by
  obtain ⟨k, hk⟩ := List.mem_iff_getElem?.mp hx
  have hkh := hs.unique k h x sv hk hh hop
  subst hkh
  rw [hh] at hk
  exact (Option.some.inj hk).symm

/-- A supervisor that was given nothing has executed nothing. -/
theorem idle_process (hs : HostInv s) (ho : OwnsIdle i op h s) :
    ∀ sv ∈ s.processes, sv.operation = op →
      ¬ sv.CanLaunch ∧ sv.tree = 0 ∧ sv.started = false := by
  obtain ⟨sv, hsv, rfl, -, hin⟩ := ho
  intro x hx hop
  obtain rfl := only_process hs hsv hx hop
  have hco := hs.coherent x hx
  have habs : x.inner = .absent := by
    by_contra hne
    exact hin (hco.requested (Or.inr (Or.inr hne)))
  have hst := hco.absent (Or.inl habs)
  exact ⟨fun hcan => hin hcan.1, hco.unstarted hst, hst⟩

/-- A supervisor that ended executes nothing any more, unless its helper goes on. -/
theorem not_canLaunch_of_exited {sv : Supervisor} {report : Option Report} {code : ℤ}
    (hx : sv.outer = .exited report code) (hin : sv.inner ≠ .reading) : ¬ sv.CanLaunch := by
  rintro ⟨-, h | h | h⟩
  · rw [hx] at h
    cases h
  · rw [hx] at h
    cases h
  · exact hin h

theorem refused_process (hs : HostInv s) {report : Report} {code : ℤ}
    (he : Ended i op h (some report) code s)
    (hr : report.state = .unavailable ∨ report.state = .notStarted) :
    ∀ sv ∈ s.processes, sv.operation = op →
      ¬ sv.CanLaunch ∧ sv.tree = 0 ∧ sv.started = false := by
  obtain ⟨sv, hsv, rfl, -, hx⟩ := he
  intro x hmem hop
  obtain rfl := only_process hs hsv hmem hop
  have hco := hs.coherent x hmem
  obtain ⟨hst, hin⟩ := hco.refused report code hx hr.symm
  exact ⟨not_canLaunch_of_exited hx hin, hco.unstarted hst, hst⟩

theorem completed_process (hs : HostInv s) {report : Report} {code : ℤ}
    (he : Ended i op h (some report) code s) (hr : report.state = .completed) :
    (∀ sv ∈ s.processes, sv.operation = op → ¬ sv.CanLaunch ∧ sv.tree = 0) ∧
      Event.quiescent op report ∈ s.history := by
  obtain ⟨sv, hsv, rfl, -, hx⟩ := he
  have hmem : sv ∈ s.processes := List.mem_of_getElem? hsv
  refine ⟨fun x hxmem hop => ?_, hs.reported sv hmem report code hx hr⟩
  obtain rfl := only_process hs hsv hxmem hop
  obtain ⟨ht, hin⟩ := (hs.coherent x hxmem).completed report code hx hr
  exact ⟨not_canLaunch_of_exited hx hin, ht⟩

end Processes

section Launch

variable {i : ℕ} {op : OperationId} {a : AttemptId} {h : ℕ} {A B : Host → Prop}

theorem triple_writeCommand {r : CommandRecord} (hA : hostSpec.Stable i A)
    (hB : hostSpec.Stable i B)
    (hw : ∀ s, HostInv s → A s → Writable s op r ∧ Holds i (.operation op) s ∧
      (∀ old, s.record op = some old → old.state.settled = false) ∧
      (s.record op = none → Holds i (.attempt r.attemptId) s) ∧ B (s.putRecord op r)) :
    hostSpec.Triple i A (writeCommand op r) (fun _ => B) := by
  refine triple_durably hA hB (fun s hs ha => ?_)
  obtain ⟨h1, h2, h3, h4, h5⟩ := hw s hs ha
  exact ⟨inv_putRecord hs h1, hostStep_putRecord h2 h1.same h3 h4, h5⟩

/-- A record that leaves its command open may always be written over an open one. -/
theorem writable_open {s : Host} {r : CommandRecord} (hs : HostInv s)
    (hu : Unsettled i op a s) (hr : r.state.settled = false) (hat : r.attemptId = a) :
    Writable s op r := by
  obtain ⟨-, old, hold, hset, hoat⟩ := hu
  refine ⟨fun old' h => ?_, fun h => ?_, fun hc => ?_, fun h => ?_⟩
  · rw [hold] at h
    cases h
    exact hoat.trans hat.symm
  · rw [hr] at h
    cases h
  · have := hs.closed op old hold (by rwa [hoat, ← hat])
    rw [hset] at this
    cases this
  · rw [h] at hr
    cases hr

/-- A command that was not executed may be recorded so. -/
theorem writable_notStarted {s : Host} {r : CommandRecord} (hu : Unsettled i op a s)
    (hr : r.state = .notStarted) (hat : r.attemptId = a)
    (hp : ∀ sv ∈ s.processes, sv.operation = op →
      ¬ sv.CanLaunch ∧ sv.tree = 0 ∧ sv.started = false) : Writable s op r := by
  obtain ⟨-, old, hold, -, hoat⟩ := hu
  refine ⟨fun old' h => ?_, fun _ sv hsv hop => ?_, fun _ => by rw [hr]; rfl, fun h => ?_⟩
  · rw [hold] at h
    cases h
    exact hoat.trans hat.symm
  · obtain ⟨h1, h2, h3⟩ := hp sv hsv hop
    exact ⟨h1, h2, fun _ => h3⟩
  · rw [hr] at h
    cases h

theorem Unsettled.not_settled {s : Host} (hu : Unsettled i op a s) :
    ∀ old, s.record op = some old → old.state.settled = false := by
  obtain ⟨-, r, hr, hset, -⟩ := hu
  intro old hold
  rw [hr] at hold
  cases hold
  exact hset

theorem Unsettled.put {s : Host} {r : CommandRecord} (hu : Unsettled i op a s)
    (hr : r.state.settled = false) (hat : r.attemptId = a) :
    Unsettled i op a (s.putRecord op r) :=
  ⟨hu.1, r, Host.record_putRecord_self _ _ _, hr, hat⟩

theorem Unsettled.recorded {s : Host} (hu : Unsettled i op a s) : s.record op ≠ none := by
  obtain ⟨-, r, hr, -⟩ := hu
  rw [hr]
  exact Option.some_ne_none r

/-- Whether or not the write raised, the command is still open. -/
theorem triple_tryWriteCommand {r : CommandRecord} (hB : hostSpec.Stable i B)
    (hput : ∀ s, B s → B (s.putRecord op r)) (hr : r.state.settled = false)
    (hat : r.attemptId = a) :
    hostSpec.Triple i (fun s => Unsettled i op a s ∧ B s) (tryWriteCommand op r)
      (fun ok s => (Unsettled i op a s ∧ B s) ∧ (ok = true → s.record op = some r)) := by
  have hU : hostSpec.Stable i (Unsettled i op a) := stable_unsettled
  have hA := hU.and hB
  have hQ : ∀ ok : Bool, hostSpec.Stable i
      (fun s => (Unsettled i op a s ∧ B s) ∧ (ok = true → s.record op = some r)) := by
    intro ok s s' hrely ⟨hab, hrec⟩
    exact ⟨hA s s' hrely hab, fun hok => (rely_record hrely hab.1.1).trans (hrec hok)⟩
  refine triple_atomic hA hQ (fun s v hs ⟨hu, hb⟩ _ => ?_)
  have hinv := inv_putRecord hs (writable_open hs hu hr hat)
  have hstep := hostStep_putRecord hu.1 (writable_open hs hu hr hat).same hu.not_settled
    (fun hn => absurd hn hu.recorded)
  by_cases hw : v.ok = true ∨ v.durable = true
  · simp only [hw, if_true]
    refine ⟨hinv, hstep, fun ok _ => ⟨⟨hu.put hr hat, hput s hb⟩, fun _ => ?_⟩⟩
    exact Host.record_putRecord_self _ _ _
  · simp only [hw, if_false]
    refine ⟨hs, HostStep.refl i s, fun ok hok => ⟨⟨hu, hb⟩, fun h => ?_⟩⟩
    simp only [Except.ok.injEq] at hok
    exact absurd (Or.inl (hok.trans h)) hw

/-- Changes of the thread's own supervisor keep what the thread knows. -/
theorem triple_stopSupervisor (hA : hostSpec.Stable i A)
    (hown : ∀ s, A s → ∃ sv, s.processes[h]? = some sv ∧ sv.owner = i)
    (hset : ∀ s sv, A s → s.processes[h]? = some sv →
      A (s.setProcess h { sv with outer := .exited none (-9) })) :
    hostSpec.Triple i A (stopSupervisor h) (fun _ => A) := by
  refine triple_atomic hA (fun _ => hA) (fun s v hs ha _ => ?_)
  obtain ⟨sv, hsv, how⟩ := hown s ha
  have hsame : HostInv s ∧ HostStep i s s ∧ A s := ⟨hs, HostStep.refl i s, ha⟩
  rw [hsv]
  dsimp only
  split
  · split
    · exact ⟨hsame.1, hsame.2.1, fun _ _ => hsame.2.2⟩
    · rename_i hx
      have hstep : sv.step .killed = some ({ sv with outer := .exited none (-9) }, none) := by
        cases ho : sv.outer with
        | exited report code => exact absurd ho (hx report code)
        | waiting | accepted | sandboxed => simp only [Supervisor.step, ho]
      have hch := changeable_step hs hsv hstep
      exact ⟨inv_setProcess hs hsv hch, hostStep_setProcess hsv how rfl,
        fun _ _ => hset s sv ha hsv⟩
  · exact ⟨hsame.1, hsame.2.1, fun _ _ => hsame.2.2⟩

theorem triple_closeStdin (hA : hostSpec.Stable i A)
    (hown : ∀ s, A s → ∃ sv, s.processes[h]? = some sv ∧ sv.owner = i)
    (hset : ∀ s sv, A s → s.processes[h]? = some sv →
      A (s.setProcess h { sv with stdin := .closed })) :
    hostSpec.Triple i A (closeStdin h) (fun _ => A) := by
  refine triple_atomic hA (fun _ => hA) (fun s v hs ha _ => ?_)
  obtain ⟨sv, hsv, how⟩ := hown s ha
  have hco := hs.coherent sv (List.mem_of_getElem? hsv)
  rw [hsv]
  dsimp only
  split
  · rename_i hp
    have horphan : sv.orphan i = { sv with stdin := .closed } := if_pos ⟨how, hp⟩
    have hch : Changeable s sv (sv.orphan i) [] := by
      obtain ⟨h1, h2, h3, h4, h5⟩ := Supervisor.orphan_same i sv
      exact changeable_of_same hs hsv h1 h2 (Supervisor.orphan_coherent i hco) h3 h4
        (fun report code h => h5 ▸ h) (fun hl => Or.inl (Supervisor.orphan_canLaunch i hl))
    rw [← horphan]
    refine ⟨inv_setProcess hs hsv hch, hostStep_setProcess hsv how hch.operation, fun _ _ => ?_⟩
    rw [horphan]
    exact hset s sv ha hsv
  · exact ⟨hs, HostStep.refl i s, fun _ _ => ha⟩

/-- The request is handed over while the record says that the command is running. -/
theorem triple_writeRequest {r : CommandRecord} :
    hostSpec.Triple i
      (fun s => (Unsettled i op a s ∧ OwnsIdle i op h s) ∧ s.record op = some r)
      (writeRequest h)
      (fun _ s => (Unsettled i op a s ∧ Owns i op h s) ∧ s.record op = some r) := by
  have hstable : ∀ {C : Host → Prop}, hostSpec.Stable i C →
      hostSpec.Stable i (fun s => (Unsettled i op a s ∧ C s) ∧ s.record op = some r) := by
    intro C hC s s' hrely ⟨⟨hu, hc⟩, hr⟩
    exact ⟨⟨stable_unsettled s s' hrely hu, hC s s' hrely hc⟩,
      (rely_record hrely hu.1).trans hr⟩
  refine triple_atomic (hstable stable_ownsIdle) (fun _ => hstable stable_owns) ?_
  rintro s v hs ⟨⟨hu, ho⟩, hr⟩ -
  obtain ⟨sv, hsv, hop, how, hin⟩ := ho
  have hco := hs.coherent sv (List.mem_of_getElem? hsv)
  rw [hsv]
  dsimp only
  generalize (if v.ok = true ∨ v.durable = true then Stdin.delivered else Stdin.closed) = new
  have hcoh : ({ sv with stdin := new } : Supervisor).Coherent := by
    refine ⟨fun hx => ?_, hco.absent, hco.alone, hco.unstarted, hco.helper, hco.refused,
      hco.completed⟩
    exact absurd (hco.requested hx) hin
  have hch : Changeable s sv { sv with stdin := new } [] := by
    refine changeable_of_same hs hsv rfl rfl hcoh rfl rfl (fun _ _ h => h) (fun _ => Or.inr ?_)
    rw [hop]
    exact hu.not_settled
  refine ⟨inv_setProcess hs hsv hch, hostStep_setProcess hsv how rfl, fun _ _ => ⟨⟨hu, ?_⟩, hr⟩⟩
  have hlt : h < s.processes.length := (List.getElem?_eq_some_iff.mp hsv).1
  exact ⟨_, List.getElem?_set_self hlt, hop, how⟩

theorem inv_popen {s : Host} {request : ExecuteRequest} (hs : HostInv s)
    (hu : Unsettled i request.operationId request.attempt s)
    (hn : Unspawned i request.operationId s) :
    HostInv { s with processes := s.processes ++
      [{ operation := request.operationId, attempt := request.attempt, argv := request.argv,
         owner := i }] } := by
  obtain ⟨-, r, hr, hset, hat⟩ := hu
  refine ⟨?_, ?_, ?_, ?_, ?_, ?_, hs.closed, hs.recorded, hs.ordered⟩
  · intro x hx
    rcases List.mem_append.mp hx with hx | hx
    · exact hs.process x hx
    · rw [List.mem_singleton] at hx
      subst hx
      exact ⟨r, hr, hat⟩
  · intro k k' x x' hk hk' hop
    -- the operation had no process, so the new one meets no other
    have hcases : ∀ (k : ℕ) (x : Supervisor), (s.processes ++
        [({ operation := request.operationId, attempt := request.attempt, argv := request.argv,
            owner := i } : Supervisor)])[k]? = some x →
        s.processes[k]? = some x ∨ k = s.processes.length ∧ x.operation = request.operationId := by
      intro k x hk
      rcases Nat.lt_trichotomy k s.processes.length with hlt | heq | hgt
      · rw [List.getElem?_append_left hlt] at hk
        exact Or.inl hk
      · subst heq
        rw [List.getElem?_concat_length] at hk
        cases hk
        exact Or.inr ⟨rfl, rfl⟩
      · rw [List.getElem?_eq_none (by simp; omega)] at hk
        cases hk
    rcases hcases k x hk with h1 | ⟨h1, hx⟩ <;> rcases hcases k' x' hk' with h2 | ⟨h2, hx'⟩
    · exact hs.unique k k' x x' h1 h2 hop
    · exact absurd (hop.trans hx') (hn.2 x (List.mem_of_getElem? h1))
    · exact absurd (hop.symm.trans hx) (hn.2 x' (List.mem_of_getElem? h2))
    · exact h1.trans h2.symm
  · intro x hx
    rcases List.mem_append.mp hx with hx | hx
    · exact hs.coherent x hx
    · rw [List.mem_singleton] at hx
      subst hx
      constructor <;> simp
  · intro op' a' hl
    obtain ⟨x, hx, hop, hst⟩ := hs.launched op' a' hl
    exact ⟨x, List.mem_append_left _ hx, hop, hst⟩
  · intro x hx r' hr' hset'
    rcases List.mem_append.mp hx with hx | hx
    · exact hs.settled x hx r' hr' hset'
    · rw [List.mem_singleton] at hx
      subst hx
      refine ⟨fun hcan => ?_, rfl, fun _ => rfl⟩
      cases hcan.1
  · intro x hx report code hout hst
    rcases List.mem_append.mp hx with hx | hx
    · exact hs.reported x hx report code hout hst
    · rw [List.mem_singleton] at hx
      subst hx
      cases hout

theorem triple_popen {request : ExecuteRequest} :
    hostSpec.Triple i
      (fun s => Unsettled i request.operationId request.attempt s ∧
        Unspawned i request.operationId s)
      (popen i request)
      (fun out s => Unsettled i request.operationId request.attempt s ∧
        (out = none → Unspawned i request.operationId s) ∧
        ∀ h, out = some h → OwnsIdle i request.operationId h s) := by
  have hQ : ∀ out : Option ℕ, hostSpec.Stable i (fun s =>
      Unsettled i request.operationId request.attempt s ∧
        (out = none → Unspawned i request.operationId s) ∧
        ∀ h, out = some h → OwnsIdle i request.operationId h s) := by
    intro out s s' hrely ⟨h1, h2, h3⟩
    exact ⟨stable_unsettled s s' hrely h1, fun h => stable_unspawned s s' hrely (h2 h),
      fun k h => stable_ownsIdle s s' hrely (h3 k h)⟩
  refine triple_atomic (stable_unsettled.and stable_unspawned) hQ ?_
  rintro s v hs ⟨hu, hn⟩ -
  split
  · refine ⟨inv_popen hs hu hn, ?_, ?_⟩
    · refine ⟨fun _ _ _ => Iff.rfl, fun _ _ => rfl,
        fun op r hno hr => absurd (hno.symm.trans hr) (by simp), fun _ _ => ⟨rfl, rfl⟩, ?_, ?_,
        Advances.of_commands rfl (fun _ _ h => h)
        (fun _ => Fence.of_eq rfl rfl rfl rfl)⟩
      · intro k x hx _
        have hlt := (List.getElem?_eq_some_iff.mp hx).1
        exact (List.getElem?_append_left hlt).trans hx
      · intro op' hl hno x hx
        rcases List.mem_append.mp hx with hx | hx
        · exact hno x hx
        · rw [List.mem_singleton] at hx
          subst hx
          rintro rfl
          exact hl hu.1
    · intro out hout
      cases hout
      refine ⟨hu, fun h => (by cases h), fun k hk => ?_⟩
      cases hk
      exact ⟨_, List.getElem?_concat_length, rfl, rfl, fun h => by cases h⟩
  · refine ⟨hs, HostStep.refl i s, fun out hout => ?_⟩
    cases hout
    exact ⟨hu, fun _ => hn, fun k hk => by cases hk⟩

/-- What is known once the request was delivered. -/
def Running (i : ℕ) (request : ExecuteRequest) (l : Launched) (s : Host) : Prop :=
  (Unsettled i request.operationId request.attempt s ∧
    Owns i request.operationId l.process s) ∧ s.record request.operationId = some l.record

theorem stable_running {request : ExecuteRequest} {l : Launched} :
    hostSpec.Stable i (Running i request l) := by
  rintro s s' hrely ⟨⟨hu, ho⟩, hr⟩
  exact ⟨⟨stable_unsettled s s' hrely hu, stable_owns s s' hrely ho⟩,
    (rely_record hrely hu.1).trans hr⟩

/-- The outcome of the part under the attempt's lock. -/
def LaunchedAs (i : ℕ) (request : ExecuteRequest) : Reply ⊕ Launched → Host → Prop
  | .inl _, _ => True
  | .inr l, s => Running i request l s

theorem stable_launchedAs {request : ExecuteRequest} (out : Reply ⊕ Launched) :
    hostSpec.Stable i (LaunchedAs i request out) := by
  cases out with
  | inl reply => exact stable_true
  | inr l => exact stable_running

variable {request : ExecuteRequest}

theorem triple_replied {reply : Reply} :
    hostSpec.Triple i A (.done (.inl reply) : Effect (Reply ⊕ Launched)) (LaunchedAs i request) :=
  triple_done (stable_launchedAs _) (fun _ _ _ => trivial)

theorem owns_setProcess {s : Host} {sv sv' : Supervisor} (hsv : s.processes[h]? = some sv)
    (hop : sv'.operation = sv.operation) (how : sv'.owner = sv.owner) (ho : Owns i op h s) :
    Owns i op h (s.setProcess h sv') := by
  obtain ⟨x, hx, hxop, hxow⟩ := ho
  rw [hsv] at hx
  cases hx
  have hlt : h < s.processes.length := (List.getElem?_eq_some_iff.mp hsv).1
  exact ⟨sv', List.getElem?_set_self hlt, hop.trans hxop, how.trans hxow⟩

theorem ownsIdle_setProcess {s : Host} {sv sv' : Supervisor} (hsv : s.processes[h]? = some sv)
    (hop : sv'.operation = sv.operation) (how : sv'.owner = sv.owner)
    (hin : sv.stdin ≠ .delivered → sv'.stdin ≠ .delivered) (ho : OwnsIdle i op h s) :
    OwnsIdle i op h (s.setProcess h sv') := by
  obtain ⟨x, hx, hxop, hxow, hxin⟩ := ho
  rw [hsv] at hx
  cases hx
  have hlt : h < s.processes.length := (List.getElem?_eq_some_iff.mp hsv).1
  exact ⟨sv', List.getElem?_set_self hlt, hop.trans hxop, how.trans hxow, hin hxin⟩

theorem triple_stopOwned :
    hostSpec.Triple i (fun s => Unsettled i op a s ∧ OwnsIdle i op h s) (stopSupervisor h)
      (fun _ s => Unsettled i op a s ∧ OwnsIdle i op h s) := by
  refine triple_stopSupervisor (stable_unsettled.and stable_ownsIdle) ?_ ?_
  · rintro s ⟨-, sv, hsv, -, how, -⟩
    exact ⟨sv, hsv, how⟩
  · rintro s sv ⟨hu, ho⟩ hsv
    exact ⟨hu, ownsIdle_setProcess hsv rfl rfl (fun h => h) ho⟩

theorem triple_abandon {process : ℕ} {record : CommandRecord} (hr : record.state = .running)
    (hat : record.attemptId = request.attempt) :
    hostSpec.Triple i (fun s => Unsettled i request.operationId request.attempt s ∧
        OwnsIdle i request.operationId process s)
      (abandon request process record) (LaunchedAs i request) := by
  have hopen : record.state.settled = false := by rw [hr]; rfl
  refine triple_bind (triple_tryWriteCommand stable_ownsIdle (fun _ h => h) hopen hat)
    (fun ok => ?_)
  refine triple_bind (triple_pre triple_stopOwned (fun s _ h => h.1)) (fun stopped => ?_)
  split
  · refine triple_bind (M := fun _ _ => True) ?_
      (fun _ => triple_replied)
    refine triple_writeCommand (stable_unsettled.and stable_ownsIdle) stable_true ?_
    rintro s hs ⟨hu, ho⟩
    exact ⟨writable_notStarted hu rfl hat (idle_process hs ho), hu.1, hu.not_settled,
      fun hn => absurd hn hu.recorded, trivial⟩
  · exact triple_replied

theorem triple_deliver {process startedAt : ℕ} {record : CommandRecord}
    (hr : record.state = .running) (hat : record.attemptId = request.attempt) :
    hostSpec.Triple i (fun s => Unsettled i request.operationId request.attempt s ∧
        OwnsIdle i request.operationId process s)
      (deliver request process startedAt record) (LaunchedAs i request) := by
  have hopen : record.state.settled = false := by rw [hr]; rfl
  refine triple_bind (triple_tryWriteCommand stable_ownsIdle (fun _ h => h) hopen hat)
    (fun ok => ?_)
  cases ok with
  | true =>
    refine triple_bind (triple_pre (triple_writeRequest (r := record))
      (fun s _ h => ⟨h.1, h.2 rfl⟩)) (fun written => ?_)
    cases written with
    | true => exact triple_done (stable_launchedAs _) (fun _ _ h => h)
    | false =>
      refine triple_bind (M := fun _ s => Owns i request.operationId process s) ?_
        (fun _ => triple_replied)
      refine triple_pre (triple_stopSupervisor stable_owns ?_ ?_) (fun s _ h => h.1.2)
      · rintro s ⟨sv, hsv, -, how⟩
        exact ⟨sv, hsv, how⟩
      · intro s sv ho hsv
        exact owns_setProcess hsv rfl rfl ho
  | false =>
    refine triple_bind (M := fun _ s => Unsettled i request.operationId request.attempt s ∧
      OwnsIdle i request.operationId process s) ?_
      (fun _ => triple_bind triple_stopOwned (fun _ => triple_replied))
    refine triple_pre (triple_closeStdin (stable_unsettled.and stable_ownsIdle) ?_ ?_)
      (fun s _ h => h.1)
    · rintro s ⟨-, sv, hsv, -, how, -⟩
      exact ⟨sv, hsv, how⟩
    · rintro s sv ⟨hu, ho⟩ hsv
      exact ⟨hu, ownsIdle_setProcess hsv rfl rfl (fun _ h => by cases h) ho⟩

end Launch

end ProjectControl.Native
