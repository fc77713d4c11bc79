import Mathlib
import ProjectControl.PacketNotes

/-! The retention of jobs: which terminal owners keep their pins over a run of `retain_job`
calls. -/

set_option autoImplicit false

namespace ProjectControl.Packets

open Sql

section Ranks

/-- The rows that an order puts in front of a row. -/
def rank (rows : List Retention) (row : Retention) : ℕ :=
  (rows.filter fun other => other.owner ≠ row.owner ∧ other.newer row).length

variable {rows : List Retention} {row : Retention}

theorem newer_total (a b : Retention) : a.newer b ∨ b.newer a := by
  rcases lt_trichotomy a.updated b.updated with h | h | h
  · exact .inr (.inl h)
  · rcases le_total b.owner a.owner with hle | hle
    · exact .inl (.inr ⟨h, hle⟩)
    · exact .inr (.inr ⟨h.symm, hle⟩)
  · exact .inl (.inl h)

theorem newer_trans {a b c : Retention} (hab : a.newer b) (hbc : b.newer c) : a.newer c := by
  rcases hab with hab | ⟨hab, hab'⟩ <;> rcases hbc with hbc | ⟨hbc, hbc'⟩
  · exact .inl (hbc.trans hab)
  · exact .inl (hbc ▸ hab)
  · exact .inl (hab.symm ▸ hbc)
  · exact .inr ⟨hab.trans hbc, hbc'.trans hab'⟩

theorem owner_eq_of_newer {a b : Retention} (hab : a.newer b) (hba : b.newer a) :
    a.owner = b.owner := by
  rcases hab with hab | ⟨hab, hab'⟩ <;> rcases hba with hba | ⟨hba, hba'⟩
  · exact absurd hab (lt_asymm hba)
  · exact absurd hab hba.not_lt
  · exact absurd hba hab.not_lt
  · exact le_antisymm hba' hab'

instance : Std.Total Retention.newer := ⟨newer_total⟩

instance : IsTrans Retention Retention.newer := ⟨fun _ _ _ => newer_trans⟩

/-- In a list in order the rows behind an offset are those with at least as many in front. -/
theorem mem_drop_iff (hsorted : rows.Pairwise Retention.newer)
    (hdistinct : rows.Pairwise fun a b => a.owner ≠ b.owner) (hrow : row ∈ rows) (offset : ℕ) :
    row ∈ rows.drop offset ↔ offset ≤ rank rows row := by
  induction rows generalizing offset with
  | nil => cases hrow
  | cons first rest ih =>
    obtain ⟨hfirst, hsorted⟩ := List.pairwise_cons.mp hsorted
    obtain ⟨hne, hdistinct⟩ := List.pairwise_cons.mp hdistinct
    cases offset with
    | zero => exact iff_of_true hrow (Nat.zero_le _)
    | succ offset =>
      rw [List.drop_succ_cons]
      rcases List.mem_cons.mp hrow with rfl | hrest
      · -- nothing is in front of the first row
        have hnone : rank (row :: rest) row = 0 := by
          rw [rank, List.length_eq_zero_iff, List.filter_eq_nil_iff]
          intro other hother hbefore
          rw [decide_eq_true_eq] at hbefore
          rcases List.mem_cons.mp hother with rfl | hother
          · exact hbefore.1 rfl
          · exact hbefore.1 (owner_eq_of_newer hbefore.2 (hfirst other hother))
        have hout : row ∉ rest.drop offset := fun h => hne row (List.mem_of_mem_drop h) rfl
        rw [hnone]
        exact iff_of_false hout (Nat.not_succ_le_zero offset)
      · have hfront : rank (first :: rest) row = rank rest row + 1 := by
          have hbefore : first.owner ≠ row.owner ∧ first.newer row :=
            ⟨hne row hrest, hfirst row hrest⟩
          rw [rank, List.filter_cons, if_pos (decide_eq_true hbefore), List.length_cons, rank]
        rw [ih hsorted hdistinct hrest offset, hfront, Nat.succ_le_succ_iff]

theorem rank_perm {other : List Retention} (h : rows.Perm other) : rank rows row = rank other row :=
  (h.filter _).length_eq

/-- The rows that `LIMIT -1 OFFSET` leaves of the rows in order. -/
theorem mem_drop_sorted (hdistinct : rows.Pairwise fun a b => a.owner ≠ b.owner)
    (hrow : row ∈ rows) (offset : ℕ) :
    row ∈ (rows.insertionSort Retention.newer).drop offset ↔ offset ≤ rank rows row := by
  have hperm : (rows.insertionSort Retention.newer).Perm rows := List.perm_insertionSort _ _
  have hdistinct' : (rows.insertionSort Retention.newer).Pairwise fun a b => a.owner ≠ b.owner :=
    (hperm.pairwise_iff fun h => Ne.symm h).mpr hdistinct
  rw [mem_drop_iff (List.pairwise_insertionSort _ _) hdistinct' (hperm.mem_iff.mpr hrow),
    rank_perm hperm]

/-- A row that is put in front has no more rows in front of it. -/
theorem rank_le_of_newer (hdistinct : rows.Pairwise fun a b => a.owner ≠ b.owner)
    {a b : Retention} (ha : a ∈ rows) (h : b.newer a) : rank rows b ≤ rank rows a := by
  have : Std.Symm fun a b : Retention => a.owner ≠ b.owner := ⟨fun _ _ h => h.symm⟩
  apply List.Sublist.length_le
  have hsub (other : Retention) (hother : other ∈ rows)
      (hfront : other.owner ≠ b.owner ∧ other.newer b) :
      other.owner ≠ a.owner ∧ other.newer a := by
    refine ⟨fun howner => ?_, newer_trans hfront.2 h⟩
    have heq : other = a := by
      by_contra hne
      exact hdistinct.forall hother ha hne howner
    subst heq
    exact hfront.1 (owner_eq_of_newer hfront.2 h)
  have hboth : rows.filter (fun other => other.owner ≠ b.owner ∧ other.newer b) =
      (rows.filter fun other => other.owner ≠ a.owner ∧ other.newer a).filter
        fun other => other.owner ≠ b.owner ∧ other.newer b := by
    rw [List.filter_filter]
    refine List.filter_congr fun other hother => ?_
    by_cases hfront : other.owner ≠ b.owner ∧ other.newer b
    · rw [decide_eq_true hfront, decide_eq_true (hsub other hother hfront)]
      rfl
    · rw [decide_eq_false hfront]
      rfl
  rw [hboth]
  exact List.filter_sublist

end Ranks

section Calls

variable {V J : Type}

/-- A call of `retain_job`, with what it reads from the clock. -/
structure RetainCall where
  owner : String
  references : List String
  terminal : Bool
  clock : Clock
  now : ℚ

/-- The pins that references stand for. -/
def Store.pinsOf (store : Store V J) (owner : String) (references : List String) : List Pin :=
  references.filterMap fun reference => (store.named? reference).map fun r => ⟨owner, r.id⟩

def RetainCall.additions (call : RetainCall) (store : Store V J) : List Pin :=
  store.pinsOf call.owner call.references

def RetainCall.row (call : RetainCall) : Retention := ⟨call.owner, call.terminal, call.now⟩

/-- The retention rows once the job has its own. -/
def RetainCall.retained (call : RetainCall) (store : Store V J) : List Retention :=
  (store.retention.rows.filter fun row => row.owner ≠ call.owner) ++ [call.row]

def RetainCall.terminals (call : RetainCall) (store : Store V J) : List Retention :=
  (call.retained store).filter Retention.terminal

variable (rules : Rules V J)

def RetainCall.run (call : RetainCall) (store : Store V J) : Except Failure (Store V J) :=
  retainJob rules store call.clock call.now call.owner call.references call.terminal

/-- One owner has been retained since the last call for another one. -/
def Before (calls : List RetainCall) (owner later : String) : Prop :=
  ∃ first rest, calls = first ++ rest ∧ (∃ call ∈ rest, call.owner = later) ∧
    ∀ call ∈ rest, call.owner ≠ owner

/-- A call with the stores before and after it. -/
structure RetainStep (V J : Type) where
  store : Store V J
  call : RetainCall
  result : Store V J

variable (earlier : List RetainCall) (step : RetainStep V J)

def RetainStep.Pinned (pin : Pin) : Prop :=
  pin ∈ step.store.pins ∨ pin ∈ step.call.additions step.store

/-- A terminal owner that has no row any more. -/
def RetainStep.Lost (owner : String) : Prop :=
  (∃ row ∈ step.call.terminals step.store, row.owner = owner) ∧
    ∀ row ∈ step.result.retention, row.owner ≠ owner

/-- What a call keeps: at most so many terminal owners have rows; who is not terminal keeps its
pins; only the terminal owners that were retained least recently lose theirs; and the job itself
keeps what it pinned. -/
structure KeepsJobs : Prop where
  limit : (step.result.retention.rows.filter Retention.terminal).length ≤
    rules.recentTerminalLimit
  others : ∀ pin, (∀ row ∈ step.call.terminals step.store, row.owner ≠ pin.owner) →
    (pin ∈ step.result.pins ↔ step.Pinned pin)
  lost : ∀ pin, step.Pinned pin → pin ∉ step.result.pins → step.Lost pin.owner
  oldest : ∀ owner, step.Lost owner → ∀ row ∈ step.result.retention, row.terminal = true →
    Before (earlier ++ [step.call]) owner row.owner
  caller : ∀ pin, step.Pinned pin → pin.owner = step.call.owner → pin ∈ step.result.pins

/-- Of two terminal owners that were retained at the same time, of which one has fewer owners in
front than may stay and the other one has not, the latter was retained before the former. -/
def TiesInOrder : Prop :=
  ∀ a ∈ step.call.terminals step.store, ∀ b ∈ step.call.terminals step.store,
    a.updated = b.updated → rank (step.call.terminals step.store) a < rules.recentTerminalLimit →
      rules.recentTerminalLimit ≤ rank (step.call.terminals step.store) b →
        Before (earlier ++ [step.call]) b.owner a.owner

/-- A run of calls at times that do not decrease, between which anything may happen that leaves
the retention rows alone. -/
inductive JobRun : List (RetainStep V J) → Store V J → Prop
  | start {store : Store V J} (hempty : store.retention.rows = []) : JobRun [] store
  | other {steps : List (RetainStep V J)} {store store' : Store V J} (hrun : JobRun steps store)
      (hsame : store'.retention = store.retention) : JobRun steps store'
  | retain {steps : List (RetainStep V J)} {store result : Store V J} {call : RetainCall}
      (hrun : JobRun steps store) (hclock : ∀ step ∈ steps, step.call.now ≤ call.now)
      (hcall : call.run rules store = .ok result) :
      JobRun (steps ++ [⟨store, call, result⟩]) result

end Calls

section Steps

variable {V J : Type} {rules : Rules V J} {store store' : Store V J} {call : RetainCall}

theorem ensures_pin_pinned (clock : Clock) (owner : String) (references : List String) :
    Ensures (pin rules store clock owner references) (fun store' =>
      store' = store.pinned (store.pinsOf owner references)) := by
  unfold pin
  generalize 0 = start
  induction references generalizing store start with
  | nil => exact Ensures.pure rfl
  | cons reference rest ih =>
    rw [List.zipIdx_cons, List.foldlM_cons]
    have hfirst : Ensures (pinReference rules clock owner store (reference, start)) fun store' =>
        ∃ r, store.named? reference = some r ∧ store' = store.pinned [⟨owner, r.id⟩] := by
      unfold pinReference
      cases hname : store.named? reference with
      | none => exact Ensures.throw
      | some r => exact Ensures.ite (fun _ => Ensures.throw) fun _ => Ensures.pure ⟨r, rfl, rfl⟩
    refine Ensures.bind hfirst fun store' hstore' => ?_
    obtain ⟨r, hname, rfl⟩ := hstore'
    refine (ih (start + 1)).mono fun store' hstore' => ?_
    have hpins : store.pinsOf owner (reference :: rest) =
        [⟨owner, r.id⟩] ++ store.pinsOf owner rest :=
      List.filterMap_cons_some (by rw [hname]; rfl)
    rw [hstore', hpins, Store.pinned, Store.pinned, Store.pinned, pinAll_append]
    rfl

theorem forgotten_owners (owners : List String) (store : Store V J) :
    (∀ pin, pin ∈ (owners.foldl forgetOwner store).pins ↔
        pin ∈ store.pins ∧ pin.owner ∉ owners) ∧
      (owners.foldl forgetOwner store).retention.rows =
        store.retention.rows.filter fun row => row.owner ∉ owners := by
  induction owners generalizing store with
  | nil =>
    refine ⟨fun pin => ⟨fun h => ⟨h, List.not_mem_nil⟩, And.left⟩, ?_⟩
    exact (List.filter_eq_self.mpr fun row _ => decide_eq_true List.not_mem_nil).symm
  | cons owner rest ih =>
    obtain ⟨hpins, hrows⟩ := ih (forgetOwner store owner)
    rw [List.foldl_cons]
    refine ⟨fun pin => ?_, ?_⟩
    · have hunpin : pin ∈ (forgetOwner store owner).pins ↔ pin ∈ store.pins ∧ pin.owner ≠ owner :=
        mem_unpin
      rw [hpins, hunpin, List.mem_cons, not_or, and_assoc]
    · rw [hrows]
      change (store.retention.rows.filter _).filter _ = _
      rw [List.filter_filter]
      refine List.filter_congr fun row _ => ?_
      by_cases howner : row.owner = owner <;> by_cases hrest : row.owner ∈ rest <;>
        simp [howner, hrest]

/-- What a call of `retain_job` commits. -/
structure Retained (rules : Rules V J) (call : RetainCall) (store store' : Store V J) : Prop where
  distinct : (call.retained store).Pairwise fun a b => a.owner ≠ b.owner
  pins : ∀ pin, pin ∈ store'.pins ↔ (pin ∈ store.pins ∨ pin ∈ call.additions store) ∧
    ∀ row ∈ call.terminals store,
      rules.recentTerminalLimit ≤ rank (call.terminals store) row → row.owner ≠ pin.owner
  rows : ∀ row, row ∈ store'.retention ↔ row ∈ call.retained store ∧
    ¬(row.terminal = true ∧ rules.recentTerminalLimit ≤ rank (call.terminals store) row)

theorem retained_forgotten {db : Store V J}
    (hpinned : ∀ pin, pin ∈ db.pins ↔ pin ∈ store.pins ∨ pin ∈ call.additions store)
    (hrows : db.retention.rows = call.retained store) :
    Retained rules call store ((staleOwners rules db).foldl forgetOwner db) := by
  have hdistinct : (call.retained store).Pairwise fun a b => a.owner ≠ b.owner :=
    hrows ▸ db.retention.distinct
  have hterminals : (call.terminals store).Pairwise fun a b => a.owner ≠ b.owner :=
    hdistinct.filter _
  have hstale (owner : String) : owner ∈ staleOwners rules db ↔
      ∃ row ∈ call.terminals store,
        rules.recentTerminalLimit ≤ rank (call.terminals store) row ∧ row.owner = owner := by
    have hsorted : staleOwners rules db =
        (((call.terminals store).insertionSort Retention.newer).drop
          rules.recentTerminalLimit).map Retention.owner := by
      rw [staleOwners, RetainCall.terminals, ← hrows]
    rw [hsorted, List.mem_map]
    constructor
    · rintro ⟨row, hrow, rfl⟩
      have hmem := (List.mem_insertionSort _).mp (List.mem_of_mem_drop hrow)
      exact ⟨row, hmem, (mem_drop_sorted hterminals hmem _).mp hrow, rfl⟩
    · rintro ⟨row, hmem, hrank, rfl⟩
      exact ⟨row, (mem_drop_sorted hterminals hmem _).mpr hrank, rfl⟩
  obtain ⟨hpins, hkept⟩ := forgotten_owners (staleOwners rules db) db
  refine ⟨hdistinct, fun pin => ?_, fun row => ?_⟩
  · rw [hpins, hpinned, hstale]
    refine and_congr_right fun _ => ?_
    push Not
    rfl
  · change row ∈ ((staleOwners rules db).foldl forgetOwner db).retention.rows ↔ _
    rw [hkept, List.mem_filter, decide_eq_true_eq, hstale, hrows]
    refine and_congr_right fun hrow => not_congr ⟨?_, ?_⟩
    · rintro ⟨other, hother, hrank, howner⟩
      obtain ⟨hmem, hterminal⟩ := List.mem_filter.mp hother
      -- an owner has one row
      have heq : other = row := by
        by_contra hne
        have : Std.Symm fun a b : Retention => a.owner ≠ b.owner := ⟨fun _ _ h => h.symm⟩
        exact hdistinct.forall hmem hrow hne howner
      subst heq
      exact ⟨hterminal, hrank⟩
    · rintro ⟨hterminal, hrank⟩
      exact ⟨row, List.mem_filter.mpr ⟨hrow, hterminal⟩, hrank, rfl⟩

theorem ensures_run : Ensures (call.run rules store) (Retained rules call store) := by
  refine Ensures.bind (ensures_pin_pinned call.clock call.owner call.references) fun db hdb => ?_
  subst hdb
  dsimp only
  split
  · exact Ensures.throw
  · rename_i retention hinsert
    refine Ensures.pure (retained_forgotten (fun pin => mem_pinAll) ?_)
    refine (Table.rows_insert? hinsert).trans ?_
    change (store.retention.rows.filter _) ++ _ = _
    simp only [RetainCall.retained, RetainCall.row, ne_eq, decide_not]

end Steps

section Recency

variable {calls earlier : List RetainCall} {call : RetainCall} {a b row : Retention}

/-- A row as the last call for its owner wrote it. -/
def Written (calls : List RetainCall) (row : Retention) : Prop :=
  ∃ first call rest, calls = first ++ call :: rest ∧ call.row = row ∧
    ∀ call ∈ rest, call.owner ≠ row.owner

theorem Written.append (h : Written calls row) (hne : call.owner ≠ row.owner) :
    Written (calls ++ [call]) row := by
  obtain ⟨first, last, rest, rfl, hrow, hrest⟩ := h
  refine ⟨first, last, rest ++ [call], ?_, hrow, ?_⟩
  · rw [List.append_assoc, List.cons_append]
  · intro other hother
    rcases List.mem_append.mp hother with hother | hother
    · exact hrest other hother
    · rw [List.mem_singleton.mp hother]
      exact hne

theorem written_last : Written (calls ++ [call]) call.row :=
  ⟨calls, call, [], rfl, rfl, fun _ h => nomatch h⟩

/-- What was written at a later time was written by a later call. -/
theorem before_of_updated_lt (hclock : calls.Pairwise fun c d => c.now ≤ d.now)
    (ha : Written calls a) (hb : Written calls b) (h : a.updated < b.updated) :
    Before calls a.owner b.owner := by
  obtain ⟨firstA, callA, restA, hcalls, rfl, hrestA⟩ := ha
  obtain ⟨firstB, callB, restB, rfl, rfl, hrestB⟩ := hb
  refine ⟨firstB, callB :: restB, rfl, ⟨callB, List.mem_cons_self, rfl⟩, fun other hother howner => ?_⟩
  have hfrom : callB.now ≤ other.now := by
    rcases List.mem_cons.mp hother with rfl | hrest
    · exact le_rfl
    · have hlater := (List.pairwise_append.mp hclock).2.1
      exact (List.pairwise_cons.mp hlater).1 other hrest
  have hto : other.now ≤ callA.now := by
    have hmem : other ∈ firstA ++ callA :: restA :=
      hcalls ▸ List.mem_append_right firstB hother
    rw [hcalls] at hclock
    rcases List.mem_append.mp hmem with hfirst | hrest
    · exact (List.pairwise_append.mp hclock).2.2 other hfirst callA List.mem_cons_self
    · rcases List.mem_cons.mp hrest with rfl | hrest
      · exact le_rfl
      · exact absurd howner (hrestA other hrest)
  exact absurd (hfrom.trans hto) (not_le.mpr h)

theorem written_retained {V J : Type} {store : Store V J}
    (h : ∀ row ∈ store.retention, Written calls row) :
    ∀ row ∈ call.retained store, Written (calls ++ [call]) row := by
  intro row hrow
  rcases List.mem_append.mp hrow with hold | hnew
  · obtain ⟨hmem, hne⟩ := List.mem_filter.mp hold
    exact (h row hmem).append (of_decide_eq_true hne).symm
  · rw [List.mem_singleton.mp hnew]
    exact written_last

/-- Nobody was retained after the last call. -/
theorem not_before_last {later : String} : ¬Before (earlier ++ [call]) call.owner later := by
  rintro ⟨first, rest, heq, ⟨other, hother, -⟩, hnone⟩
  have hrest : rest ≠ [] := List.ne_nil_of_mem hother
  have hlast : (first ++ rest).getLast (List.append_ne_nil_of_right_ne_nil first hrest) = call := by
    simp only [← heq, List.getLast_append_singleton]
  rw [List.getLast_append_of_ne_nil _ hrest] at hlast
  exact hnone call (hlast ▸ List.getLast_mem hrest) rfl

end Recency

section Equivalence

variable {V J : Type} {rules : Rules V J} {step : RetainStep V J} {earlier : List RetainCall}
  {a b row : Retention}

theorem eq_of_owner (h : Retained rules step.call step.store step.result)
    (ha : a ∈ step.call.retained step.store) (hb : b ∈ step.call.retained step.store)
    (howner : a.owner = b.owner) : a = b := by
  by_contra hne
  have : Std.Symm fun a b : Retention => a.owner ≠ b.owner := ⟨fun _ _ h => h.symm⟩
  exact h.distinct.forall ha hb hne howner

theorem Retained.distinct_terminals (h : Retained rules step.call step.store step.result) :
    (step.call.terminals step.store).Pairwise fun a b => a.owner ≠ b.owner :=
  h.distinct.filter _

/-- The terminal rows that are left are those with few rows in front. -/
theorem mem_result_terminal (h : Retained rules step.call step.store step.result) :
    (row ∈ step.result.retention ∧ row.terminal = true) ↔
      row ∈ step.call.terminals step.store ∧
        rank (step.call.terminals step.store) row < rules.recentTerminalLimit := by
  rw [h.rows, RetainCall.terminals, List.mem_filter, ← not_le]
  tauto

theorem lost_iff (h : Retained rules step.call step.store step.result) {owner : String} :
    step.Lost owner ↔ ∃ row ∈ step.call.terminals step.store, row.owner = owner ∧
      rules.recentTerminalLimit ≤ rank (step.call.terminals step.store) row := by
  constructor
  · rintro ⟨⟨row, hrow, rfl⟩, hgone⟩
    refine ⟨row, hrow, rfl, not_lt.mp fun hrank => ?_⟩
    exact hgone row ((mem_result_terminal h).mpr ⟨hrow, hrank⟩).1 rfl
  · rintro ⟨row, hrow, rfl, hrank⟩
    refine ⟨⟨row, hrow, rfl⟩, fun other hother howner => ?_⟩
    have heq : other = row :=
      eq_of_owner h ((h.rows other).mp hother).1 (List.mem_filter.mp hrow).1 howner
    subst heq
    exact ((h.rows other).mp hother).2 ⟨(List.mem_filter.mp hrow).2, hrank⟩

theorem length_terminals_le (h : Retained rules step.call step.store step.result) :
    (step.result.retention.rows.filter Retention.terminal).length ≤
      rules.recentTerminalLimit := by
  let sorted := (step.call.terminals step.store).insertionSort Retention.newer
  have hnodup : (step.result.retention.rows.filter Retention.terminal).Nodup :=
    (step.result.retention.distinct.imp fun hne heq => hne (congrArg _ heq)).filter _
  have hsub : step.result.retention.rows.filter Retention.terminal ⊆
      sorted.take rules.recentTerminalLimit := by
    intro row hrow
    obtain ⟨hmem, hrank⟩ := (mem_result_terminal h).mp (List.mem_filter.mp hrow)
    have hsorted : row ∈ sorted.take rules.recentTerminalLimit ++
        sorted.drop rules.recentTerminalLimit := by
      rw [List.take_append_drop]
      exact (List.mem_insertionSort _).mpr hmem
    rcases List.mem_append.mp hsorted with htake | hdrop
    · exact htake
    · exact absurd ((mem_drop_sorted h.distinct_terminals hmem _).mp hdrop) (not_le.mpr hrank)
  have hlength := (List.subperm_of_subset hnodup hsub).length_le
  exact hlength.trans (List.length_take_le _ _)

/-- Where some row is beyond the limit, some other one stays. -/
theorem exists_kept (h : Retained rules step.call step.store step.result)
    (hlimit : 1 ≤ rules.recentTerminalLimit) (hrow : row ∈ step.call.terminals step.store) :
    ∃ kept ∈ step.call.terminals step.store,
      rank (step.call.terminals step.store) kept < rules.recentTerminalLimit := by
  let sorted := (step.call.terminals step.store).insertionSort Retention.newer
  have hperm : sorted.Perm (step.call.terminals step.store) := List.perm_insertionSort _ _
  cases hsorted : sorted with
  | nil =>
    have hnone := hperm.mem_iff.mpr hrow
    rw [hsorted] at hnone
    cases hnone
  | cons kept rest =>
    have hkept : kept ∈ step.call.terminals step.store :=
      hperm.mem_iff.mp (hsorted ▸ List.mem_cons_self)
    refine ⟨kept, hkept, not_le.mp fun hrank => ?_⟩
    have hdrop := (mem_drop_sorted h.distinct_terminals hkept _).mpr hrank
    have hdistinct : sorted.Pairwise fun a b => a.owner ≠ b.owner :=
      (hperm.pairwise_iff fun hne => Ne.symm hne).mpr h.distinct_terminals
    change kept ∈ sorted.drop _ at hdrop
    obtain ⟨limit, heq⟩ := Nat.exists_eq_add_of_le' hlimit
    rw [hsorted] at hdistinct hdrop
    rw [heq, List.drop_succ_cons] at hdrop
    exact (List.pairwise_cons.mp hdistinct).1 kept (List.mem_of_mem_drop hdrop) rfl

/-- A call keeps what it should exactly if the ties at the limit are in order. -/
theorem keepsJobs_iff (h : Retained rules step.call step.store step.result)
    (hlimit : 1 ≤ rules.recentTerminalLimit)
    (hclock : (earlier ++ [step.call]).Pairwise fun c d => c.now ≤ d.now)
    (hwritten : ∀ row ∈ step.call.retained step.store, Written (earlier ++ [step.call]) row) :
    KeepsJobs rules earlier step ↔ TiesInOrder rules earlier step := by
  constructor
  · intro hkeeps a ha b hb _ hrankA hrankB
    have hresult := (mem_result_terminal h).mpr ⟨ha, hrankA⟩
    exact hkeeps.oldest b.owner ((lost_iff h).mpr ⟨b, hb, rfl, hrankB⟩) a hresult.1 hresult.2
  · intro hties
    have holdest (owner : String) (hlost : step.Lost owner) (a : Retention)
        (ha : a ∈ step.result.retention) (hterminal : a.terminal = true) :
        Before (earlier ++ [step.call]) owner a.owner := by
      obtain ⟨b, hb, rfl, hrankB⟩ := (lost_iff h).mp hlost
      obtain ⟨hmem, hrankA⟩ := (mem_result_terminal h).mp ⟨ha, hterminal⟩
      have hnewer : a.newer b := by
        refine (newer_total a b).resolve_right fun hnewer => ?_
        have hle := rank_le_of_newer h.distinct_terminals hmem hnewer
        omega
      rcases hnewer with hlt | ⟨heq, -⟩
      · exact before_of_updated_lt hclock (hwritten b (List.mem_filter.mp hb).1)
          (hwritten a (List.mem_filter.mp hmem).1) hlt
      · exact hties a hmem b hb heq hrankA hrankB
    refine ⟨length_terminals_le h, fun pin hpin => ?_, fun pin hpin hgone => ?_, holdest,
      fun pin hpin hcaller => ?_⟩
    · rw [h.pins]
      exact and_iff_left fun row hrow _ => hpin row hrow
    · rw [lost_iff h]
      by_contra hkept
      refine hgone ((h.pins pin).mpr ⟨hpin, fun row hrow hrank howner => ?_⟩)
      exact hkept ⟨row, hrow, howner, hrank⟩
    · refine (h.pins pin).mpr ⟨hpin, fun row hrow hrank howner => ?_⟩
      obtain ⟨kept, hkept, hrankK⟩ := exists_kept h hlimit hrow
      have hresult := (mem_result_terminal h).mpr ⟨hkept, hrankK⟩
      have hlost : step.Lost step.call.owner :=
        (lost_iff h).mpr ⟨row, hrow, howner.trans hcaller, hrank⟩
      exact not_before_last (holdest _ hlost kept hresult.1 hresult.2)

end Equivalence

section Runs

variable {V J : Type} {rules : Rules V J} {steps earlier later : List (RetainStep V J)}
  {store : Store V J} {step : RetainStep V J}

/-- The rows are those that the last calls for their owners wrote. -/
theorem JobRun.written (h : JobRun rules steps store) :
    ∀ row ∈ store.retention, Written (steps.map RetainStep.call) row := by
  induction h with
  | start hempty =>
    intro row hrow
    change row ∈ Table.rows _ at hrow
    rw [hempty] at hrow
    cases hrow
  | other _ hsame ih =>
    rw [hsame]
    exact ih
  | @retain steps store result call hrun hclock hcall ih =>
    intro row hrow
    rw [List.map_append, List.map_singleton]
    exact written_retained ih row ((ensures_run result hcall).rows row |>.mp hrow).1

theorem JobRun.clock (h : JobRun rules steps store) :
    (steps.map RetainStep.call).Pairwise fun c d => c.now ≤ d.now := by
  induction h with
  | start => exact .nil
  | other _ _ ih => exact ih
  | retain _ hclock _ ih =>
    rw [List.map_append, List.map_singleton, List.pairwise_append]
    refine ⟨ih, List.pairwise_singleton _ _, fun c hc d hd => ?_⟩
    obtain ⟨step, hstep, rfl⟩ := List.mem_map.mp hc
    rw [List.mem_singleton.mp hd]
    exact hclock step hstep

/-- Every call of a run is made in the store that a run leads to. -/
theorem JobRun.split (h : JobRun rules steps store) (heq : steps = earlier ++ step :: later) :
    JobRun rules (earlier ++ [step]) step.result ∧ JobRun rules earlier step.store ∧
      step.call.run rules step.store = .ok step.result := by
  induction h generalizing later with
  | start => exact absurd heq.symm (List.append_ne_nil_of_right_ne_nil _ (List.cons_ne_nil _ _))
  | other _ _ ih => exact ih heq
  | @retain steps store result call hrun hclock hcall ih =>
    rcases List.eq_nil_or_concat later with rfl | ⟨later, last, rfl⟩
    · obtain ⟨rfl, hlast⟩ := List.append_inj' heq rfl
      obtain rfl := List.singleton_inj.mp hlast
      exact ⟨.retain hrun hclock hcall, hrun, hcall⟩
    · have hsplit : steps ++ [⟨store, call, result⟩] = (earlier ++ step :: later) ++ [last] := by
        rw [heq, List.append_assoc, List.cons_append, List.concat_eq_append]
      exact ih (List.append_inj' hsplit rfl).1

/-- A run keeps the jobs exactly if in each of its calls the ties at the limit are in order. -/
theorem jobs_are_kept_iff (hlimit : 1 ≤ rules.recentTerminalLimit) (h : JobRun rules steps store) :
    (∀ earlier step later, steps = earlier ++ step :: later →
        KeepsJobs rules (earlier.map RetainStep.call) step) ↔
      ∀ earlier step later, steps = earlier ++ step :: later →
        TiesInOrder rules (earlier.map RetainStep.call) step := by
  refine forall_congr' fun earlier => forall_congr' fun step => forall_congr' fun later =>
    forall_congr' fun heq => ?_
  obtain ⟨hafter, hbefore, hcall⟩ := h.split heq
  have hclock := hafter.clock
  rw [List.map_append, List.map_singleton] at hclock
  exact keepsJobs_iff (ensures_run _ hcall) hlimit hclock (written_retained hbefore.written)

end Runs

section Example

/-- A store with room for one terminal job. -/
def oneJob : Rules String String := { plainRules with recentTerminalLimit := 1 }

def finished (owner : String) : RetainCall := ⟨owner, ["pkt_0001"], true, fun _ _ => 0, 0⟩

def onePacket : Store String String :=
  run plainRules [.put (plainPacket "pkt_0001" "amber-birch" "a1" later []) (fun _ _ => 0)]

def afterJob (call : RetainCall) (store : Store String String) : Store String String :=
  (call.run oneJob store).toOption.getD store

theorem run_afterJob {call : RetainCall} {store : Store String String}
    (h : (call.run oneJob store).toOption.isSome = true) :
    call.run oneJob store = .ok (afterJob call store) := by
  obtain ⟨result, hresult⟩ := Option.isSome_iff_exists.mp h
  rw [afterJob, hresult, Option.getD_some]
  exact Ensures.ok_of_toOption hresult

def afterFirst : Store String String := afterJob (finished "job:b") onePacket

/-- Two jobs that end in the same tick of the clock. -/
def sameTick : List (RetainStep String String) :=
  [⟨onePacket, finished "job:b", afterFirst⟩,
    ⟨afterFirst, finished "job:a", afterJob (finished "job:a") afterFirst⟩]

theorem sameTick_run : JobRun oneJob sameTick (afterJob (finished "job:a") afterFirst) := by
  have hstart : JobRun oneJob [] onePacket := .start (by decide +kernel)
  have hfirst : JobRun oneJob [⟨onePacket, finished "job:b", afterFirst⟩] afterFirst :=
    .retain hstart (fun _ h => nomatch h) (run_afterJob (by decide +kernel))
  refine .retain hfirst (fun step hstep => ?_) (run_afterJob (by decide +kernel))
  rw [List.mem_singleton.mp hstep]
  exact le_rfl

theorem sameTick_kept_iff :
    (∀ earlier step later, sameTick = earlier ++ step :: later →
        KeepsJobs oneJob (earlier.map RetainStep.call) step) ↔
      ∀ earlier step later, sameTick = earlier ++ step :: later →
        TiesInOrder oneJob (earlier.map RetainStep.call) step :=
  jobs_are_kept_iff (by decide) sameTick_run

/-- The job that was retained last loses its pin to the one with the greater name. -/
theorem last_job_loses_its_pin :
    ∃ steps store, JobRun oneJob steps store ∧
      ¬∀ earlier step later, steps = earlier ++ step :: later →
        KeepsJobs oneJob (earlier.map RetainStep.call) step := by
  refine ⟨sameTick, _, sameTick_run, fun h => ?_⟩
  have hkeeps := h _ ⟨afterFirst, finished "job:a", afterJob (finished "job:a") afterFirst⟩ []
    (List.singleton_append (l := [_])).symm
  have hpinned : (⟨"job:a", "pkt_0001"⟩ : Pin) ∈ (finished "job:a").additions afterFirst := by
    decide +kernel
  have hkept := hkeeps.caller ⟨"job:a", "pkt_0001"⟩ (.inr hpinned) rfl
  change _ ∈ Table.rows _ at hkept
  revert hkept
  decide +kernel

end Example

end ProjectControl.Packets
