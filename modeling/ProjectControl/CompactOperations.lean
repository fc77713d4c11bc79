import ProjectControl.CompactTools
import ProjectControl.ResumptionLock

/-! `coordinate_task` in one process, with the renewal lock. A call reads its record before
it takes the lock, and under the lock it writes the operations back from that copy. -/

set_option autoImplicit false

namespace ProjectControl.Compact

open Resumption Resumption.Spec

/-- What a call holds when it takes the renewal lock. -/
structure Entrance where
  target : Target
  actionId : ActionId
  copy : Record

structure CoordinateCall where
  handle : Handle
  actionId : ActionId

structure CoordinateAnswer where
  call : CoordinateCall
  response : Response

/-- A program of one thread of the process. -/
abbrev Service (A : Type) := Prog (Locked ℕ (World A)) Input (Access Label Entrance) Err

section Calls

variable {A : Type} (N : NativeHost A) (c : Codec)

/-- `coordinate_task` on the record that was read. The actions that are not executed never
write the operations; that some of them take the lock as well only orders their steps. -/
def coordinateLocked (i : ℕ) (t : Target) (action : CoordinateAction) (fields : Dict)
    (record : Record) : Service A Response :=
  if action.executes then do
    Prog.ofExcept (checkCoordinate action record)
    Prog.withLock i ⟨t, ⟨action, fields⟩, record⟩
      (executeCoordinateAction N c t action fields record)
  else (coordinateRecorded N c t action fields record).inside

/-- `coordinate_task` with the lock, for thread `i`. -/
def coordinateTaskLocked (i : ℕ) (handle : Handle) (action : CoordinateAction) (fields : Dict) :
    Service A Response :=
  Prog.tryCatch
    (if c.dictBytes fields > 32 * 1024 then .fail (.workflow "workflow_payload_too_large")
    else do
      let (t, record) ← (resolveHandle c handle).inside
      coordinateLocked N c i t action fields record)
    (fun e => match e with
      | .workflow code => .done (.attention code (some handle))
      | .other => .done (.attention "compact_workflow_action_failed" (some handle)))

def CoordinateCall.program (i : ℕ) (call : CoordinateCall) : Service A CoordinateAnswer := do
  let response ← coordinateTaskLocked N c i call.handle call.actionId.action call.actionId.fields
  .done ⟨call, response⟩

/-- The threads of one process. What the native authority holds may change at any time. -/
def coordinateSystem {ω : Type} (env : A → ω → Option A) :
    System ℕ (Locked ℕ (World A)) Input (Access Label Entrance) Err CoordinateAnswer
      CoordinateCall ω where
  program := fun i call => call.program N c i
  crash := Locked.freed
  env := fun s e => (env s.shared.native e).map
    (fun a => { s with shared := { s.shared with native := a } })

end Calls

section Entries

variable {A : Type}

/-- The entry that the journal holds for an action of a handle. -/
def World.operation (s : World A) (h : Handle) (actionId : ActionId) : Option OperationEntry :=
  (s.journal.record h).bind (fun row => row.2.2.operation actionId)

/-- The journal holds this entry, which is complete. -/
def World.Completed (s : World A) (h : Handle) (actionId : ActionId) (entry : OperationEntry) :
    Prop :=
  s.operation h actionId = some entry ∧ entry.result.isSome

/-- The authority gave this result to a request for the action. -/
def Served (s : World A) (h : Handle) (actionId : ActionId) (d : Dict) : Prop :=
  ∃ m ∈ s.sent, m.reply.result = .ok d ∧
    ∃ record, coordinateArguments h actionId.action actionId.fields record = .ok m.payload

/-- The copy of a call that takes the lock shows the call's own action as complete, or it
has every complete entry that the journal holds. -/
def CopyCurrent (s : World A) (e : Entrance) : Prop :=
  (e.copy.operation e.actionId).bind OperationEntry.result ≠ none ∨
    ∀ actionId entry, s.Completed e.target.handle actionId entry →
      e.copy.operation actionId = some entry

/-- The call was answered with this result of its action. -/
def CoordinateAnswer.carried (a : CoordinateAnswer) (d : Dict) : Prop :=
  a.call.actionId.action.executes ∧
    a.response = .coordinated a.call.actionId.action a.call.handle (some d)

end Entries

section Steps

variable {A : Type} {s s' : World A} {t : Target} {h : Handle} {actionId : ActionId}

/-- Complete entries stay as they are. -/
def Keeps (s s' : World A) : Prop :=
  ∀ h actionId entry, s.Completed h actionId entry → s'.Completed h actionId entry

/-- The operations stay as they are, and no request is forgotten. -/
structure Leaves (s s' : World A) : Prop where
  operations : ∀ h actionId, s'.operation h actionId = s.operation h actionId
  sent : ∀ m ∈ s.sent, m ∈ s'.sent

/-- Every complete entry was there in `s₀`, or its result was served. -/
def Accounted (s₀ s : World A) : Prop :=
  ∀ h actionId entry d, s.operation h actionId = some entry → entry.result = some d →
    s₀.operation h actionId = some entry ∨ Served s h actionId d

theorem Leaves.keeps (hl : Leaves s s') : Keeps s s' :=
  fun h actionId _ hc => ⟨(hl.operations h actionId).trans hc.1, hc.2⟩

theorem Keeps.trans {s'' : World A} (h : Keeps s s') (h' : Keeps s' s'') : Keeps s s'' :=
  fun g actionId entry hc => h' g actionId entry (h g actionId entry hc)

theorem Served.mono {d : Dict} (hs : ∀ m ∈ s.sent, m ∈ s'.sent) (hd : Served s h actionId d) :
    Served s' h actionId d := by
  obtain ⟨m, hm, hrest⟩ := hd
  exact ⟨m, hs m hm, hrest⟩

theorem Accounted.leaves {s₀ : World A} (hs : Accounted s₀ s) (hl : Leaves s s') :
    Accounted s₀ s' := by
  intro h actionId entry d he hd
  rw [hl.operations] at he
  exact (hs h actionId entry d he hd).imp_right (Served.mono hl.sent)

theorem CopyCurrent.leaves {e : Entrance} (hl : Leaves s s') (hc : CopyCurrent s e) :
    CopyCurrent s' e := by
  refine hc.imp_right (fun hc actionId entry hs => hc actionId entry ⟨?_, hs.2⟩)
  rw [← hl.operations]
  exact hs.1

def operationRules (s₀ : World A) : Discipline (World A) Entrance where
  inv := Accounted s₀
  enters := CopyCurrent
  held := Keeps
  free := Leaves
  free_refl := fun _ => ⟨fun _ _ => rfl, fun _ hm => hm⟩
  free_held := fun _ _ hl => hl.keeps

theorem World.operation_of_holds {data : Record} (hd : s.Holds t data) (actionId : ActionId) :
    s.operation t.handle actionId = data.operation actionId := by
  simp [World.operation, hd]

theorem World.operation_put_of_ne (data : Record) (hne : h ≠ t.handle) : (s.put t.handle data).operation h actionId = s.operation h actionId := by
  rw [World.operation, World.record_put_of_ne data hne, World.operation]

/-- A record that is replaced by one with the same operations. -/
theorem leaves_put {old data : Record} (ho : s.Holds t old)
    (hd : data.operations = old.operations) : Leaves s (s.put t.handle data) := by
  refine ⟨fun h actionId => ?_, fun _ hm => hm⟩
  by_cases hh : h = t.handle
  · subst hh
    calc (s.put t.handle data).operation t.handle actionId
        = data.operation actionId := World.operation_of_holds (World.record_put ho data) actionId
      _ = old.operation actionId := by rw [Record.operation, hd, Record.operation]
      _ = s.operation t.handle actionId := (World.operation_of_holds ho actionId).symm
  · exact World.operation_put_of_ne data hh

theorem leaves_issue {old : Record} {name : PhaseName} {i : Intent} (ho : s.Holds t old) :
    Leaves s (s.issue t.handle name old i) :=
  have hl : Leaves s (s.put t.handle (old.setIntent name i)) := leaves_put ho rfl
  ⟨hl.operations, hl.sent⟩

theorem leaves_update {old changes : Record} (ho : s.Holds t old)
    (hc : changes.operations = none) : Leaves s (s.put t.handle (old.merge changes)) := by
  apply leaves_put ho
  rw [Record.merge, hc, Option.none_or]

theorem leaves_native {native : A} : Leaves s { s with native := native } :=
  ⟨fun _ _ => rfl, fun _ hm => hm⟩

theorem leaves_sent {native : A} {m : Sent} :
    Leaves s { s with native := native, sent := m :: s.sent } :=
  ⟨fun _ _ => rfl, fun _ hm => List.mem_cons_of_mem _ hm⟩

end Steps

section Held

/-- The journal as the holder of the renewal lock sees it. -/
abbrev heldOperations {A : Type} (s₀ : World A) : Spec Unit (World A) Label :=
  (operationRules s₀).heldSpec

variable {A : Type} {s₀ : World A} {N : NativeHost A} {c : Codec} {t : Target}
variable {B : World A → Prop} {record : Record} {name : PhaseName} {payload : Payload}

/-- The authority gave this result to this request. -/
def Replied (payload : Payload) (d : Dict) (s : World A) : Prop :=
  ∃ m ∈ s.sent, m.payload = payload ∧ m.reply.result = .ok d

theorem Replied.leaves {d : Dict} (s s' : World A) (hl : Leaves s s') (hd : Replied payload d s) :
    Replied payload d s' := by
  obtain ⟨m, hm, hrest⟩ := hd
  exact ⟨m, hl.sent m hm, hrest⟩

variable (hB : ∀ s s', Leaves s s' → B s → B s')

include hB

theorem stable_leaves : (heldOperations s₀).Stable () B := by
  rintro s s' ⟨-, -, ⟨j, hj, -⟩ | hl⟩ hb
  · exact absurd rfl hj
  · exact hB s s' hl hb

/-- A step of the holder that leaves the operations. -/
theorem held_leaves {s s' : World A} (hl : Leaves s s') (hs : Accounted s₀ s) (hb : B s) :
    (heldOperations s₀).inv s' ∧ (heldOperations s₀).guar () s s' ∧ B s' :=
  ⟨hs.leaves hl, hl.keeps, hB s s' hl hb⟩

theorem held_observe : (heldOperations s₀).Triple () B (observeRevision N t) (fun _ => B) := by
  refine triple_bind (M := fun _ => B) (triple_serveRead (stable_leaves hB)
    (fun _ => stable_leaves hB) (fun s v hs hb => ?_)) (fun d => ?_)
  · obtain ⟨h1, h2, h3⟩ := held_leaves hB leaves_native hs hb
    exact ⟨h1, h2, fun _ _ => h3⟩
  · split
    · exact triple_raise
    · split
      · exact triple_done (stable_leaves hB) (fun _ _ hb => hb)
      · exact triple_raise

theorem held_stored {latest : Record} {intent : Intent} :
    (heldOperations s₀).Triple () B (storedRequest record latest payload intent : Host A _)
      (fun _ => B) := by
  unfold storedRequest
  split
  · exact triple_raise
  · exact triple_done (stable_leaves hB) (fun _ _ hb => hb)

theorem held_phaseIntent {revision : Option ℕ} {key : Option Key} :
    (heldOperations s₀).Triple () B (phaseIntent N c t record name payload revision key)
      (fun _ => B) := by
  have hrefl : ∀ s, (heldOperations s₀).guar () s s := (operationRules s₀).held_refl
  unfold phaseIntent
  split
  · exact triple_raise
  · refine triple_bind (M := fun _ => B) (triple_storeGet hrefl (stable_leaves hB)
      (fun _ => stable_leaves hB) (fun _ _ _ hb _ => hb)) (fun latest => ?_)
    dsimp only
    split
    · exact held_stored hB
    · refine triple_bind (M := fun _ => B) ?_ (fun n => ?_)
      · cases revision with
        | some n => exact triple_done (stable_leaves hB) (fun _ _ hb => hb)
        | none => exact held_observe hB
      · refine triple_bind (M := fun _ => B) (triple_persistIntent hrefl (stable_leaves hB)
          (fun _ => stable_leaves hB) (fun _ _ _ hb _ => hb)
          (fun s old hs hb _ ho _ => held_leaves hB (leaves_issue ho) hs hb)) (fun current => ?_)
        split
        · exact held_stored hB
        · exact triple_fail

theorem held_refresh {rejected : Key × ℕ} :
    (heldOperations s₀).Triple () B (refreshPhaseIntent N c t record name payload rejected)
      (fun _ => B) := by
  refine triple_bind (held_observe hB) (fun revision => ?_)
  refine triple_bind (M := fun _ => B) (triple_refreshIntent (operationRules s₀).held_refl
    (stable_leaves hB) (fun _ => stable_leaves hB) (fun _ _ _ hb _ => hb)
    (fun s old i hs hb _ ho _ _ _ => held_leaves hB (leaves_issue ho) hs hb)) (fun current => ?_)
  exact triple_done (stable_leaves hB) (fun _ _ hb => hb)

theorem replied_and {d : Dict} (s s' : World A) (hl : Leaves s s') (hb : B s ∧ Replied payload d s) :
    B s' ∧ Replied payload d s' :=
  ⟨hB s s' hl hb.1, hb.2.leaves s s' hl⟩

theorem held_send {key : Key} {revision : ℕ} :
    (heldOperations s₀).Triple () B (invokeMutation N record payload key revision)
      (fun d s => B s ∧ Replied payload d s) := by
  refine triple_withScope (fun project repository => ?_)
  refine triple_serveMutation (stable_leaves hB) (fun d => stable_leaves (replied_and hB)) ?_
  intro s v hs hb _
  obtain ⟨h1, h2, h3⟩ := held_leaves hB leaves_sent hs hb
  exact ⟨h1, h2, fun d hd => ⟨h3, _, List.mem_cons_self, rfl, hd⟩⟩

/-- `_invoke_phase` under the lock: its result answers the request. -/
theorem held_phase {revision : Option ℕ} {key : Option Key} :
    (heldOperations s₀).Triple () B (invokePhase N c t record name payload revision key)
      (fun out s => B s ∧ Replied payload out.1 s) := by
  unfold invokePhase
  refine triple_bind (held_phaseIntent hB) (fun out => ?_)
  refine triple_bind (held_send hB) (fun result => ?_)
  dsimp only
  split
  · refine triple_bind (triple_pre (held_refresh hB) (fun _ _ h => h.1)) (fun u => ?_)
    refine triple_bind (held_phaseIntent hB) (fun out => ?_)
    refine triple_bind (held_send hB) (fun result => ?_)
    exact triple_done (stable_leaves (replied_and hB)) (fun _ _ h => h)
  · exact triple_done (stable_leaves (replied_and hB)) (fun _ _ h => h)

end Held

section Execution

variable {A : Type} {s₀ s : World A} {N : NativeHost A} {c : Codec} {t : Target}
variable {record : Record} {action : CoordinateAction} {fields : Dict} {payload : Payload}

/-- The complete entries of a copy are those of the journal. -/
def Backed (h : Handle) (record : Record) (s : World A) : Prop :=
  ∀ actionId entry, record.operation actionId = some entry → entry.result.isSome →
    s.operation h actionId = some entry

/-- The complete entries of the journal are those of a copy. -/
def Covered (h : Handle) (record : Record) (s : World A) : Prop :=
  ∀ actionId entry, s.Completed h actionId entry → record.operation actionId = some entry

/-- The journal holds the action as complete with this result. -/
def CarriedOut (h : Handle) (actionId : ActionId) (d : Dict) (s : World A) : Prop :=
  ∃ entry, s.operation h actionId = some entry ∧ entry.result = some d

/-- A response that names a result of the action names the recorded one. -/
def Carries (h : Handle) (actionId : ActionId) (response : Response) (s : World A) : Prop :=
  ∀ d, response = .coordinated actionId.action h (some d) → CarriedOut h actionId d s

theorem operation_update {old changes : Record} {operations : ActionId → Option OperationEntry}
    (ho : s.Holds t old) (hc : changes.operations = some operations) (actionId : ActionId) :
    (s.put t.handle (old.merge changes)).operation t.handle actionId = operations actionId := by
  rw [World.operation_of_holds (World.record_put ho _), Record.operation, Record.merge, hc]
  rfl

/-- New operations with every complete entry of the old ones. -/
theorem keeps_update {old changes : Record} {operations : ActionId → Option OperationEntry}
    (ho : s.Holds t old) (hc : changes.operations = some operations)
    (hk : ∀ actionId entry, s.Completed t.handle actionId entry →
      operations actionId = some entry) : Keeps s (s.put t.handle (old.merge changes)) := by
  intro h actionId entry he
  refine ⟨?_, he.2⟩
  by_cases hh : h = t.handle
  · subst hh
    exact (operation_update ho hc actionId).trans (hk actionId entry he)
  · exact (World.operation_put_of_ne _ hh).trans he.1

/-- New operations whose complete entries are old ones or were served. -/
theorem accounted_update {old changes : Record} {operations : ActionId → Option OperationEntry}
    (hs : Accounted s₀ s) (ho : s.Holds t old) (hc : changes.operations = some operations)
    (hk : ∀ actionId entry d, operations actionId = some entry → entry.result = some d →
      s.operation t.handle actionId = some entry ∨ Served s t.handle actionId d) :
    Accounted s₀ (s.put t.handle (old.merge changes)) := by
  intro h actionId entry d he hd
  by_cases hh : h = t.handle
  · subst hh
    rw [operation_update ho hc] at he
    rcases hk actionId entry d he hd with hk | hk
    · exact hs t.handle actionId entry d hk hd
    · exact Or.inr hk
  · rw [World.operation_put_of_ne _ hh] at he
    exact hs h actionId entry d he hd

theorem backed_keeps (s s' : World A) (hk : Keeps s s') (hb : Backed t.handle record s) :
    Backed t.handle record s' :=
  fun actionId entry he hr => (hk t.handle actionId entry ⟨hb actionId entry he hr, hr⟩).1

theorem covered_leaves (s s' : World A) (hl : Leaves s s') (hc : Covered t.handle record s) :
    Covered t.handle record s' := by
  intro actionId entry he
  refine hc actionId entry ⟨?_, he.2⟩
  rw [← hl.operations]
  exact he.1

theorem carriedOut_keeps {h : Handle} {actionId : ActionId} {d : Dict} (s s' : World A)
    (hk : Keeps s s') (hr : CarriedOut h actionId d s) : CarriedOut h actionId d s' := by
  obtain ⟨entry, he, hd⟩ := hr
  exact ⟨entry, (hk h actionId entry ⟨he, by simp [hd]⟩).1, hd⟩

theorem carries_keeps {h : Handle} {actionId : ActionId} (response : Response) (s s' : World A)
    (hk : Keeps s s') (hc : Carries h actionId response s) : Carries h actionId response s' :=
  fun d hd => carriedOut_keeps s s' hk (hc d hd)

theorem carries_leaves {h : Handle} {actionId : ActionId} (response : Response) (s s' : World A)
    (hl : Leaves s s') (hc : Carries h actionId response s) : Carries h actionId response s' :=
  carries_keeps response s s' hl.keeps hc

theorem carriedOut_leaves {h : Handle} {actionId : ActionId} {d : Dict} (s s' : World A)
    (hl : Leaves s s') (hr : CarriedOut h actionId d s) : CarriedOut h actionId d s' :=
  carriedOut_keeps s s' hl.keeps hr

theorem held_respond {h : Handle} {actionId : ActionId} {d : Dict} :
    (heldOperations s₀).Triple () (CarriedOut h actionId d)
      (respond c (.coordinated actionId.action h (some d)) : Host A Response)
      (Carries h actionId) := by
  refine triple_respond (stable_leaves (carries_leaves _)) (fun s hr d' hd' => ?_)
  cases hd'
  exact hr

/-- A response that names no result. -/
theorem held_attention {h : Handle} {actionId : ActionId} {response : Response}
    (hn : ∀ d, response ≠ .coordinated actionId.action h (some d)) {B : World A → Prop} :
    (heldOperations s₀).Triple () B (.done response : Host A Response) (Carries h actionId) :=
  triple_done (stable_leaves (carries_leaves _)) (fun _ _ _ d hd => absurd hd (hn d))

theorem held_integration {h : Handle} {actionId : ActionId} {result : IntegrationResult}
    {B : World A → Prop} :
    (heldOperations s₀).Triple () B (respond c (.integration h result) : Host A Response)
      (Carries h actionId) :=
  triple_respond (stable_leaves (carries_leaves _)) (fun _ _ d hd => by cases hd)

theorem held_replayOperation {d : Dict} :
    (heldOperations s₀).Triple () (CarriedOut t.handle ⟨action, fields⟩ d)
      (replayOperation c t action record d) (Carries t.handle ⟨action, fields⟩) := by
  have hupdate : ∀ {entered : Option Phase} {changes : Record}, changes.operations = none →
      (heldOperations s₀).Triple () (CarriedOut t.handle ⟨action, fields⟩ d)
        (storeUpdate c t entered changes) (fun _ => CarriedOut t.handle ⟨action, fields⟩ d) :=
    fun hc => triple_storeUpdate (operationRules s₀).held_refl (stable_leaves carriedOut_leaves)
      (fun _ => stable_leaves carriedOut_leaves)
      (fun s old hs hb _ ho => held_leaves carriedOut_leaves (leaves_update ho hc) hs hb)
  unfold replayOperation
  split
  · exact triple_bind (hupdate rfl) (fun _ => held_respond)
  · split
    · dsimp only
      split
      · exact triple_bind (hupdate rfl) (fun _ => held_respond)
      · exact held_integration
    · exact held_respond

theorem held_coordinateAnswer {d : Dict} :
    (heldOperations s₀).Triple () (CarriedOut t.handle ⟨action, fields⟩ d)
      (coordinateAnswer c t action record d) (Carries t.handle ⟨action, fields⟩) := by
  unfold coordinateAnswer
  split
  · exact held_integration
  · split
    · exact held_attention (fun _ hd => by cases hd)
    · exact held_respond

theorem coordinateChanges_operations {result : Dict}
    {operations : ActionId → Option OperationEntry} :
    (coordinateChanges action record result operations).operations = some operations := by
  cases action <;> simp only [coordinateChanges] <;> split <;> rfl

/-- The state after the operation was noted as pending. -/
def Pending (h : Handle) (operations : ActionId → Option OperationEntry) (payload : Payload)
    (d : Dict) (s : World A) : Prop :=
  (∀ actionId, s.operation h actionId = operations actionId) ∧ Replied payload d s

theorem pending_leaves {h : Handle} {operations : ActionId → Option OperationEntry} {d : Dict}
    (s s' : World A) (hl : Leaves s s') (hp : Pending h operations payload d s) :
    Pending h operations payload d s' :=
  ⟨fun actionId => (hl.operations h actionId).trans (hp.1 actionId), hp.2.leaves s s' hl⟩

/-- The operations of a copy with a new entry. -/
abbrev Record.withEntry (record : Record) (actionId : ActionId) (entry : OperationEntry) :
    ActionId → Option OperationEntry :=
  Function.update (record.operations.getD (fun _ => none)) actionId (some entry)

theorem withEntry_self {entry : OperationEntry} {actionId : ActionId} :
    record.withEntry actionId entry actionId = some entry :=
  Function.update_self ..

theorem withEntry_of_ne {entry : OperationEntry} {actionId other : ActionId}
    (hne : other ≠ actionId) : record.withEntry actionId entry other = record.operation other := by
  rw [Record.withEntry, Function.update_of_ne hne, Record.operation]
  cases record.operations <;> rfl

/-- The first update of an action that is not complete loses no complete entry. -/
theorem held_pending {entered : Option Phase} {entry : OperationEntry} {actionId : ActionId}
    {d : Dict} (hn : (record.operation actionId).bind OperationEntry.result = none)
    (he : entry.result = none) :
    (heldOperations s₀).Triple ()
      (fun s => (Backed t.handle record s ∧ Covered t.handle record s) ∧ Replied payload d s)
      (storeUpdate c t entered { operations := some (record.withEntry actionId entry) })
      (fun _ => Pending t.handle (record.withEntry actionId entry) payload d) := by
  refine triple_storeUpdate (operationRules s₀).held_refl (stable_leaves (fun s s' hl hb =>
    ⟨⟨backed_keeps s s' hl.keeps hb.1.1, covered_leaves s s' hl hb.1.2⟩, hb.2.leaves s s' hl⟩))
    (fun _ => stable_leaves pending_leaves) ?_
  rintro s old hs ⟨⟨hback, hcov⟩, hrep⟩ - ho
  refine ⟨accounted_update hs ho rfl ?_, keeps_update ho rfl ?_, operation_update ho rfl, hrep⟩
  · intro other entry' d' he' hd'
    by_cases hne : other = actionId
    · subst hne
      cases withEntry_self.symm.trans he'
      rw [he] at hd'
      cases hd'
    · rw [withEntry_of_ne hne] at he'
      exact Or.inl (hback other entry' he' (by simp [hd']))
  · intro other entry' hc
    have hcopy : record.operation other = some entry' := hcov other entry' hc
    by_cases hne : other = actionId
    · subst hne
      rw [hcopy, Option.bind_some] at hn
      have hsome := hc.2
      rw [hn] at hsome
      cases hsome
    · exact (withEntry_of_ne hne).trans hcopy

/-- The second update replaces the pending entry by the complete one. -/
theorem held_complete {entered : Option Phase} {changes : Record} {entry : OperationEntry}
    {operations : ActionId → Option OperationEntry} {actionId : ActionId} {d : Dict}
    (hp : ∃ r, coordinateArguments t.handle actionId.action actionId.fields r = .ok payload)
    (hn : ∀ entry, operations actionId = some entry → entry.result = none)
    (he : entry.result = some d)
    (hc : changes.operations = some (Function.update operations actionId (some entry))) :
    (heldOperations s₀).Triple () (Pending t.handle operations payload d)
      (storeUpdate c t entered changes) (fun _ => CarriedOut t.handle actionId d) := by
  refine triple_storeUpdate (operationRules s₀).held_refl (stable_leaves pending_leaves)
    (fun _ => stable_leaves carriedOut_leaves) ?_
  rintro s old hs ⟨hops, m, hm, hpay, hd⟩ - ho
  have hself : (s.put t.handle (old.merge changes)).operation t.handle actionId = some entry := by
    rw [operation_update ho hc, Function.update_self]
  refine ⟨accounted_update hs ho hc ?_, keeps_update ho hc ?_, entry, hself, he⟩
  · intro other entry' d' he' hd'
    by_cases hne : other = actionId
    · subst hne
      rw [Function.update_self] at he'
      cases he'
      cases he.symm.trans hd'
      obtain ⟨r, hr⟩ := hp
      exact Or.inr ⟨m, hm, hd, r, hpay ▸ hr⟩
    · rw [Function.update_of_ne hne, ← hops] at he'
      exact Or.inl he'
  · intro other entry' hcomp
    have hold : operations other = some entry' := (hops other).symm.trans hcomp.1
    by_cases hne : other = actionId
    · subst hne
      have := hcomp.2
      rw [hn entry' hold] at this
      cases this
    · rw [Function.update_of_ne hne]
      exact hold

theorem held_sendOperation
    (hn : (record.operation ⟨action, fields⟩).bind OperationEntry.result = none)
    (hp : coordinateArguments t.handle action fields record = .ok payload) :
    (heldOperations s₀).Triple ()
      (fun s => Backed t.handle record s ∧ Covered t.handle record s)
      (sendOperation N c t action fields record payload) (Carries t.handle ⟨action, fields⟩) := by
  have hkeep : ∀ s s' : World A, Leaves s s' →
      Backed t.handle record s ∧ Covered t.handle record s →
      Backed t.handle record s' ∧ Covered t.handle record s' :=
    fun s s' hl hb => ⟨backed_keeps s s' hl.keeps hb.1, covered_leaves s s' hl hb.2⟩
  unfold sendOperation
  refine triple_bind (held_phase hkeep) (fun out => ?_)
  dsimp only
  split
  · exact held_attention (fun _ hd => by cases hd)
  · refine triple_bind (triple_storeGet (operationRules s₀).held_refl
      (stable_leaves (replied_and hkeep)) (fun _ => stable_leaves (replied_and hkeep))
      (fun _ _ _ hb _ => hb)) (fun current => ?_)
    split
    · exact triple_raise
    · refine triple_bind (held_pending hn rfl) (fun _ => ?_)
      split
      · exact triple_raise
      · refine triple_bind (held_complete ⟨record, hp⟩ ?_ rfl coordinateChanges_operations)
          (fun _ => held_coordinateAnswer)
        intro entry he
        cases withEntry_self.symm.trans he
        rfl

theorem held_executeCoordinateAction :
    (heldOperations s₀).Triple () (fun s => Backed t.handle record s ∧
        CopyCurrent s ⟨t, ⟨action, fields⟩, record⟩)
      (executeCoordinateAction N c t action fields record)
      (Carries t.handle ⟨action, fields⟩) := by
  refine triple_bind (M := fun payload s => coordinateArguments t.handle action fields record =
    .ok payload ∧ Backed t.handle record s ∧ CopyCurrent s ⟨t, ⟨action, fields⟩, record⟩)
    (triple_ofExcept (fun _ => (stable_const _).and (stable_leaves (fun s s' hl hb =>
      ⟨backed_keeps s s' hl.keeps hb.1, CopyCurrent.leaves hl hb.2⟩)))
      (fun _ _ hp _ h => ⟨hp, h⟩)) (fun payload => ?_)
  rintro s hs ⟨hp, hback, hcur⟩
  split
  · rename_i d hd
    obtain ⟨entry, he, hr⟩ := Option.bind_eq_some_iff.mp hd
    exact held_replayOperation s hs ⟨entry, hback _ entry he (by simp [hr]), hr⟩
  · rename_i hn
    refine held_sendOperation hn hp s hs ⟨hback, ?_⟩
    exact hcur.resolve_left (fun h => h hn)

end Execution

section Process

variable {A : Type} {s₀ : World A} {N : NativeHost A} {c : Codec} {t : Target} {i : ℕ}

/-- The parts of the tools that the actions outside the lock may run. -/
def unexecutedParts (part : Part) : Prop := part = .resume ∨ part = .verify ∨ part = .finish

theorem unexecuted_operations {part : Part} {r₀ r changes : Record} {entered : Option Phase}
    {answer : Payload → Dict → Prop} {merged : Prop} (hp : unexecutedParts part)
    (hw : Writes c t r₀ r answer merged part entered changes) : changes.operations = none := by
  cases hw with
  | recovered | integrated | pending | coordinated => rcases hp with h | h | h <;> cases h
  | resumed | renewed | context | finish | handedBack | reported | released => rfl

/-- A thread outside the lock needs to know nothing. -/
def nothingKnown : Knowledge A where
  copy := fun _ _ _ => True
  merged := fun _ _ _ _ => True
  request := fun _ _ _ _ _ => True
  answer := fun _ _ _ => True

theorem unexecutedRules (N : NativeHost A) (c : Codec) :
    HostRules (operationRules s₀).freeSpec () N c nothingKnown unexecutedParts
      (fun _ => True) where
  refl := (operationRules s₀).free_refl
  copy_stable := fun _ _ => stable_true
  merged_stable := fun _ _ _ => stable_true
  request_stable := fun _ _ _ _ => stable_true
  answer_stable := fun _ _ => stable_true
  learn := fun _ _ _ => trivial
  relearn := fun _ _ _ => trivial
  scope := fun _ => trivial
  merge := fun _ _ _ => trivial
  fresh := fun _ _ _ _ _ => trivial
  known := fun _ _ _ _ => trivial
  merged_copy := fun _ => trivial
  read := fun _ _ hs _ =>
    ⟨Accounted.leaves hs leaves_native, leaves_native, fun _ _ _ => trivial⟩
  persist := fun _ _ hs _ _ _ ho _ =>
    ⟨Accounted.leaves hs (leaves_issue ho), leaves_issue ho, fun _ _ => trivial⟩
  refresh := fun _ _ hs _ _ ho _ _ _ =>
    ⟨Accounted.leaves hs (leaves_issue ho), leaves_issue ho, fun _ _ => trivial⟩
  send := fun _ _ hs _ _ _ => ⟨Accounted.leaves hs leaves_sent, leaves_sent,
    fun _ _ => trivial, fun _ _ _ => trivial, fun _ _ => trivial⟩
  update := fun hp hw hs _ _ _ ho =>
    have hl := leaves_update ho (unexecuted_operations hp hw)
    ⟨Accounted.leaves hs hl, hl, trivial⟩
  overwrite := fun hp => by rcases hp with h | h | h <;> cases h
  note := fun hp => by rcases hp with h | h | h <;> cases h
  select := fun hp => by rcases hp with h | h | h <;> cases h
  reserve := fun hp => by rcases hp with h | h | h <;> cases h
  review := fun _ hp => by rcases hp with h | h | h <;> cases h

/-- What a call promises of its response. -/
def CoordinateCall.Promise (call : CoordinateCall) (response : Response) (s : World A) : Prop :=
  call.actionId.action.executes → Carries call.handle call.actionId response s

theorem promise_keeps {call : CoordinateCall} (response : Response) (s s' : World A)
    (hk : Keeps s s') (hp : call.Promise response s) : call.Promise response s' :=
  fun he => carries_keeps response s s' hk (hp he)

/-- The process as one of its threads sees it. -/
abbrev lockedOperations (s₀ : World A) :
    Spec ℕ (Locked ℕ (World A)) (Access Label Entrance) :=
  (operationRules s₀).spec

theorem triple_coordinateLocked {action : CoordinateAction} {fields : Dict} {record : Record} :
    (lockedOperations s₀).Triple i (fun s => Backed t.handle record s.shared)
      (coordinateLocked N c i t action fields record)
      (fun response s =>
        (⟨t.handle, ⟨action, fields⟩⟩ : CoordinateCall).Promise response s.shared) := by
  unfold coordinateLocked
  split
  · refine triple_bind (M := fun _ s => Backed t.handle record s.shared) ?_ (fun _ => ?_)
    · cases checkCoordinate action record with
      | ok a => exact triple_done (Discipline.stable_free backed_keeps) (fun _ _ h => h)
      | error e => exact triple_fail
    · exact triple_post (Discipline.triple_withLock backed_keeps carries_keeps
        (fun _ _ hl hc => hc.leaves hl) held_executeCoordinateAction) (fun _ _ h _ => h)
  · rename_i he
    refine triple_post (triple_pre (Discipline.triple_inside_free (B := fun _ => True)
      (triple_unexecuted (unexecutedRules N c) (fun _ _ => trivial) (Or.inl rfl)
        (Or.inr (Or.inl rfl)) (Or.inr (Or.inr rfl)) (Bool.eq_false_iff.mpr he))) ?_) ?_
    · exact fun _ _ _ => trivial
    · exact fun _ _ _ hx => absurd hx he

/-- The complete entries of the record that a call reads are those of the journal. -/
theorem free_resolveHandle {handle : Handle} :
    ((operationRules s₀).freeSpec (ℓ := Label)).Triple () (fun _ => True)
      (resolveHandle c handle)
      (fun out s => out.1.handle = handle ∧ Backed out.1.handle out.2 s) := by
  refine triple_resolveHandle (operationRules s₀).free_refl stable_true (fun out => ?_) ?_
  · rintro s s' ⟨-, -, ⟨j, hj, -⟩ | hk⟩ hb
    · exact absurd rfl hj
    · exact ⟨hb.1, fun actionId entry he hr =>
        (hk out.1.handle actionId entry ⟨hb.2 actionId entry he hr, hr⟩).1⟩
  · intro s p r data _ _ hd
    refine ⟨rfl, fun actionId entry he _ => ?_⟩
    calc s.operation handle actionId
        = data.operation actionId := by simp [World.operation, hd]
      _ = some entry := he

theorem triple_coordinateTaskLocked {call : CoordinateCall} :
    (lockedOperations s₀).Triple i (fun _ => True)
      (coordinateTaskLocked N c i call.handle call.actionId.action call.actionId.fields)
      (fun response s => call.Promise response s.shared) := by
  refine triple_tryCatch ?_ (fun e => ?_)
  · split
    · exact triple_fail
    · refine triple_bind (triple_pre (Discipline.triple_inside_free free_resolveHandle)
        (fun _ _ _ => trivial)) (fun out => ?_)
      rintro s hs ⟨hh, hb⟩
      have hlocked : (lockedOperations s₀).Triple i _
          (coordinateLocked N c i out.1 call.actionId.action call.actionId.fields out.2) _ :=
        triple_coordinateLocked
      exact (hlocked s hs hb).mono (fun _ _ hp => by rwa [hh] at hp)
  · split
    · exact triple_done (Discipline.stable_free (promise_keeps _)) (fun _ _ _ _ d hd => by cases hd)
    · exact triple_done (Discipline.stable_free (promise_keeps _)) (fun _ _ _ _ d hd => by cases hd)

theorem triple_program {call : CoordinateCall} :
    (lockedOperations s₀).Triple i (fun _ => True) (call.program N c i)
      (fun a s => a.call.Promise a.response s.shared) :=
  triple_bind triple_coordinateTaskLocked (fun response =>
    triple_done (Discipline.stable_free (promise_keeps response)) (fun _ _ h => h))

theorem coordinateSystem_sound {ω : Type} (env : A → ω → Option A) :
    (lockedOperations s₀).Sound (coordinateSystem N c env) where
  crash := fun i _ hs => ⟨Discipline.inv_freed (D := operationRules s₀) i hs, Discipline.guar_freed i _⟩
  env := by
    rintro s e s' hs he
    obtain ⟨a, -, rfl⟩ := Option.map_eq_some_iff.mp he
    exact ⟨Accounted.leaves hs leaves_native, rfl, leaves_native⟩
  program := fun _ _ => triple_post triple_program (fun _ _ _ => trivial)

end Process

section Runs

variable {A ω : Type} (N : NativeHost A) (c : Codec) (env : A → ω → Option A)

/-- In a run of the process whose calls take the lock with current copies only, complete
entries stay, a new one has the result that the authority gave, and a call that is answered
with a result of its action has left it in the journal. -/
theorem operations_kept {p q q' : Pool ℕ (Locked ℕ (World A)) Input (Access Label Entrance) Err
      CoordinateAnswer} (hidle : ∀ i, p.threads i = none)
    (hq : (coordinateSystem N c env).Reach (EntersWith CopyCurrent) p q)
    (hq' : (coordinateSystem N c env).Reach (EntersWith CopyCurrent) q q') :
    (∀ h actionId entry, q.shared.shared.Completed h actionId entry →
      q'.shared.shared.Completed h actionId entry) ∧
    (∀ h actionId entry, q.shared.shared.Completed h actionId entry →
      p.shared.shared.Completed h actionId entry ∨
        ∃ d, entry.result = some d ∧ Served q.shared.shared h actionId d) ∧
    ∀ i a d, q.threads i = some (.done a) → a.carried d →
      CarriedOut a.call.handle a.call.actionId d q.shared.shared := by
  have hsound : (lockedOperations p.shared.shared).Sound (coordinateSystem N c env) :=
    coordinateSystem_sound env
  have hstart : (lockedOperations p.shared.shared).PoolEnsures
      (fun _ a s => a.call.Promise a.response s.shared) p :=
    poolEnsures_of_idle (fun _ _ _ _ he _ => Or.inl he) hidle
  have hmid : (lockedOperations p.shared.shared).PoolEnsures
      (fun _ a s => a.call.Promise a.response s.shared) q :=
    poolEnsures_reach hsound (fun _ _ => triple_program) hstart hq
  have hsafe : (lockedOperations p.shared.shared).PoolSafe q :=
    poolSafe_reach hsound (poolSafe_of_idle hstart.1 hidle) hq
  refine ⟨?_, fun h actionId entry he => ?_, fun i a d ht ha => ?_⟩
  · exact Discipline.reach_shared hsound (T := Keeps) (fun _ _ _ _ he => he)
      (fun _ _ _ h h' => h.trans h') (fun _ _ h => h) hsafe hq'
  · obtain ⟨d, hd⟩ := Option.isSome_iff_exists.mp he.2
    rcases hmid.1 h actionId entry d he.1 hd with h0 | h0
    · exact Or.inl ⟨h0, he.2⟩
    · exact Or.inr ⟨d, hd, h0⟩
  · exact hmid.returned ht ha.1 d ha.2

end Runs

section Examples

/-- A service with one active handle. -/
def activeService : Pool ℕ (Locked ℕ (World Unit)) Input (Access Label Entrance) Err
    CoordinateAnswer where
  shared := { shared := {
    journal := [.workflow "wf" "atlas" "main" { phase := some .active, attemptId := some "A1" }]
    native := () } }
  threads := fun _ => none

def wholeInbox : ActionId := ⟨.sync, []⟩

def shortInbox : ActionId := ⟨.sync, [("limit", .num 5)]⟩

/-- The answer of the authority to the request of thread `i`. -/
def inbox (i : ℕ) : Dict := [("semantic_revision", .num 5), ("messages", .num i)]

/-- Thread `i` goes on by `n` steps. -/
def goesOn (n i : ℕ) : List (Action ℕ Input CoordinateCall Empty) :=
  List.replicate n (.act i { reply := .ok (inbox i) })

/-- The result that a thread was answered with. -/
def Response.result : Response → Option Dict
  | .coordinated _ _ result => result
  | _ => none

def answerOf (q : Pool ℕ (Locked ℕ (World Unit)) Input (Access Label Entrance) Err
    CoordinateAnswer) (i : ℕ) : Option Dict :=
  match q.threads i with
  | some (.done a) => a.response.result
  | _ => none

/-- Both calls read the record before one of them takes the lock. -/
def bothReadFirst : List (Action ℕ Input CoordinateCall Empty) :=
  .start 0 ⟨"wf", wholeInbox⟩ :: .start 1 ⟨"wf", shortInbox⟩ :: goesOn 1 0 ++ goesOn 1 1 ++
    goesOn 9 0 ++ goesOn 9 1

/-- The second call reads the record between the two updates of the first one. -/
def readsPending : List (Action ℕ Input CoordinateCall Empty) :=
  .start 0 ⟨"wf", wholeInbox⟩ :: .start 1 ⟨"wf", shortInbox⟩ :: goesOn 8 0 ++ goesOn 1 1 ++
    goesOn 2 0

/-- What the journal holds of the first action: the result of its entry, if it has one. -/
def firstEntry (q : Pool ℕ (Locked ℕ (World Unit)) Input (Access Label Entrance) Err
    CoordinateAnswer) : Option (Option Dict) :=
  (q.shared.shared.operation "wf" wholeInbox).map OperationEntry.result

theorem stale_copy_loses_entries :
    (∃ q, (coordinateSystem anyHost .small (fun _ (e : Empty) => nomatch e)).Reach
        System.anyStep activeService q ∧
      [answerOf q 0, answerOf q 1] = [some (inbox 0), some (inbox 1)] ∧ firstEntry q = none) ∧
    ∃ q q', (coordinateSystem anyHost .small (fun _ (e : Empty) => nomatch e)).Reach
        System.anyStep activeService q ∧
      (coordinateSystem anyHost .small (fun _ (e : Empty) => nomatch e)).Reach
        System.anyStep q q' ∧
      [answerOf q 0, answerOf q' 1] = [some (inbox 0), some (inbox 1)] ∧
      firstEntry q = some (some (inbox 0)) ∧ firstEntry q' = some none := by
  constructor
  · obtain ⟨q, hq, hf⟩ := System.exists_reach
      (coordinateSystem anyHost .small (fun _ (e : Empty) => nomatch e)) System.anyStep
      bothReadFirst (p := activeService)
      (f := fun q => [some (answerOf q 0), some (answerOf q 1), firstEntry q])
      (b := [some (some (inbox 0)), some (some (inbox 1)), none]) (by decide +kernel)
    simp only [List.cons.injEq, Option.some.injEq] at hf
    exact ⟨q, hq, by rw [hf.1, hf.2.1], hf.2.2.1⟩
  · obtain ⟨q, q', hq, hq', hf⟩ := System.exists_reach_pair
      (coordinateSystem anyHost .small (fun _ (e : Empty) => nomatch e)) System.anyStep
      readsPending (goesOn 9 1) (p := activeService)
      (f := fun q q' => [some (answerOf q 0), some (answerOf q' 1), firstEntry q, firstEntry q'])
      (b := [some (some (inbox 0)), some (some (inbox 1)), some (some (inbox 0)), some none])
      (by decide +kernel)
    simp only [List.cons.injEq, Option.some.injEq] at hf
    exact ⟨q, q', hq, hq', by rw [hf.1, hf.2.1], hf.2.2.1, hf.2.2.2.1⟩

/-- Calls take the lock before the first operation, or for an operation that is complete. -/
def FirstOrAgain (s : World Unit) (e : Entrance) : Prop :=
  (e.copy.operation e.actionId).bind OperationEntry.result ≠ none ∨
    (s.journal.record e.target.handle).all (fun row => row.2.2.operations.isNone)

instance (s : World Unit) (e : Entrance) : Decidable (FirstOrAgain s e) :=
  inferInstanceAs (Decidable (_ ∨ _))

instance (s : Locked ℕ (World Unit)) :
    (l : Access Label Entrance) → Decidable (EntersWith FirstOrAgain s l)
  | .acquire e => inferInstanceAs (Decidable (FirstOrAgain s.shared e))
  | .inner _ | .release => isTrue trivial

theorem FirstOrAgain.current {s : World Unit} {e : Entrance} (h : FirstOrAgain s e) :
    CopyCurrent s e := by
  refine h.imp_right (fun hn actionId entry hc => ?_)
  obtain ⟨row, hr, he⟩ := Option.bind_eq_some_iff.mp hc.1
  rw [hr, Option.all_some, Option.isNone_iff_eq_none] at hn
  rw [Record.operation, hn] at he
  cases he

/-- A call and then the same call again, which finds its action complete. -/
def oneAfterTheOther : List (Action ℕ Input CoordinateCall Empty) :=
  .start 0 ⟨"wf", wholeInbox⟩ :: goesOn 10 0 ++ .start 1 ⟨"wf", wholeInbox⟩ :: goesOn 3 1

theorem repeated_call_is_carried_out :
    ∃ q, (coordinateSystem anyHost .small (fun _ (e : Empty) => nomatch e)).Reach
        (EntersWith CopyCurrent) activeService q ∧
      [answerOf q 0, answerOf q 1] = [some (inbox 0), some (inbox 0)] ∧
      ∀ h actionId entry, q.shared.shared.Completed h actionId entry →
        activeService.shared.shared.Completed h actionId entry ∨
          ∃ d, entry.result = some d ∧ Served q.shared.shared h actionId d := by
  obtain ⟨q, hq, hf⟩ := System.exists_reach
    (coordinateSystem anyHost .small (fun _ (e : Empty) => nomatch e)) (EntersWith FirstOrAgain)
    oneAfterTheOther (p := activeService) (f := fun q => [answerOf q 0, answerOf q 1])
    (b := [some (inbox 0), some (inbox 0)]) (by decide +kernel)
  have hreach : (coordinateSystem anyHost .small (fun _ (e : Empty) => nomatch e)).Reach
      (EntersWith CopyCurrent) activeService q :=
    System.Reach.mono _ (fun s l hl => by cases l <;> first | exact hl.current | trivial) hq
  exact ⟨q, hreach, hf, (operations_kept anyHost .small _ (fun _ => rfl) hreach
    Relation.ReflTransGen.refl).2.1⟩

end Examples

end ProjectControl.Compact
