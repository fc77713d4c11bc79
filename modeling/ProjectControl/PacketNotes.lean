import ProjectControl.PacketRetention

/-! What the notebook guarantees over every run: the evidence of a note stays readable, and a
note keeps the scope, project and creation time that its first put gave it. -/

set_option autoImplicit false

namespace ProjectControl.Packets

open Sql

variable {V J : Type} {rules : Rules V J} {store store' : Store V J}

section Owners

/-- The owners of the form `note:<id>`. -/
def NoteOwner (owner : String) : Prop := ∃ id, owner = noteOwner id

theorem noteOwner_injective {a b : String} (h : noteOwner a = noteOwner b) : a = b := by
  have hlist := congrArg String.toList h
  simp only [noteOwner, String.toList_append] at hlist
  exact String.toList_inj.mp (List.append_cancel_left hlist)

/-- The owners that a call to `pin`, `unpin`, `retain_job` or `reconcile_retention` names. -/
def Operation.owners : Operation V J → List String
  | .pin owner _ _ | .unpin owner | .retainJob owner _ _ _ _ => [owner]
  | .reconcileRetention retained unpinOwners _ => retained.map Prod.fst ++ unpinOwners
  | .create _ _ _ | .put _ _ | .putNote _ _ _ _ _ | .deleteNote _ _ | .gc _ => []

/-- The notebook is left alone: no note changes and no pin of a note is lost. -/
structure KeepsNotes (store store' : Store V J) : Prop where
  notes : store'.notes = store.notes
  pins : ∀ pin ∈ store.pins, NoteOwner pin.owner → pin ∈ store'.pins
  retention : ∀ row ∈ store'.retention, NoteOwner row.owner → row ∈ store.retention

theorem KeepsNotes.refl (store : Store V J) : KeepsNotes store store :=
  ⟨rfl, fun _ h _ => h, fun _ h _ => h⟩

theorem KeepsNotes.trans {a b c : Store V J} (hab : KeepsNotes a b) (hbc : KeepsNotes b c) :
    KeepsNotes a c :=
  ⟨hbc.notes.trans hab.notes, fun pin h ho => hbc.pins pin (hab.pins pin h ho) ho,
    fun row h ho => hab.retention row (hbc.retention row h ho) ho⟩

theorem keepsNotes_pinned (store : Store V J) (new : List Pin) :
    KeepsNotes store (store.pinned new) :=
  ⟨rfl, fun _ h _ => mem_pinAll.mpr (.inl h), fun _ h _ => h⟩

theorem mem_unpin {owner : String} {pin : Pin} :
    pin ∈ (store.unpin owner).pins ↔ pin ∈ store.pins ∧ pin.owner ≠ owner := by
  refine (Table.mem_delete pin).trans (and_congr_right (fun _ => ?_))
  simp

theorem keepsNotes_unpin {owner : String} (h : ¬ NoteOwner owner) :
    KeepsNotes store (store.unpin owner) := by
  refine ⟨rfl, fun pin hpin howner => mem_unpin.mpr ⟨hpin, fun heq => ?_⟩, fun _ h _ => h⟩
  exact h (heq ▸ howner)

theorem keepsNotes_foldl_unpin {owners : List String} (h : ∀ owner ∈ owners, ¬ NoteOwner owner) :
    KeepsNotes store (owners.foldl Store.unpin store) := by
  induction owners generalizing store with
  | nil => exact .refl store
  | cons owner rest ih =>
    have hfirst : KeepsNotes store (store.unpin owner) := keepsNotes_unpin (h owner List.mem_cons_self)
    exact hfirst.trans (ih (fun o ho => h o (List.mem_cons_of_mem _ ho)))

theorem keepsNotes_forgetOwner {owner : String} (h : ¬ NoteOwner owner) :
    KeepsNotes store (forgetOwner store owner) :=
  ⟨rfl, (keepsNotes_unpin h).pins, fun row hrow _ => ((Table.mem_delete row).mp hrow).1⟩

theorem keepsNotes_foldl_forgetOwner {owners : List String}
    (h : ∀ owner ∈ owners, ¬ NoteOwner owner) :
    KeepsNotes store (owners.foldl forgetOwner store) := by
  induction owners generalizing store with
  | nil => exact .refl store
  | cons owner rest ih =>
    have hfirst : KeepsNotes store (forgetOwner store owner) :=
      keepsNotes_forgetOwner (h owner List.mem_cons_self)
    exact hfirst.trans (ih (fun o ho => h o (List.mem_cons_of_mem _ ho)))

end Owners

section Frame

variable [DecidableEq J] {p : Packet V J} {extra : Option J} {clock : Clock}

theorem keepsNotes_insertPacket : Ensures (insertPacket rules store clock p extra)
    (KeepsNotes store) := by
  unfold insertPacket
  refine Ensures.ite (fun _ => Ensures.error) (fun _ => ?_)
  refine Ensures.bind (P := fun _ => True) (fun _ _ => trivial) (fun _ _ => ?_)
  split
  · exact Ensures.throw
  · exact Ensures.pure ⟨rfl, fun _ h _ => mem_pinAll.mpr (.inl h), fun _ h _ => h⟩

theorem keepsNotes_putPacket : Ensures (putPacket rules store clock p extra)
    (fun out => KeepsNotes store out.2) := by
  unfold putPacket
  refine Ensures.bind (P := fun _ => True) (fun _ _ => trivial) (fun _ _ => ?_)
  split
  · exact Ensures.ite (fun _ => Ensures.throw) (fun _ => Ensures.pure (.refl store))
  · exact Ensures.bind keepsNotes_insertPacket (fun _ h => Ensures.pure h)

theorem keepsNotes_create {request : CreateRequest V J} {now : ℚ} {attempts : ℕ → Attempt} :
    Ensures (create rules store request now attempts) (fun out => KeepsNotes store out.2) := by
  refine Ensures.ite (fun _ => Ensures.error) (fun _ => ?_)
  generalize (List.range 4096).map attempts = attempts
  induction attempts with
  | nil => exact Ensures.throw
  | cons attempt rest ih =>
    unfold createFrom
    split
    · exact ih
    · exact keepsNotes_putPacket

omit [DecidableEq J] in
theorem keepsNotes_pin {owner : String} {references : List String} :
    Ensures (pin rules store clock owner references) (KeepsNotes store) := by
  refine Ensures.foldlM (.refl store) (fun db reference _ hdb => ?_)
  unfold pinReference
  split
  · exact Ensures.throw
  · exact Ensures.ite (fun _ => Ensures.throw)
      (fun _ => Ensures.pure (hdb.trans (keepsNotes_pinned db _)))

omit [DecidableEq J] in
theorem keepsNotes_retainJob {now : ℚ} {owner : String} {references : List String}
    {terminal : Bool} (howner : ¬ NoteOwner owner)
    (hretention : ∀ row ∈ store.retention, ¬ NoteOwner row.owner) :
    Ensures (retainJob rules store clock now owner references terminal) (KeepsNotes store) := by
  refine Ensures.bind keepsNotes_pin (fun db hdb => ?_)
  dsimp only
  split
  · exact Ensures.throw
  · rename_i retention hinsert
    have hkeeps : KeepsNotes store { db with retention := retention } := by
      refine ⟨hdb.notes, hdb.pins, fun row hrow hnote => ?_⟩
      rcases (Table.mem_insert? hinsert row).mp hrow with hrow | rfl
      · exact hdb.retention row ((Table.mem_delete row).mp hrow).1 hnote
      · exact absurd hnote howner
    refine Ensures.pure (hkeeps.trans (keepsNotes_foldl_forgetOwner (fun stale hstale hnote => ?_)))
    obtain ⟨row, hrow, rfl⟩ := List.mem_map.mp hstale
    have hsorted := List.mem_of_mem_drop hrow
    have hmem := (List.mem_filter.mp ((List.mem_insertionSort _).mp hsorted)).1
    exact hretention row (hkeeps.retention row hmem hnote) hnote

/-- The calls that are not about notes leave the notebook alone. -/
theorem keepsNotes_execute {op : Operation V J} (howners : ∀ owner ∈ op.owners, ¬ NoteOwner owner)
    (hretention : ∀ row ∈ store.retention, ¬ NoteOwner row.owner)
    (hput : ∀ record scope userGoal now clock, op ≠ .putNote record scope userGoal now clock)
    (hdelete : ∀ noteId scope, op ≠ .deleteNote noteId scope) :
    Ensures (execute rules store op) (fun out => KeepsNotes store out.2) := by
  cases op with
  | create request now attempts =>
    exact Ensures.bind keepsNotes_create (fun _ h => Ensures.pure h)
  | put p clock => exact Ensures.bind keepsNotes_putPacket (fun _ h => Ensures.pure h)
  | pin owner references clock => exact Ensures.bind keepsNotes_pin (fun _ h => Ensures.pure h)
  | unpin owner => exact Ensures.pure (keepsNotes_unpin (howners owner List.mem_cons_self))
  | retainJob owner references terminal now clock =>
    have howner := howners owner List.mem_cons_self
    exact Ensures.bind (keepsNotes_retainJob howner hretention) (fun _ h => Ensures.pure h)
  | reconcileRetention retained unpinOwners clock =>
    refine Ensures.bind (P := KeepsNotes store) ?_ (fun _ h => Ensures.pure h)
    refine Ensures.bind (P := fun _ => True) (fun _ _ => trivial) (fun found _ => Ensures.pure ?_)
    refine (keepsNotes_pinned store found.pins).trans (keepsNotes_foldl_unpin ?_)
    exact fun owner howner => howners owner (List.mem_append_right _ howner)
  | putNote record scope userGoal now clock => exact absurd rfl (hput record scope userGoal now clock)
  | deleteNote noteId scope => exact absurd rfl (hdelete noteId scope)
  | gc clock => exact Ensures.pure ⟨rfl, fun _ h _ => h, fun _ h _ => h⟩

omit [DecidableEq J] in
theorem notes_foldl_forgetOwner (owners : List String) (store : Store V J) :
    (owners.foldl forgetOwner store).notes = store.notes := by
  induction owners generalizing store with
  | nil => rfl
  | cons owner rest ih => exact ih (forgetOwner store owner)

/-- Only the calls about notes change a note, whatever owners the others name. -/
theorem notes_execute {op : Operation V J}
    (hput : ∀ record scope userGoal now clock, op ≠ .putNote record scope userGoal now clock)
    (hdelete : ∀ noteId scope, op ≠ .deleteNote noteId scope) :
    Ensures (execute rules store op) (fun out => out.2.notes = store.notes) := by
  cases op with
  | create request now attempts =>
    exact Ensures.bind keepsNotes_create (fun _ h => Ensures.pure h.notes)
  | put p clock => exact Ensures.bind keepsNotes_putPacket (fun _ h => Ensures.pure h.notes)
  | pin owner references clock => exact Ensures.bind keepsNotes_pin (fun _ h => Ensures.pure h.notes)
  | unpin owner => exact Ensures.pure rfl
  | retainJob owner references terminal now clock =>
    refine Ensures.bind (P := fun out : Store V J => out.notes = store.notes) ?_
      (fun _ h => Ensures.pure h)
    refine Ensures.bind keepsNotes_pin (fun db hdb => ?_)
    dsimp only
    split
    · exact Ensures.throw
    · exact Ensures.pure ((notes_foldl_forgetOwner _ _).trans hdb.notes)
  | reconcileRetention retained unpinOwners clock =>
    refine Ensures.bind (P := fun out : Store V J => out.notes = store.notes) ?_
      (fun _ h => Ensures.pure h)
    refine Ensures.bind (P := fun _ => True) (fun _ _ => trivial) (fun found _ => Ensures.pure ?_)
    rw [foldl_unpin_eq]
  | putNote record scope userGoal now clock => exact absurd rfl (hput record scope userGoal now clock)
  | deleteNote noteId scope => exact absurd rfl (hdelete noteId scope)
  | gc clock => exact Ensures.pure rfl

end Frame

section Put

variable [DecidableEq J] {record value : Note J} {scope : Scope J} {userGoal : Bool} {now : ℚ}
  {clock : String → ℚ}

omit [DecidableEq J] in
/-- What the validation of a note can change of it. -/
theorem ensures_validateNote : Ensures (validateNote rules userGoal record) (fun value =>
    value.noteId = record.noteId ∧ value.project = record.project ∧
      (value.provenance = "user" ↔ userGoal = true)) := by
  unfold validateNote
  refine Ensures.ite (fun _ => Ensures.error) (fun htrusted => ?_)
  refine Ensures.ite (fun _ => Ensures.error) (fun _ => ?_)
  refine Ensures.ite (fun _ => Ensures.error) (fun _ => ?_)
  refine Ensures.bind (P := fun _ => True) (fun _ _ => trivial) (fun _ _ => ?_)
  refine Ensures.ite (fun _ => Ensures.error) (fun _ => ?_)
  refine Ensures.ite (fun _ => Ensures.error) (fun _ => ?_)
  refine Ensures.ite (fun _ => Ensures.error) (fun _ => ?_)
  refine Ensures.ite (fun _ => Ensures.error) (fun _ => ?_)
  refine Ensures.bind (P := fun _ => True) (fun _ _ => trivial) (fun details _ => ?_)
  refine Ensures.ite (fun _ => Ensures.error) (fun _ => ?_)
  refine Ensures.ite (fun _ => Ensures.error) (fun _ => ?_)
  refine Ensures.ite (fun _ => Ensures.error) (fun _ => Ensures.pure ?_)
  cases userGoal with
  | true => exact ⟨rfl, rfl, iff_of_true rfl rfl⟩
  | false =>
    refine ⟨rfl, rfl, iff_of_false (fun huser => htrusted ?_) Bool.false_ne_true⟩
    have huser' : record.provenance = "user" := huser
    simp [huser']

theorem ensures_insertPins {new : List Pin} {pins : Table Pin (· ≠ ·)} :
    Ensures (new.foldlM insertPin pins) (fun pins' =>
      ∀ pin, pin ∈ pins' ↔ pin ∈ pins ∨ pin ∈ new) := by
  induction new generalizing pins with
  | nil => exact Ensures.pure (fun pin => by simp)
  | cons first rest ih =>
    refine Ensures.bind (P := fun pins' => ∀ pin, pin ∈ pins' ↔ pin ∈ pins ∨ pin = first) ?_
      (fun pins' hfirst => ih.mono (fun pins'' hrest pin => ?_))
    · unfold insertPin
      split
      · exact Ensures.throw
      · rename_i hinsert
        exact Ensures.pure (Table.mem_insert? hinsert)
    · rw [hrest, hfirst, List.mem_cons, or_assoc]

/-- The scope, project and creation time of a note. -/
structure Origin (J : Type) where
  accessScope : Scope J
  project : String
  created : ℚ

def KnowledgeNote.origin (n : KnowledgeNote J) : Origin J :=
  ⟨n.accessScope, n.record.project, n.created⟩

/-- What an accepted put commits: the note with the origin that it has or gets now, under pins
of its evidence only. -/
structure PutsNote (rules : Rules V J) (store : Store V J) (clock : String → ℚ) (now : ℚ)
    (scope : Scope J) (value : Note J) (store' : Store V J) : Prop where
  permitted : ∃ out, noteOrigin rules (store.note? value.noteId) value scope now = .ok out
  evidence : validateNoteEvidence rules store clock value scope = .ok value.evidencePackets
  room : store.note? value.noteId = none → store.notes.rows.countP
    (fun n => n.record.project = value.project ∧ n.record.noteId ≠ value.noteId) < 128
  rows : ∃ n : KnowledgeNote J, n.record = value ∧
    n.origin = ((store.note? value.noteId).map KnowledgeNote.origin).getD
      ⟨scope, value.project, now⟩ ∧
    store'.notes.rows =
      store.notes.rows.filter (fun n => !decide (n.record.noteId = value.noteId)) ++ [n]
  pins : ∀ pin, pin ∈ store'.pins ↔ (pin ∈ store.pins ∧ pin.owner ≠ noteOwner value.noteId) ∨
    (pin.owner = noteOwner value.noteId ∧ pin.packet ∈ value.evidencePackets)
  retention : store'.retention = store.retention
  packets : SameEvidence store store'

theorem ensures_noteOrigin {prior : Option (KnowledgeNote J)} :
    Ensures (noteOrigin rules prior value scope now) (fun out =>
      (⟨out.1, value.project, out.2⟩ : Origin J) =
        (prior.map KnowledgeNote.origin).getD ⟨scope, value.project, now⟩) := by
  unfold noteOrigin
  split
  · exact Ensures.pure rfl
  · refine Ensures.ite (fun _ => Ensures.throw) (fun hsame => ?_)
    refine Ensures.ite (fun _ => Ensures.throw) (fun _ => Ensures.pure ?_)
    have hproject := not_not.mp (not_or.mp hsame).1
    simp only [Option.map_some, Option.getD_some, KnowledgeNote.origin, hproject]

theorem ensures_validateNoteEvidence {record : Note J} :
    Ensures (validateNoteEvidence rules store clock record scope)
      (fun refs => refs = record.evidencePackets) := by
  refine Ensures.ite (fun _ => Ensures.error) (fun _ => ?_)
  refine Ensures.ite (fun _ => Ensures.error) (fun _ => ?_)
  refine Ensures.bind (P := fun _ => True) (fun _ _ => trivial) (fun _ _ => ?_)
  exact Ensures.ite (fun _ => Ensures.error) (fun _ => Ensures.pure rfl)

theorem ensures_putNote_spec : Ensures (putNote rules store clock now record scope userGoal)
    (fun out => validateNote rules userGoal record = .ok out.1 ∧
      PutsNote rules store clock now scope out.1 out.2) := by
  refine Ensures.bind (Ensures.and Ensures.of_eq ensures_validateNote) ?_
  rintro value ⟨hvalue, -⟩
  refine Ensures.bind (Ensures.and Ensures.of_eq ensures_noteOrigin) ?_
  rintro ⟨origin, created⟩ ⟨hpermitted, horigin⟩
  refine Ensures.bind (Ensures.and Ensures.of_eq ensures_validateNoteEvidence) ?_
  rintro refs ⟨hevidence, rfl⟩
  refine Ensures.ite (fun _ => Ensures.error) (fun hroom => ?_)
  refine Ensures.bind ensures_insertPins (fun pins hpins => ?_)
  split
  · exact Ensures.throw
  · rename_i notes hinsert
    refine Ensures.pure ⟨hvalue, ⟨_, hpermitted⟩, hevidence, fun hnone => ?_,
      ⟨⟨value, origin, created, now⟩, rfl, horigin, ?_⟩, fun pin => ?_, rfl, rfl, rfl⟩
    · rw [hnone] at hroom
      simpa using hroom
    · unfold Table.insert? at hinsert
      split at hinsert
      · cases hinsert
        rfl
      · cases hinsert
    · rw [hpins, mem_unpin, List.mem_map]
      refine or_congr Iff.rfl ⟨?_, ?_⟩
      · rintro ⟨ref, href, rfl⟩
        exact ⟨rfl, href⟩
      · rintro ⟨howner, hpacket⟩
        refine ⟨pin.packet, hpacket, ?_⟩
        rw [← howner]

end Put

section History

variable {n : KnowledgeNote J} {id : String}

theorem note?_eq_some : store.note? id = some n ↔ n ∈ store.notes ∧ n.record.noteId = id := by
  constructor
  · intro h
    obtain ⟨hmem, hid⟩ := Table.mem_of_find? h
    exact ⟨hmem, of_decide_eq_true hid⟩
  · rintro ⟨hmem, rfl⟩
    refine Table.find?_eq_some hmem (decide_eq_true rfl) (fun a ha hid => ?_)
    exact Table.eq_of_mem (fun _ _ => Ne.symm) ha hmem (not_not.mpr (of_decide_eq_true hid))

variable [DecidableEq J]

/-- The history of a notebook: the origin that each note got by its first put since its last
deletion, and the last goal of the user put under its id since then. -/
structure Ledger (J : Type) where
  origins : String → Option (Origin J) := fun _ => none
  goals : String → Option (Note J) := fun _ => none

/-- The history after a call that was answered with `reply`. -/
def Ledger.record (ledger : Ledger J) : Operation V J → Reply V J → Ledger J
  | .putNote _ scope userGoal now _, .note value =>
    { origins := Function.update ledger.origins value.noteId
        (some ((ledger.origins value.noteId).getD ⟨scope, value.project, now⟩))
      goals := if userGoal then Function.update ledger.goals value.noteId (some value)
        else ledger.goals }
  | .deleteNote noteId _, .deleted true =>
    { origins := Function.update ledger.origins noteId none
      goals := Function.update ledger.goals noteId none }
  | _, _ => ledger

def Ledger.after (rules : Rules V J) (store : Store V J) (ledger : Ledger J)
    (op : Operation V J) : Ledger J :=
  match execute rules store op with
  | .ok (reply, _) => ledger.record op reply
  | .error _ => ledger

/-- The store and its history after a sequence of calls on an empty one. -/
def history (rules : Rules V J) (ops : List (Operation V J)) : Store V J × Ledger J :=
  ops.foldl (fun s op => (step rules s.1 op, s.2.after rules s.1 op)) (Store.empty, {})

theorem history_fst (ops : List (Operation V J)) : (history rules ops).1 = run rules ops := by
  have hloop : ∀ s : Store V J × Ledger J,
      (ops.foldl (fun s op => (step rules s.1 op, s.2.after rules s.1 op)) s).1 =
        ops.foldl (step rules) s.1 := by
    induction ops with
    | nil => exact fun s => rfl
    | cons op rest ih => exact fun s => ih _
  exact hloop _

/-- What a call does to the notebook and to its history. -/
inductive NoteEffect (rules : Rules V J) (store : Store V J) (op : Operation V J)
    (store' : Store V J) (ledger ledger' : Ledger J) : Prop
  | keeps (hnotes : store'.notes = store.notes)
      (h : (∀ owner ∈ op.owners, ¬ NoteOwner owner) →
        (∀ row ∈ store.retention, ¬ NoteOwner row.owner) → KeepsNotes store store')
      (hledger : ledger' = ledger)
  | put (record : Note J) (scope : Scope J) (userGoal : Bool) (now : ℚ) (clock : String → ℚ)
      (value : Note J) (hop : op = .putNote record scope userGoal now clock)
      (hvalue : validateNote rules userGoal record = .ok value)
      (h : PutsNote rules store clock now scope value store')
      (hledger : ledger' = ledger.record op (.note value : Reply V J))
  | delete (noteId : String) (scope : Scope J) (hop : op = .deleteNote noteId scope)
      (h : store' = { store.unpin (noteOwner noteId) with
        notes := store.notes.delete (fun n => n.record.noteId = noteId) })
      (hledger : ledger' = ledger.record op (.deleted true : Reply V J))

omit [DecidableEq J] in
/-- Only a put and a deletion of a note are recorded. -/
theorem record_other {op : Operation V J} {ledger : Ledger J} (reply : Reply V J)
    (hput : ∀ record scope userGoal now clock, op ≠ .putNote record scope userGoal now clock)
    (hdelete : ∀ noteId scope, op ≠ .deleteNote noteId scope) :
    ledger.record op reply = ledger := by
  cases op with
  | putNote record scope userGoal now clock => exact absurd rfl (hput record scope userGoal now clock)
  | deleteNote noteId scope => exact absurd rfl (hdelete noteId scope)
  | create | put | pin | unpin | retainJob | reconcileRetention | gc => rfl

theorem noteEffect_step (rules : Rules V J) (store : Store V J) (op : Operation V J)
    (ledger : Ledger J) :
    NoteEffect rules store op (step rules store op) ledger (ledger.after rules store op) := by
  cases hex : execute rules store op with
  | error e =>
    have hstep : step rules store op = store := by simp only [step, hex]
    have hafter : ledger.after rules store op = ledger := by simp only [Ledger.after, hex]
    rw [hstep, hafter]
    exact .keeps rfl (fun _ _ => .refl store) rfl
  | ok out =>
    obtain ⟨reply, store'⟩ := out
    have hstep : step rules store op = store' := by simp only [step, hex]
    have hafter : ledger.after rules store op = ledger.record op reply := by
      simp only [Ledger.after, hex]
    rw [hstep, hafter]
    by_cases hput : ∃ record scope userGoal now clock,
        op = .putNote record scope userGoal now clock
    · obtain ⟨record, scope, userGoal, now, clock, rfl⟩ := hput
      have hspec : Ensures (execute rules store (.putNote record scope userGoal now clock))
          (fun out => ∃ value, out.1 = .note value ∧
            validateNote rules userGoal record = .ok value ∧
            PutsNote rules store clock now scope value out.2) :=
        Ensures.bind ensures_putNote_spec (fun out h => Ensures.pure ⟨out.1, rfl, h⟩)
      obtain ⟨value, hreply, hvalue, hputs⟩ := hspec _ hex
      exact .put record scope userGoal now clock value rfl hvalue hputs (hreply ▸ rfl)
    · by_cases hdelete : ∃ noteId scope, op = .deleteNote noteId scope
      · obtain ⟨noteId, scope, rfl⟩ := hdelete
        have hspec : (store' = store ∧ reply = .deleted false) ∨
            (store' = { store.unpin (noteOwner noteId) with
              notes := store.notes.delete (fun n => n.record.noteId = noteId) } ∧
              reply = .deleted true) := by
          simp only [execute, deleteNote] at hex
          split at hex
          · cases hex
            exact .inl ⟨rfl, rfl⟩
          · split at hex
            · cases hex
              exact .inl ⟨rfl, rfl⟩
            · cases hex
              exact .inr ⟨rfl, rfl⟩
        rcases hspec with ⟨rfl, rfl⟩ | ⟨hstore, rfl⟩
        · exact .keeps rfl (fun _ _ => .refl _) rfl
        · exact .delete noteId scope rfl hstore rfl
      · have hnoput : ∀ record scope userGoal now clock,
            op ≠ .putNote record scope userGoal now clock :=
          fun record scope userGoal now clock h => hput ⟨record, scope, userGoal, now, clock, h⟩
        have hnodelete : ∀ noteId scope, op ≠ .deleteNote noteId scope :=
          fun noteId scope h => hdelete ⟨noteId, scope, h⟩
        exact .keeps (notes_execute hnoput hnodelete _ hex)
          (fun howners hretention =>
            keepsNotes_execute howners hretention hnoput hnodelete _ hex)
          (record_other reply hnoput hnodelete)

end History

section Invariant

variable [DecidableEq J] {op : Operation V J} {ledger ledger' : Ledger J} {n : KnowledgeNote J}
  {id : String}

/-- What the notebook keeps to: the evidence of each note is pinned for it and unexpired, no
job has the name of a note, and a project has at most 128 notes. -/
structure Cited (store : Store V J) : Prop where
  pinned : ∀ n ∈ store.notes, ∀ id ∈ n.record.evidencePackets,
    (⟨noteOwner n.record.noteId, id⟩ : Pin) ∈ store.pins
  unexpired : ∀ n ∈ store.notes, ∀ id ∈ n.record.evidencePackets,
    ∃ r ∈ store.packets, r.id = id ∧ r.expired = false
  retention : ∀ row ∈ store.retention, ¬ NoteOwner row.owner
  capacity : ∀ project, store.notes.rows.countP (fun n => n.record.project = project) ≤ 128

/-- The origin of each stored note is the one that the history has for it. -/
def Tracks (store : Store V J) (ledger : Ledger J) : Prop :=
  ∀ id, (store.note? id).map KnowledgeNote.origin = ledger.origins id

/-- A pinned packet that is not expired stays so: a collection finds it live. -/
theorem unexpired_step {r : Row J} (hr : r ∈ store.packets) (hexpired : r.expired = false)
    (hpin : ∃ pin ∈ store.pins, pin.packet = r.id) :
    ∃ r' ∈ (step rules store op).packets, r'.id = r.id ∧ r'.expired = false := by
  rcases step_cases rules store op with ⟨reply, -, heffect⟩ | heq
  · revert heffect
    generalize step rules store op = store'
    intro heffect
    cases heffect with
    | same _ hsame => exact ⟨r, hsame.1 ▸ hr, rfl, hexpired⟩
    | put hput =>
      rcases hput.stored with ⟨rfl, -⟩ | ⟨extra, hins⟩
      · exact ⟨r, hr, rfl, hexpired⟩
      · exact ⟨r, (hins.packets r).mpr (.inl hr), rfl, hexpired⟩
    | collect clock =>
      obtain ⟨r', hr', hmeta, hkept⟩ := mem_gc rules clock hr
      exact ⟨r', hr', id_congr hmeta, hkept hexpired (mem_liveIds.mpr ⟨r.id, .inl hpin, .refl⟩)⟩
  · rw [heq]
    exact ⟨r, hr, rfl, hexpired⟩

/-- The packets that a note may cite are there. -/
theorem ensures_evidence {record : Note J} {scope : Scope J} {clock : String → ℚ} :
    Ensures (validateNoteEvidence rules store clock record scope) (fun _ =>
      ∀ id ∈ record.evidencePackets, ∃ r ∈ store.packets, r.id = id ∧ r.expired = false) := by
  have hcheck : ∀ sources id, Ensures (checkEvidence rules store (liveIds rules store clock) scope
      sources id) (fun _ => ∃ r ∈ store.packets, r.id = id ∧ r.expired = false) := by
    intro sources id
    unfold checkEvidence
    split
    · exact Ensures.throw
    · rename_i r hr
      obtain ⟨hmem, hid⟩ := mem_of_row? hr
      refine Ensures.ite (fun _ => Ensures.throw) (fun hlive => ?_)
      simp only [Bool.or_eq_true, not_or, Bool.not_eq_true] at hlive
      exact fun _ _ => ⟨r, hmem, hid, hlive.1⟩
  refine Ensures.ite (fun _ => Ensures.error) (fun _ => ?_)
  refine Ensures.ite (fun _ => Ensures.error) (fun _ => ?_)
  refine Ensures.bind (P := fun _ => ∀ id ∈ record.evidencePackets,
    ∃ r ∈ store.packets, r.id = id ∧ r.expired = false) ?_ (fun _ hall => ?_)
  · intro sources hsources id hid
    exact Ensures.foldlM_reaches (P := fun _ => True) hid (fun _ _ _ _ _ _ => trivial)
      (fun a _ => hcheck a id) (fun _ _ _ h _ _ => h) trivial sources hsources
  · exact Ensures.ite (fun _ => Ensures.error) (fun _ => Ensures.pure hall)

theorem Cited.keeps (h : Cited store) (hkeeps : KeepsNotes store (step rules store op)) :
    Cited (step rules store op) := by
  refine ⟨fun n hn id hid => ?_, fun n hn id hid => ?_, fun row hrow hnote => ?_, fun project => ?_⟩
  · rw [hkeeps.notes] at hn
    exact hkeeps.pins _ (h.pinned n hn id hid) ⟨n.record.noteId, rfl⟩
  · rw [hkeeps.notes] at hn
    obtain ⟨r, hr, rfl, hexpired⟩ := h.unexpired n hn id hid
    exact unexpired_step hr hexpired ⟨_, h.pinned n hn r.id hid, rfl⟩
  · exact h.retention row (hkeeps.retention row hrow hnote) hnote
  · rw [hkeeps.notes]
    exact h.capacity project

omit [DecidableEq J] in
theorem mem_notes_put {value : Note J} (hrows : store'.notes.rows =
    store.notes.rows.filter (fun n => !decide (n.record.noteId = value.noteId)) ++ [n])
    (m : KnowledgeNote J) :
    m ∈ store'.notes ↔ (m ∈ store.notes ∧ m.record.noteId ≠ value.noteId) ∨ m = n := by
  show m ∈ store'.notes.rows ↔ (m ∈ store.notes.rows ∧ m.record.noteId ≠ value.noteId) ∨ m = n
  rw [hrows, List.mem_append, List.mem_filter, List.mem_singleton]
  simp

/-- A put stays within the capacity: it adds a note only where there was room, and an update
takes the place of a note of the same project. -/
theorem PutsNote.capacity {scope : Scope J} {now : ℚ} {clock : String → ℚ} {value : Note J}
    (h : PutsNote rules store clock now scope value store')
    (hcapacity : ∀ project, store.notes.rows.countP (fun n => n.record.project = project) ≤ 128)
    (project : String) : store'.notes.rows.countP (fun n => n.record.project = project) ≤ 128 := by
  obtain ⟨n, rfl, horigin, hrows⟩ := h.rows
  have hkept : (store.notes.rows.filter
      (fun m => !decide (m.record.noteId = n.record.noteId))).countP
        (fun m => m.record.project = project) ≤
      store.notes.rows.countP (fun m => m.record.project = project) :=
    List.Sublist.countP_le List.filter_sublist
  have hold := hcapacity project
  rw [hrows, List.countP_append]
  by_cases hproject : n.record.project = project
  · subst hproject
    rw [List.countP_singleton, if_pos (decide_eq_true rfl)]
    cases hprior : store.note? n.record.noteId with
    | none =>
      have hroom := h.room hprior
      have hcount : (store.notes.rows.filter
          (fun m => !decide (m.record.noteId = n.record.noteId))).countP
            (fun m => m.record.project = n.record.project) =
          store.notes.rows.countP (fun m => m.record.project = n.record.project ∧
            m.record.noteId ≠ n.record.noteId) := by
        rw [List.countP_filter]
        apply List.countP_congr
        simp
      omega
    | some prior =>
      -- the prior note is of the same project and is no longer counted
      obtain ⟨hmem, hid⟩ := note?_eq_some.mp hprior
      rw [hprior] at horigin
      have hsame : prior.record.project = n.record.project :=
        (congrArg Origin.project horigin).symm
      have hlost : 0 < (store.notes.rows.filter
          (fun m => decide (m.record.noteId = n.record.noteId))).countP
            (fun m => m.record.project = n.record.project) :=
        List.countP_pos_iff.mpr ⟨prior, List.mem_filter.mpr ⟨hmem, decide_eq_true hid⟩,
          decide_eq_true hsame⟩
      have hsplit := List.countP_eq_countP_filter_add store.notes.rows
        (fun m => decide (m.record.project = n.record.project))
        (fun m => decide (m.record.noteId = n.record.noteId))
      omega
  · rw [List.countP_singleton, if_neg (by simpa using hproject)]
    omega

theorem Cited.put {scope : Scope J} {now : ℚ} {clock : String → ℚ} {value : Note J}
    (h : Cited store) (hputs : PutsNote rules store clock now scope value store') :
    Cited store' := by
  obtain ⟨n, hrecord, -, hrows⟩ := hputs.rows
  have hmem := mem_notes_put hrows
  refine ⟨fun m hm id hid => ?_, fun m hm id hid => ?_, ?_, hputs.capacity h.capacity⟩
  · rcases (hmem m).mp hm with ⟨hm, hne⟩ | rfl
    · refine (hputs.pins _).mpr (.inl ⟨h.pinned m hm id hid, fun heq => hne ?_⟩)
      exact noteOwner_injective heq
    · exact (hputs.pins _).mpr (.inr ⟨by rw [hrecord], hrecord ▸ hid⟩)
  · rw [hputs.packets.1]
    rcases (hmem m).mp hm with ⟨hm, -⟩ | rfl
    · exact h.unexpired m hm id hid
    · exact ensures_evidence _ hputs.evidence id (hrecord ▸ hid)
  · rw [hputs.retention]
    exact h.retention

omit [DecidableEq J] in
theorem Cited.delete {noteId : String} (h : Cited store) :
    Cited { store.unpin (noteOwner noteId) with
      notes := store.notes.delete (fun n => n.record.noteId = noteId) } := by
  have hmem (m : KnowledgeNote J) (hm : m ∈ store.notes.delete (fun n => n.record.noteId = noteId)) :
      m ∈ store.notes ∧ m.record.noteId ≠ noteId := by
    obtain ⟨hm, hne⟩ := (Table.mem_delete m).mp hm
    exact ⟨hm, of_decide_eq_false hne⟩
  refine ⟨fun m hm id hid => ?_, fun m hm id hid => ?_, h.retention, fun project => ?_⟩
  · obtain ⟨hm, hne⟩ := hmem m hm
    refine mem_unpin.mpr ⟨h.pinned m hm id hid, fun heq => hne ?_⟩
    exact noteOwner_injective heq
  · exact h.unexpired m (hmem m hm).1 id hid
  · exact (List.Sublist.countP_le List.filter_sublist).trans (h.capacity project)

omit [DecidableEq J] in
theorem note?_put {value : Note J} (hrecord : n.record = value) (hrows : store'.notes.rows =
    store.notes.rows.filter (fun n => !decide (n.record.noteId = value.noteId)) ++ [n])
    (id : String) : store'.note? id = if id = value.noteId then some n else store.note? id := by
  ext m
  rw [note?_eq_some, mem_notes_put hrows]
  split
  · rename_i hid
    subst hid
    constructor
    · rintro ⟨⟨-, hne⟩ | rfl, hid⟩
      · exact absurd hid hne
      · rfl
    · intro hm
      cases hm
      exact ⟨.inr rfl, by rw [hrecord]⟩
  · rename_i hid
    rw [note?_eq_some]
    constructor
    · rintro ⟨⟨hm, -⟩ | rfl, hm'⟩
      · exact ⟨hm, hm'⟩
      · exact absurd (hm'.symm.trans (by rw [hrecord])) hid
    · rintro ⟨hm, rfl⟩
      exact ⟨.inl ⟨hm, hid⟩, rfl⟩

omit [DecidableEq J] in
theorem note?_delete {noteId : String} (id : String) :
    Store.note? { store.unpin (noteOwner noteId) with
      notes := store.notes.delete (fun n => n.record.noteId = noteId) } id =
      if id = noteId then none else store.note? id := by
  ext m
  rw [note?_eq_some]
  show m ∈ store.notes.delete _ ∧ _ ↔ _
  rw [Table.mem_delete, decide_eq_false_iff_not]
  split
  · rename_i hid
    subst hid
    simp
  · rename_i hid
    rw [note?_eq_some]
    constructor
    · exact fun ⟨⟨hm, _⟩, hm'⟩ => ⟨hm, hm'⟩
    · rintro ⟨hm, rfl⟩
      exact ⟨⟨hm, hid⟩, rfl⟩

theorem Tracks.effect (h : Tracks store ledger)
    (heffect : NoteEffect rules store op store' ledger ledger') : Tracks store' ledger' := by
  intro id
  cases heffect with
  | keeps hnotes _ hledger =>
    have hsame : store'.note? id = store.note? id := by
      unfold Store.note?
      rw [hnotes]
    rw [hsame, hledger]
    exact h id
  | put record scope userGoal now clock value hop _ hputs hledger =>
    obtain ⟨n, hrecord, horigin, hrows⟩ := hputs.rows
    rw [note?_put hrecord hrows, hledger, hop]
    show _ = Function.update ledger.origins value.noteId _ id
    by_cases hid : id = value.noteId
    · subst hid
      rw [if_pos rfl, Function.update_self, Option.map_some, horigin, h value.noteId]
    · rw [if_neg hid, Function.update_of_ne hid]
      exact h id
  | delete noteId scope hop hstore hledger =>
    rw [hstore, note?_delete, hledger, hop]
    show _ = Function.update ledger.origins noteId none id
    by_cases hid : id = noteId
    · subst hid
      rw [if_pos rfl, Function.update_self]
      rfl
    · rw [if_neg hid, Function.update_of_ne hid]
      exact h id

theorem Cited.step (h : Cited store) (howners : ∀ owner ∈ op.owners, ¬ NoteOwner owner) :
    Cited (step rules store op) := by
  cases noteEffect_step rules store op {} with
  | keeps _ hkeeps => exact h.keeps (hkeeps howners h.retention)
  | put _ _ _ _ _ _ _ _ hputs => exact h.put hputs
  | delete noteId _ _ hstore =>
    rw [hstore]
    exact h.delete

/-- What every step of a run keeps of the store and its history. -/
theorem history_invariant {I : Store V J → Ledger J → Prop} (ops : List (Operation V J))
    (h : I Store.empty {}) (hstep : ∀ store ledger, ∀ op ∈ ops, I store ledger →
      I (step rules store op) (ledger.after rules store op)) :
    I (run rules ops) (history rules ops).2 := by
  have hloop : ∀ s : Store V J × Ledger J, I s.1 s.2 →
      I (ops.foldl (fun s op => (step rules s.1 op, s.2.after rules s.1 op)) s).1
        (ops.foldl (fun s op => (step rules s.1 op, s.2.after rules s.1 op)) s).2 := by
    clear h
    induction ops with
    | nil => exact fun s h => h
    | cons op rest ih =>
      intro s h
      refine ih (fun store ledger op hop => hstep store ledger op (List.mem_cons_of_mem _ hop)) _ ?_
      exact hstep s.1 s.2 op List.mem_cons_self h
  rw [← history_fst]
  exact hloop _ h

/-- In every run in which no job is given the name of a note, the packets that a stored note
cites are unexpired and have their bodies, a project has at most 128 notes, and the scope,
project and creation time of a note are those of its first put since its last deletion. A call
that raises changes nothing. -/
theorem notes_keep_evidence_and_origin (rules : Rules V J) (ops : List (Operation V J))
    (hops : ∀ op ∈ ops, ∀ owner ∈ op.owners, ¬ NoteOwner owner) :
    (∀ n ∈ (run rules ops).notes, ∀ id ∈ n.record.evidencePackets,
      ∃ r ∈ (run rules ops).packets, r.id = id ∧ r.expired = false ∧
        ∃ b ∈ (run rules ops).bodies, b.hash = r.hash) ∧
    (∀ project,
      (run rules ops).notes.rows.countP (fun n => n.record.project = project) ≤ 128) ∧
    (∀ id, ((run rules ops).note? id).map KnowledgeNote.origin =
      (history rules ops).2.origins id) ∧
    (∀ op e, execute rules (run rules ops) op = .error e →
      step rules (run rules ops) op = run rules ops) := by
  have hempty : Cited (Store.empty : Store V J) ∧ Tracks (Store.empty : Store V J) {} := by
    exact ⟨⟨fun n hn => (nomatch hn), fun n hn => (nomatch hn), fun row hrow => (nomatch hrow),
      fun project => Nat.zero_le _⟩, fun id => rfl⟩
  obtain ⟨hcited, htracks⟩ := history_invariant
    (I := fun store ledger => Cited store ∧ Tracks store ledger) ops hempty
    (fun store ledger op hop h => ⟨h.1.step (hops op hop),
      h.2.effect (noteEffect_step rules store op ledger)⟩)
  refine ⟨fun n hn id hid => ?_, hcited.capacity, htracks, fun op e he => ?_⟩
  · obtain ⟨r, hr, hrid, hexpired⟩ := hcited.unexpired n hn id hid
    exact ⟨r, hr, hrid, hexpired, (wellFormed_run ops).kept r hr hexpired⟩
  · simp only [step, he]

end Invariant

section Example

/-- A note of the plain store. -/
def plainNote (id kind claim provenance : String) (evidence : List String) : Note String where
  noteId := id
  project := "demo"
  kind := kind
  claim := claim
  reasonMatters := "it is cited"
  provenance := provenance
  sources := []
  evidencePackets := evidence
  details := ""

/-- The evidence of a note outlives its expiry, and an update keeps the note's scope. -/
theorem cited_packet_survives_collection :
    let ops : List (Operation String String) :=
      [.put (plainPacket "pkt_0001" "amber-birch" "a1" earlier []) (fun _ _ => 0),
        .putNote (plainNote "n1" "fact" "it holds" "model" ["pkt_0001"]) [("project", "demo")] false 1
          (fun _ => 1),
        .putNote (plainNote "n1" "fact" "it still holds" "model" ["pkt_0001"])
          [("project", "demo"), ("team", "a")] false 2 (fun _ => 2),
        .gc (fun _ => 15)]
    ((run plainRules ops).note? "n1").map KnowledgeNote.origin =
        (history plainRules ops).2.origins "n1" ∧
      ∃ r ∈ (run plainRules ops).packets, r.id = "pkt_0001" ∧ r.expired = false := by
  intro ops
  have hops : ∀ op ∈ ops, ∀ owner ∈ op.owners, ¬ NoteOwner owner := by
    have hnone : ∀ op ∈ ops, op.owners = [] := by
      intro op hop
      simp only [ops, List.mem_cons, List.not_mem_nil, or_false] at hop
      rcases hop with rfl | rfl | rfl | rfl <;> rfl
    intro op hop owner howner
    rw [hnone op hop] at howner
    cases howner
  obtain ⟨hevidence, -, horigins, -⟩ := notes_keep_evidence_and_origin plainRules ops hops
  refine ⟨horigins "n1", ?_⟩
  have hnote : ∃ n, (run plainRules ops).note? "n1" = some n ∧
      n.record.evidencePackets = ["pkt_0001"] := by
    have hsome : ((run plainRules ops).note? "n1").map (fun n => n.record.evidencePackets) =
        some ["pkt_0001"] := by decide +kernel
    exact Option.map_eq_some_iff.mp hsome
  obtain ⟨n, hn, hcites⟩ := hnote
  obtain ⟨r, hr, hid, hexpired, -⟩ := hevidence n (note?_eq_some.mp hn).1 "pkt_0001"
    (hcites ▸ List.mem_cons_self)
  exact ⟨r, hr, hid, hexpired⟩

end Example

end ProjectControl.Packets
