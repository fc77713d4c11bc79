import ProjectControl.PacketNotes

/-! Goals of the user in the notebook: what may change them in a run. -/

set_option autoImplicit false

namespace ProjectControl.Packets

variable {V J : Type} [DecidableEq J] {rules : Rules V J} {store store' : Store V J}
  {op : Operation V J} {ledger ledger' : Ledger J}

/-- The stored records of the user are the goals last put by the trusted path: every goal that
it put and that was not deleted is there as it was put, and no other record claims to be the
user's. -/
def Trusted (store : Store V J) (ledger : Ledger J) : Prop :=
  ∀ id, ((store.note? id).map KnowledgeNote.record).filter (fun r => r.provenance = "user") =
    ledger.goals id

/-- A `put_note` that passes the checks of an update for the id of a stored goal of the user. -/
def Overwrites (rules : Rules V J) (store : Store V J) (op : Operation V J) : Prop :=
  ∃ record scope now clock value n, op = .putNote record scope false now clock ∧
    validateNote rules false record = .ok value ∧ store.note? value.noteId = some n ∧
    n.record.provenance = "user" ∧
    (∃ out, noteOrigin rules (some n) value scope now = .ok out) ∧
    ∃ refs, validateNoteEvidence rules store clock value scope = .ok refs

theorem Trusted.effect (h : Trusted store ledger)
    (heffect : NoteEffect rules store op store' ledger ledger') (hop : ¬ Overwrites rules store op) :
    Trusted store' ledger' := by
  intro id
  cases heffect with
  | keeps hnotes _ hledger =>
    have hsame : store'.note? id = store.note? id := by
      unfold Store.note?
      rw [hnotes]
    rw [hsame, hledger]
    exact h id
  | put record scope userGoal now clock value hput hvalue hputs hledger =>
    obtain ⟨n, hrecord, -, hrows⟩ := hputs.rows
    obtain ⟨-, -, hprovenance⟩ := ensures_validateNote _ hvalue
    subst hput
    rw [note?_put hrecord hrows, hledger]
    cases userGoal with
    | true =>
      show _ = Function.update ledger.goals value.noteId (some value) id
      by_cases hid : id = value.noteId
      · subst hid
        rw [if_pos rfl, Function.update_self, Option.map_some, hrecord]
        simp [Option.filter, hprovenance.mpr rfl]
      · rw [if_neg hid, Function.update_of_ne hid]
        exact h id
    | false =>
      show _ = ledger.goals id
      have hmodel : value.provenance ≠ "user" := fun huser => by
        cases hprovenance.mp huser
      by_cases hid : id = value.noteId
      · subst hid
        -- the note that it replaces, if any, is not a goal of the user
        rw [← h value.noteId, if_pos rfl, Option.map_some, hrecord]
        cases hprior : store.note? value.noteId with
        | none => simp [Option.filter, hmodel]
        | some prior =>
          have hprior' : prior.record.provenance ≠ "user" := by
            intro huser
            have hpermitted := hputs.permitted
            rw [hprior] at hpermitted
            exact hop ⟨record, scope, now, clock, value, prior, rfl, hvalue, hprior, huser,
              hpermitted, _, hputs.evidence⟩
          simp [Option.filter, hmodel, hprior']
      · rw [if_neg hid]
        exact h id
  | delete noteId scope hdelete hstore hledger =>
    subst hdelete
    rw [hstore, note?_delete, hledger]
    show _ = Function.update ledger.goals noteId none id
    by_cases hid : id = noteId
    · subst hid
      rw [if_pos rfl, Function.update_self]
      rfl
    · rw [if_neg hid, Function.update_of_ne hid]
      exact h id

/-- In every run in which no `put_note` overwrites a goal of the user, the user's records are
the goals that the trusted path put last. -/
theorem user_goals_are_trusted (rules : Rules V J) (ops : List (Operation V J))
    (hops : Runs.Along (step rules) (fun store op => ¬ Overwrites rules store op) Store.empty ops) :
    Trusted (run rules ops) (history rules ops).2 := by
  have hloop : ∀ s : Store V J × Ledger J, Trusted s.1 s.2 →
      Runs.Along (step rules) (fun store op => ¬ Overwrites rules store op) s.1 ops →
      let final := ops.foldl (fun s op => (step rules s.1 op, s.2.after rules s.1 op)) s
      Trusted final.1 final.2 := by
    clear hops
    induction ops with
    | nil => exact fun s h _ => h
    | cons op rest ih =>
      intro s h hops
      exact ih _ (h.effect (noteEffect_step rules s.1 op s.2) hops.1) hops.2
  have hfinal := hloop (Store.empty, {}) (fun id => rfl) hops
  rw [← history_fst]
  exact hfinal

/-- A goal of the user and a note of the model under other ids leave each other alone. -/
theorem separate_notes_are_trusted :
    let ops : List (Operation String String) :=
      [.putNote (plainNote "g1" "goal" "ship it" "user" []) [("project", "demo")] true 1 (fun _ => 1),
        .putNote (plainNote "n1" "fact" "it holds" "model" []) [("project", "demo")] false 2
          (fun _ => 2)]
    Trusted (run plainRules ops) (history plainRules ops).2 := by
  intro ops
  refine user_goals_are_trusted plainRules ops ⟨?_, ?_, trivial⟩
  · rintro ⟨record, scope, now, clock, value, n, hop, -⟩
    cases hop
  · rintro ⟨record, scope, now, clock, value, n, hop, hvalue, hnote, -⟩
    cases hop
    obtain ⟨hid, -⟩ := ensures_validateNote _ hvalue
    rw [hid] at hnote
    have hnone : (run plainRules (ops.take 1)).note? "n1" = none := by decide +kernel
    have hsame : (run plainRules (ops.take 1)).note? "n1" = some n := hnote
    rw [hnone] at hsame
    cases hsame

/-- A `put_note` takes the place of a stored goal of the user. -/
theorem put_note_replaces_a_user_goal :
    ¬ ∀ ops : List (Operation String String),
      Trusted (run plainRules ops) (history plainRules ops).2 := by
  intro h
  have hgoal := h
    [.putNote (plainNote "g1" "goal" "ship it" "user" []) [("project", "demo")] true 1 (fun _ => 1),
      .putNote (plainNote "g1" "fact" "it is shipped" "model" []) [("project", "demo")] false 2
        (fun _ => 2)] "g1"
  revert hgoal
  decide +kernel

end ProjectControl.Packets
