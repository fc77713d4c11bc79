import ProjectControl.CompactCoordinate

/-! What each kind of step of the compact host has to establish in a
rely-guarantee proof about it. -/

set_option autoImplicit false

namespace ProjectControl.Compact

open Resumption Resumption.Spec

section Steps

variable {ι A α : Type} {P : Spec ι (World A) Label} {i : ι} {N : NativeHost A} {c : Codec}
variable {B : World A → Prop} {t : Target}

theorem triple_raise {Q : α → World A → Prop} {code : String} :
    P.Triple i B (raise code : Host A α) Q :=
  triple_fail

theorem triple_ofExcept {Q : α → World A → Prop} {x : Except Err α}
    (hQ : ∀ a, P.Stable i (Q a)) (h : ∀ a s, x = .ok a → P.inv s → B s → Q a s) :
    P.Triple i B (Prog.ofExcept x : Host A α) Q := by
  cases x with
  | ok a => exact triple_done (hQ a) (fun s hs hb => h a s rfl hs hb)
  | error e => exact triple_fail

theorem triple_need {Q : α → World A → Prop} {x : Option α}
    (hQ : ∀ a, P.Stable i (Q a)) (h : ∀ a s, x = some a → P.inv s → B s → Q a s) :
    P.Triple i B (need x : Host A α) Q := by
  cases x with
  | some a => exact triple_done (hQ a) (fun s hs hb => h a s rfl hs hb)
  | none => exact triple_fail

variable (hrefl : ∀ s, P.guar i s s)

include hrefl

/-- A step that only reads the shared state. -/
theorem triple_read {Q : α → World A → Prop} {l : Label} {f : World A → Input → Except Err α}
    (hB : P.Stable i B) (hQ : ∀ a, P.Stable i (Q a))
    (h : ∀ s v a, P.inv s → B s → f s v = .ok a → Q a s) :
    P.Triple i B (Prog.atomic l (fun s v => (s, f s v)) : Host A α) Q :=
  triple_atomic hB hQ (fun s v hs hb _ => ⟨hs, hrefl s, fun a ha => h s v a hs hb ha⟩)

theorem triple_storeGet {Q : Record → World A → Prop} (hB : P.Stable i B)
    (hQ : ∀ a, P.Stable i (Q a))
    (h : ∀ s data, P.inv s → B s →
      s.Holds t data → Q data s) :
    P.Triple i B (storeGet c t) Q :=
  triple_read hrefl hB hQ (fun s _ data hs hb hd => h s data hs hb (Store.get_ok hd))

theorem triple_resolveHandle {Q : Target × Record → World A → Prop} {handle : Handle}
    (hB : P.Stable i B) (hQ : ∀ a, P.Stable i (Q a))
    (h : ∀ s p r data, P.inv s → B s → s.journal.record handle = some (p, r, data) →
      Q (⟨handle, p, r⟩, { data with project := some p, repository := some r }) s) :
    P.Triple i B (resolveHandle c handle) Q := by
  refine triple_read hrefl hB hQ (fun s _ out hs hb ho => ?_)
  cases hg : Store.getAnyScope c s.journal handle with
  | error e => simp [hg, Except.map] at ho
  | ok row =>
    obtain ⟨p, r, data⟩ := row
    simp only [hg, Except.map, Except.ok.injEq] at ho
    exact ho ▸ h s p r data hs hb (Store.getAnyScope_ok hg)

/-- A step that either writes the journal as `f` says or changes nothing. -/
theorem triple_journal {Q : α → World A → Prop} {l : Label} {en : World A → Input → Bool}
    {f : Input → Journal → Except Err (α × Journal)}
    (hB : P.Stable i B) (hQ : ∀ a, P.Stable i (Q a))
    (h : ∀ s v a j, P.inv s → B s → P.cond s l → en s v = true → f v s.journal = .ok (a, j) →
      P.inv { s with journal := j } ∧ P.guar i s { s with journal := j } ∧
        Q a { s with journal := j }) :
    P.Triple i B (Prog.await l en (fun s v => onJournal (f v) s)) Q := by
  refine triple_await hB hQ (fun s v hs hb hc hen => ?_)
  unfold onJournal
  split
  · rename_i a j hf
    obtain ⟨h1, h2, h3⟩ := h s v a j hs hb hc hen hf
    refine ⟨h1, h2, fun a' ha => ?_⟩
    cases ha
    exact h3
  · refine ⟨hs, hrefl s, fun a' ha => ?_⟩
    cases ha

theorem triple_storeUpdate {Q : Record → World A → Prop} {entered : Option Phase}
    {changes : Record} (hB : P.Stable i B) (hQ : ∀ a, P.Stable i (Q a))
    (h : ∀ s old, P.inv s → B s → P.cond s (.update t.handle entered changes) →
      s.Holds t old →
      let s' := s.put t.handle (old.merge changes)
      P.inv s' ∧ P.guar i s s' ∧ Q (old.merge changes) s') :
    P.Triple i B (storeUpdate c t entered changes) Q := by
  refine triple_journal hrefl hB hQ (fun s v a j hs hb hc _ hf => ?_)
  obtain ⟨old, ho, rfl, rfl⟩ := Store.update_ok hf
  exact h s old hs hb hc ho

theorem triple_storeAtomic {Q : Record → World A → Prop} {l : Label}
    {fn : Record → Except Err (Option Record)} (hB : P.Stable i B)
    (hQ : ∀ a, P.Stable i (Q a))
    (hkeep : ∀ s old, P.inv s → B s → P.cond s l →
      s.Holds t old →
      fn old = .ok none → Q old s)
    (hnew : ∀ s old data, P.inv s → B s → P.cond s l →
      s.Holds t old →
      fn old = .ok (some data) →
      let s' := s.put t.handle data
      P.inv s' ∧ P.guar i s s' ∧ Q data s') :
    P.Triple i B (storeAtomic c l t fn) Q := by
  refine triple_journal hrefl hB hQ (fun s v a j hs hb hc _ hf => ?_)
  obtain ⟨old, ho, ⟨hfn, rfl, rfl⟩ | ⟨hfn, rfl⟩⟩ := Store.atomicUpdate_ok hf
  · exact ⟨hs, hrefl s, hkeep s a hs hb hc ho hfn⟩
  · exact hnew s old a hs hb hc ho hfn

theorem triple_storeIntent {Q : Record → World A → Prop} {l : Label} {name : PhaseName}
    {fn : Record → Except Err (Option Record)} (hB : P.Stable i B)
    (hQ : ∀ a, P.Stable i (Q a))
    (hfn : ∀ old data, fn old = .ok (some data) →
      ∃ intent, data = old.setIntent name intent ∧ old.intent name ≠ some intent)
    (hkeep : ∀ s old, P.inv s → B s → P.cond s l →
      s.Holds t old →
      fn old = .ok none → Q old s)
    (hnew : ∀ s old intent, P.inv s → B s → P.cond s l →
      s.Holds t old →
      fn old = .ok (some (old.setIntent name intent)) →
      let s' := s.issue t.handle name old intent
      P.inv s' ∧ P.guar i s s' ∧ Q (old.setIntent name intent) s') :
    P.Triple i B (storeIntent c l t name fn) Q := by
  refine triple_atomic hB hQ (fun s v hs hb hc => ?_)
  cases hu : Store.atomicUpdate c s.journal t.handle t.project t.repository fn with
  | error e => exact ⟨hs, hrefl s, fun a ha => by cases ha⟩
  | ok out =>
    obtain ⟨data, j⟩ := out
    obtain ⟨old, ho, ⟨hf, rfl, rfl⟩ | ⟨hf, rfl⟩⟩ := Store.atomicUpdate_ok hu
    · simp only [World.noted_of_record ho name]
      refine ⟨hs, hrefl s, fun a ha => ?_⟩
      cases ha
      exact hkeep s data hs hb hc ho hf
    · obtain ⟨intent, rfl, hne⟩ := hfn old data hf
      simp only [World.noted_setIntent ho hne]
      obtain ⟨h1, h2, h3⟩ := hnew s old intent hs hb hc ho hf
      refine ⟨h1, h2, fun a ha => ?_⟩
      cases ha
      exact h3

theorem triple_persistIntent {Q : Record → World A → Prop} {name : PhaseName} {intent : Intent}
    (hB : P.Stable i B) (hQ : ∀ a, P.Stable i (Q a))
    (hkeep : ∀ s old, P.inv s → B s →
      s.Holds t old → Q old s)
    (hnew : ∀ s old, P.inv s → B s → P.cond s (.persist t.handle name intent) →
      s.Holds t old →
      old.intent name = none →
      let s' := s.issue t.handle name old intent
      P.inv s' ∧ P.guar i s s' ∧ Q (old.setIntent name intent) s') :
    P.Triple i B (storeIntent c (.persist t.handle name intent) t name
      (persistIntent name intent)) Q := by
  refine triple_storeIntent hrefl hB hQ (fun old data hf => ?_)
    (fun s old hs hb _ ho _ => hkeep s old hs hb ho) (fun s old new hs hb hc ho hf => ?_)
  · rcases persistIntent_ok hf with ⟨i, -, -, he⟩ | ⟨hn, he⟩
    · cases he
    · cases he
      exact ⟨intent, rfl, by simp [hn]⟩
  · rcases persistIntent_ok hf with ⟨i, -, -, he⟩ | ⟨hn, he⟩
    · cases he
    · have hi := congrArg (fun r => r.bind (fun d => d.intent name)) he
      simp only [Option.bind_some, Record.setIntent_intent_self, Option.some.injEq] at hi
      subst hi
      exact hnew s old hs hb hc ho hn

theorem triple_refreshIntent {Q : Record → World A → Prop} {name : PhaseName} {payload : Payload}
    {rejected : Key × ℕ} {revision : ℕ} (hB : P.Stable i B) (hQ : ∀ a, P.Stable i (Q a))
    (hkeep : ∀ s old, P.inv s → B s →
      s.Holds t old → Q old s)
    (hnew : ∀ s old intent, P.inv s → B s →
      P.cond s (.refresh t.handle name rejected revision) →
      s.Holds t old →
      old.intent name = some intent → intent.payload = payload →
      intent.expectedRevision ≠ revision →
      let new := intent.refreshed t.handle name payload revision
      let s' := s.issue t.handle name old new
      P.inv s' ∧ P.guar i s s' ∧ Q (old.setIntent name new) s') :
    P.Triple i B (storeIntent c (.refresh t.handle name rejected revision) t name
      (refreshIntent t.handle name payload revision)) Q := by
  refine triple_storeIntent hrefl hB hQ (fun old data hf => ?_)
    (fun s old hs hb _ ho _ => hkeep s old hs hb ho) (fun s old new hs hb hc ho hf => ?_)
  · obtain ⟨i, hi, -, ⟨-, he⟩ | ⟨hne, he⟩⟩ := refreshIntent_ok hf
    · cases he
    · cases he
      refine ⟨_, rfl, fun h => hne ?_⟩
      exact congrArg Intent.expectedRevision (Option.some.inj (hi.symm.trans h))
  · obtain ⟨i, hi, hp, ⟨-, he⟩ | ⟨hne, he⟩⟩ := refreshIntent_ok hf
    · cases he
    · have hi' := congrArg (fun r => r.bind (fun d => d.intent name)) he
      simp only [Option.bind_some, Record.setIntent_intent_self, Option.some.injEq] at hi'
      subst hi'
      exact hnew s old i hs hb hc ho hi hp hne

omit hrefl

theorem triple_serveRead {Q : Dict → World A → Prop} {project repository : String} {tool : Tool}
    {arguments : Dict} (hB : P.Stable i B) (hQ : ∀ a, P.Stable i (Q a))
    (h : ∀ s v, P.inv s → B s →
      let out := N.serve s.native ⟨tool, project, repository, arguments, none, none⟩ v
      let s' := { s with native := out.1 }
      P.inv s' ∧ P.guar i s s' ∧ ∀ d, out.2.result = .ok d → Q d s') :
    P.Triple i B (serveRead N project repository tool arguments) Q :=
  triple_atomic hB hQ (fun s v hs hb _ => h s v hs hb)

theorem triple_serveMutation {Q : Dict → World A → Prop} {project repository : String}
    {payload : Payload} {key : Key} {revision : ℕ} (hB : P.Stable i B)
    (hQ : ∀ a, P.Stable i (Q a))
    (h : ∀ s v, P.inv s → B s → P.cond s (.native payload.tool) →
      let out := N.serve s.native
        ⟨payload.tool, project, repository, payload.arguments, some key, some revision⟩ v
      let s' := { s with native := out.1, sent := ⟨payload, key, revision, out.2⟩ :: s.sent }
      P.inv s' ∧ P.guar i s s' ∧ ∀ d, out.2.result = .ok d → Q d s') :
    P.Triple i B (serveMutation N project repository payload key revision) Q :=
  triple_atomic hB hQ (fun s v hs hb hc => h s v hs hb hc)

theorem triple_withScope {Q : α → World A → Prop} {record : Record}
    {k : String → String → Host A α}
    (h : ∀ project repository, P.Triple i B (k project repository) Q) :
    P.Triple i B (withScope record k) Q := by
  unfold withScope
  split
  · exact h _ _
  · exact triple_raise

end Steps

end ProjectControl.Compact
