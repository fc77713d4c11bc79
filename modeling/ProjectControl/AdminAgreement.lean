import Mathlib
import ProjectControl.AdminProposals

/-! What holds of administrator proposals in every run of any number of clients: what is answered
and what is stored for a proposal is the one result that the authority has recorded for it. -/

set_option autoImplicit false

namespace ProjectControl.AdminProposals

open ProjectControl.Compact (Codec Entry Err Journal)
open Resumption Resumption.Spec

section Store

variable {j : Journal} {identity ref project repository : String} {data : Dict}

theorem adminEntries_append (j k : Journal) : adminEntries (j ++ k) = adminEntries j ++ adminEntries k :=
  List.filterMap_append

theorem previews_append (j k : Journal) (ref : String) :
    previews (j ++ k) ref = previews j ref ++ previews k ref := by
  rw [previews, adminEntries_append, List.filterMap_append]
  rfl

theorem previews_new (identity project repository : String) (data : Dict) (ref : String) :
    previews [.adminPreview identity project repository data] ref =
      if identity = ref then [(project, repository, data)] else [] := by
  rw [previews, adminEntries, List.filterMap_cons]
  by_cases h : identity = ref
  · simp [h]
  · simp [h]

theorem previews_setPreview (j : Journal) (identity ref : String) (data : Dict) :
    previews (setPreview j identity data) ref =
      if ref = identity then (previews j ref).map (fun e => (e.1, e.2.1, data)) else previews j ref := by
  induction j with
  | nil => split_ifs <;> rfl
  | cons e j ih =>
    have hcons (e : Entry) (j : Journal) : previews (e :: j) ref = previews [e] ref ++ previews j ref :=
      previews_append [e] j ref
    rw [setPreview, List.map_cons, hcons, hcons e j]
    rw [setPreview] at ih
    rw [ih]
    cases e with
    | workflow | current => rfl
    | adminPreview h p r d =>
      rw [previews_new, previews_new]
      by_cases heq : h = ref
      · by_cases hself : ref = identity
        · simp [heq, hself]
        · simp [heq, hself]
      · simp [heq]

theorem previews_setPreview_of_ne (j : Journal) {identity ref : String} (data : Dict)
    (hne : ref ≠ identity) : previews (setPreview j identity data) ref = previews j ref := by
  rw [previews_setPreview, if_neg hne]

/-- There is one record of a proposal. -/
theorem previews_inj {p p' r r' : String} {data' : Dict} (h : previews j ref = [(p, r, data)])
    (h' : previews j ref = [(p', r', data')]) : data = data' := by
  rw [h, List.cons.injEq, Prod.mk.injEq, Prod.mk.injEq] at h'
  exact h'.1.2.2

variable {c : Codec} {digest : String → String} {action packageDigest key : String}
  {authorityRevision : Option ℤ} {proposalRef : Json} {result preview : Dict} {revision : ℤ}

theorem find_some (h : find j ref project repository = .ok (some data)) :
    previews j ref = [(project, repository, data)] := by
  rw [find] at h
  split at h
  · cases h
  · next p r d hrow =>
    split_ifs at h with hscope
    rw [not_or, not_not, not_not] at hscope
    rw [Except.ok.injEq, Option.some_inj] at h
    rw [hrow, hscope.1, hscope.2, h]
  · cases h

theorem getAdminPreview_some (h : getAdminPreview c project repository proposalRef action
      packageDigest authorityRevision j = .ok (some data)) :
    ∃ ref, proposalRef = .str ref ∧ previews j ref = [(project, repository, data)] ∧
      Dict.value data "action" = .str action := by
  obtain ⟨_, _, h⟩ := Compact.Store.bind_eq_ok.mp h
  obtain ⟨_, _, h⟩ := Compact.Store.bind_eq_ok.mp h
  cases proposalRef with
  | str ref =>
    obtain ⟨_, _, h⟩ := Compact.Store.bind_eq_ok.mp h
    obtain ⟨j', hread, h⟩ := Compact.Store.bind_eq_ok.mp h
    obtain ⟨found, hfind, h⟩ := Compact.Store.bind_eq_ok.mp h
    rw [Compact.Store.read_ok hread] at hfind
    cases found with
    | none => cases h
    | some record =>
      have hmatch : Dict.value record "action" = .str action ∧ record = data := by
        simp only at h
        by_cases hother : Dict.value record "action" ≠ .str action ∨
            Dict.value record "package_digest" ≠ .str packageDigest
        · rw [if_pos hother] at h
          cases h
        · rw [if_neg hother] at h
          rw [not_or, not_not, not_not] at hother
          split_ifs at h with hrevision
          · cases h
          · rw [Except.ok.injEq, Option.some_inj] at h
            exact ⟨hother.1, h⟩
      obtain ⟨haction, rfl⟩ := hmatch
      exact ⟨ref, rfl, find_some hfind, haction⟩
  | null | bool | num | arr | obj => cases h

theorem recordAdminPreview_ok {token : String} {j' : Journal}
    (h : recordAdminPreview c digest project repository action packageDigest revision preview j token =
      .ok (ref, j')) : ref = token ∧ previews j token = [] ∧ ∃ key, j' = j ++ [.adminPreview token
        project repository (previewData action packageDigest revision preview key)] := by
  obtain ⟨_, _, h⟩ := Compact.Store.bind_eq_ok.mp h
  obtain ⟨_, _, h⟩ := Compact.Store.bind_eq_ok.mp h
  obtain ⟨_, _, h⟩ := Compact.Store.bind_eq_ok.mp h
  split_ifs at h with hdigest
  obtain ⟨_, _, h⟩ := Compact.Store.bind_eq_ok.mp h
  obtain ⟨_, _, h⟩ := Compact.Store.bind_eq_ok.mp h
  obtain ⟨j₁, hread, h⟩ := Compact.Store.bind_eq_ok.mp h
  rw [Compact.Store.read_ok hread] at h
  split_ifs at h with hfull hused
  obtain ⟨j₂, hwrite, h⟩ := Compact.Store.bind_eq_ok.mp h
  rw [Except.ok.injEq, Prod.mk.injEq] at h
  rw [not_not] at hused
  refine ⟨h.1.symm, hused, "pc-" ++ String.ofList ((digest token).toList.take 48), ?_⟩
  rw [← h.2, Compact.Store.write_ok hwrite]

/-- What a receipt does to a journal: it is the first one, or the same as the one that is there. -/
theorem completeAdminPreview_ok {j' : Journal}
    (h : completeAdminPreview c project repository ref key result j = .ok j') :
    ∃ data, previews j ref = [(project, repository, data)] ∧
      Dict.value data "idempotency_key" = .str key ∧
      ((Dict.value data "result" = .null ∧
          j' = setPreview j ref (Keyed.assign data "result" (.obj result))) ∨
        Dict.value data "result" ≠ .null ∧ j' = j) := by
  obtain ⟨_, _, h⟩ := Compact.Store.bind_eq_ok.mp h
  obtain ⟨_, _, h⟩ := Compact.Store.bind_eq_ok.mp h
  obtain ⟨_, _, h⟩ := Compact.Store.bind_eq_ok.mp h
  obtain ⟨_, _, h⟩ := Compact.Store.bind_eq_ok.mp h
  obtain ⟨j₁, hread, h⟩ := Compact.Store.bind_eq_ok.mp h
  rw [Compact.Store.read_ok hread] at h
  obtain ⟨found, hfind, h⟩ := Compact.Store.bind_eq_ok.mp h
  cases found with
  | none => cases h
  | some data =>
    simp only at h
    split_ifs at h with hkey hresult hconflict
    · rw [not_not] at hkey
      exact ⟨data, find_some hfind, hkey, Or.inl ⟨hresult, Compact.Store.write_ok h⟩⟩
    · rw [not_not] at hkey
      rw [Except.ok.injEq] at h
      exact ⟨data, find_some hfind, hkey, Or.inr ⟨hresult, h.symm⟩⟩

/-- A conflict between a receipt and the record of its preview. -/
def Conflict (e : Err) : Prop :=
  e = .workflow "admin_preview_idempotency_mismatch" ∨ e = .workflow "admin_preview_result_conflict"

theorem not_conflict_of_component {value name : String} {maximum : ℕ} {e : Err}
    (hname : name ∈ ["project", "repository", "idempotency_key"])
    (h : component c value name maximum = .error e) : ¬ Conflict e := by
  rw [component] at h
  split_ifs at h
  rw [Except.error.injEq] at h
  simp only [List.mem_cons, List.not_mem_nil, or_false] at hname
  rw [← h]
  rcases hname with rfl | rfl | rfl
  all_goals
    rw [Conflict]
    decide

/-- A receipt that agrees with the record is not refused as a conflict. -/
theorem completeAdminPreview_error {p r : String} {e : Err} (hrow : previews j ref = [(p, r, data)])
    (hkey : Dict.value data "idempotency_key" = .str key)
    (hresult : Dict.value data "result" = .null ∨ Dict.value data "result" = .obj result)
    (h : completeAdminPreview c project repository ref key result j = .error e) : ¬ Conflict e := by
  rcases Compact.Store.bind_eq_error.mp h with h | ⟨_, _, h⟩
  · exact not_conflict_of_component (by simp) h
  rcases Compact.Store.bind_eq_error.mp h with h | ⟨_, _, h⟩
  · exact not_conflict_of_component (by simp) h
  rcases Compact.Store.bind_eq_error.mp h with h | ⟨_, _, h⟩
  · exact not_conflict_of_component (by simp) h
  rcases Compact.Store.bind_eq_error.mp h with h | ⟨_, _, h⟩
  · rw [Compact.Store.checkBytes] at h
    split_ifs at h
    rw [← Except.error.inj h, Conflict]
    decide
  rcases Compact.Store.bind_eq_error.mp h with h | ⟨j₁, hread, h⟩
  · rw [Compact.Store.read] at h
    split_ifs at h
    rw [← Except.error.inj h, Conflict]
    decide
  rw [Compact.Store.read_ok hread] at h
  rcases Compact.Store.bind_eq_error.mp h with h | ⟨found, hfind, h⟩
  · rw [find, hrow] at h
    simp only at h
    split_ifs at h
    rw [← Except.error.inj h, Conflict]
    decide
  · cases found with
    | none =>
      rw [← Except.error.inj h, Conflict]
      decide
    | some record =>
      obtain rfl : record = data := previews_inj (find_some hfind) hrow
      simp only at h
      rw [if_neg (not_not.mpr hkey)] at h
      rcases hresult with hnull | hsame
      · rw [if_pos hnull, Compact.Store.write] at h
        split_ifs at h
        rw [← Except.error.inj h, Conflict]
        decide
      · rw [if_neg (by rw [hsame]; simp), if_neg (by rw [hsame]; simp)] at h
        cases h

end Store

section Invariant

variable {A E : Type} (N : NativeAuthority A E)

def textOf : Json → Option String
  | .str s => some s
  | _ => none

/-- The key under which the authority is called for a proposal. -/
def nativeKey (data : Dict) : Option String :=
  if Dict.value data "action" = .str "plan" then textOf (Dict.value data "idempotency_key")
  else match Dict.value data "preview" with
    | .obj preview => match Dict.value preview "prepared_request" with
      | .obj request => textOf (Dict.value request "idempotency_key")
      | _ => none
    | _ => none

/-- What is stored for a proposal: no result, or the one that the authority has recorded. -/
def Recorded (a : A) (data : Dict) : Prop :=
  Dict.value data "result" = .null ∨ ∃ result key, Dict.value data "result" = .obj result ∧
    nativeKey data = some key ∧ N.ledger a key = some result

/-- Every proposal that can be found has no result, or the one that the authority has recorded. -/
def Consistent (s : Shared A) : Prop :=
  ∀ ref p r data, previews s.journal ref = [(p, r, data)] → Recorded N s.authority data

/-- A record as it is, or with its first result. -/
def Completed (data data' : Dict) : Prop :=
  data' = data ∨ Dict.value data "result" = .null ∧
    ∃ result, data' = Keyed.assign data "result" (.obj result)

/-- What every step keeps: what the authority has recorded, its revision or a later one, and the
proposals, apart from a first result. -/
structure Evolves (s s' : Shared A) : Prop where
  ledger : ∀ k result, N.ledger s.authority k = some result → N.ledger s'.authority k = some result
  later : Later (N.revision s.authority) (N.revision s'.authority)
  records : ∀ ref p r data, previews s.journal ref = [(p, r, data)] →
    ∃ data', previews s'.journal ref = [(p, r, data')] ∧ Completed data data'

variable {N}

theorem value_assign {d : Dict} {key name : String} {v : Json} :
    Dict.value (Keyed.assign d key v) name = if name = key then v else Dict.value d name := by
  rw [Dict.value, Dict.get, Keyed.lookup_assign]
  split_ifs <;> rfl

theorem nativeKey_assign (data : Dict) (v : Json) :
    nativeKey (Keyed.assign data "result" v) = nativeKey data := by
  have hother (name : String) (hname : name ≠ "result") :
      Dict.value (Keyed.assign data "result" v) name = Dict.value data name := by
    rw [value_assign, if_neg hname]
  rw [nativeKey, nativeKey, hother "action" (by decide), hother "idempotency_key" (by decide),
    hother "preview" (by decide)]

theorem Completed.value_eq {data data' : Dict} (h : Completed data data') {name : String}
    (hname : name ≠ "result") : Dict.value data' name = Dict.value data name := by
  rcases h with rfl | ⟨_, result, rfl⟩
  · rfl
  · rw [value_assign, if_neg hname]

theorem Completed.nativeKey_eq {data data' : Dict} (h : Completed data data') :
    nativeKey data' = nativeKey data := by
  rcases h with rfl | ⟨_, result, rfl⟩
  · rfl
  · exact nativeKey_assign data _

theorem Later.refl (v : Json) : Later v v := fun n hn => ⟨n, hn, le_rfl⟩

theorem Evolves.of_authority {s s' : Shared A} (hjournal : s'.journal = s.journal)
    (hledger : ∀ k result, N.ledger s.authority k = some result →
      N.ledger s'.authority k = some result)
    (hlater : Later (N.revision s.authority) (N.revision s'.authority)) : Evolves N s s' :=
  ⟨hledger, hlater, fun _ _ _ data hrow => ⟨data, by rw [hjournal, hrow], Or.inl rfl⟩⟩

theorem Evolves.refl (s : Shared A) : Evolves N s s :=
  Evolves.of_authority rfl (fun _ _ h => h) (Later.refl _)

theorem Recorded.mono {a a' : A} {data : Dict} (h : Recorded N a data)
    (hledger : ∀ k result, N.ledger a k = some result → N.ledger a' k = some result) :
    Recorded N a' data := by
  rcases h with hnull | ⟨result, key, hresult, hkey, hrecorded⟩
  · exact Or.inl hnull
  · exact Or.inr ⟨result, key, hresult, hkey, hledger key result hrecorded⟩

/-- The proposals as they were, and an authority that keeps what it has recorded. -/
theorem Consistent.of_authority {s s' : Shared A} (hs : Consistent N s)
    (hjournal : ∀ ref, previews s'.journal ref = previews s.journal ref)
    (hledger : ∀ k result, N.ledger s.authority k = some result →
      N.ledger s'.authority k = some result) : Consistent N s' :=
  fun ref p r data hrow => (hs ref p r data ((hjournal ref).symm.trans hrow)).mono hledger

/-- A proposal that is there, with the key that the authority is called with and the key of the
record. -/
def Held (ref key recordKey : String) (s : Shared A) : Prop :=
  ∃ p r data, previews s.journal ref = [(p, r, data)] ∧ nativeKey data = some key ∧
    Dict.value data "idempotency_key" = .str recordKey

/-- The result that the authority has recorded for a proposal. -/
def HasResult (N : NativeAuthority A E) (ref : String) (result : Dict) (s : Shared A) : Prop :=
  ∃ p r data key, previews s.journal ref = [(p, r, data)] ∧ nativeKey data = some key ∧
    N.ledger s.authority key = some result

theorem Held.evolves {ref key recordKey : String} {s s' : Shared A} (h : Held ref key recordKey s)
    (hs : Evolves N s s') : Held ref key recordKey s' := by
  obtain ⟨p, r, data, hrow, hkey, hrecord⟩ := h
  obtain ⟨data', hrow', hdata⟩ := hs.records ref p r data hrow
  exact ⟨p, r, data', hrow', hdata.nativeKey_eq.trans hkey,
    (hdata.value_eq (by decide)).trans hrecord⟩

theorem HasResult.evolves {ref : String} {result : Dict} {s s' : Shared A}
    (h : HasResult N ref result s) (hs : Evolves N s s') : HasResult N ref result s' := by
  obtain ⟨p, r, data, key, hrow, hkey, hledger⟩ := h
  obtain ⟨data', hrow', hdata⟩ := hs.records ref p r data hrow
  exact ⟨p, r, data', key, hrow', hdata.nativeKey_eq.trans hkey, hs.ledger key result hledger⟩

/-- The result that is stored for a proposal. -/
def Stored (ref : String) (result : Dict) (s : Shared A) : Prop :=
  ∃ p r data, previews s.journal ref = [(p, r, data)] ∧ Dict.value data "result" = .obj result

theorem Stored.evolves {ref : String} {result : Dict} {s s' : Shared A} (h : Stored ref result s)
    (hs : Evolves N s s') : Stored ref result s' := by
  obtain ⟨p, r, data, hrow, hresult⟩ := h
  obtain ⟨data', hrow', hdata⟩ := hs.records ref p r data hrow
  rcases hdata with rfl | ⟨hnull, _⟩
  · exact ⟨p, r, _, hrow', hresult⟩
  · rw [hnull] at hresult
    cases hresult

theorem HasResult.unique {ref : String} {result result' : Dict} {s : Shared A}
    (h : HasResult N ref result s) (h' : HasResult N ref result' s) : result = result' := by
  obtain ⟨p, r, data, key, hrow, hkey, hledger⟩ := h
  obtain ⟨p', r', data', key', hrow', hkey', hledger'⟩ := h'
  rw [← previews_inj hrow hrow', hkey, Option.some_inj] at hkey'
  rw [← hkey', hledger, Option.some_inj] at hledger'
  exact hledger'

/-- A stored result is that of the authority. -/
theorem Consistent.hasResult {s : Shared A} (hs : Consistent N s) {ref : String} {result : Dict}
    (h : Stored ref result s) : HasResult N ref result s := by
  obtain ⟨p, r, data, hrow, hresult⟩ := h
  rcases hs ref p r data hrow with hnull | ⟨stored, key, hstored, hkey, hledger⟩
  · rw [hnull] at hresult
    cases hresult
  · rw [hstored, Json.obj.injEq] at hresult
    exact ⟨p, r, data, key, hrow, hkey, hresult ▸ hledger⟩

end Invariant

section Steps

variable {A E : Type} (N : NativeAuthority A E) (I : Shared A → Prop) {ι : Type}

/-- Every step of every client keeps the proposals consistent, and a property besides. -/
def proposalSpec : Spec ι (Shared A) Step where
  inv := fun s => Consistent N s ∧ I s
  cond := System.anyStep
  guar := fun _ => Evolves N
  env := Evolves N

/-- The property is kept by steps that leave the proposals that are there as they are. -/
def Keeps : Prop := ∀ s s', I s → Evolves N s s' →
  (∀ ref, previews s.journal ref ≠ [] → previews s'.journal ref = previews s.journal ref) → I s'

/-- The property is kept when a proposal gets its result. -/
def Completes (ref : String) : Prop := ∀ s s', I s → Evolves N s s' →
  (∀ other, other ≠ ref → previews s'.journal other = previews s.journal other) → I s'

/-- No revision of the authority is that of the proposal. -/
def Outdated (ref : String) : Prop := ∀ s s' p r data revision, I s → I s' →
  N.revision s.authority = .num revision → previews s'.journal ref = [(p, r, data)] →
    Dict.value data "authority_revision" ≠ .num revision

variable {N I} {i : ι}

theorem Keeps.same (hI : Keeps N I) {s s' : Shared A} (hs : I s) (hevolves : Evolves N s s')
    (hjournal : ∀ ref, previews s'.journal ref = previews s.journal ref) : I s' :=
  hI s s' hs hevolves fun ref _ => hjournal ref

theorem rely_evolves {s s' : Shared A} (h : (proposalSpec N I).Rely i s s') : Evolves N s s' := by
  rcases h.2.2 with ⟨j, _, hguar⟩ | henv
  · exact hguar
  · exact henv

theorem stable_held (ref key recordKey : String) :
    (proposalSpec N I).Stable i (Held ref key recordKey) :=
  fun _ _ hrely h => h.evolves (rely_evolves hrely)

theorem stable_hasResult (ref : String) (result : Dict) :
    (proposalSpec N I).Stable i (HasResult N ref result) :=
  fun _ _ hrely h => h.evolves (rely_evolves hrely)

/-- A step that only reads. -/
theorem triple_reads {α : Type} {step : Step} {f : Shared A → Input → Except Fault α} :
    (proposalSpec N I).Triple i (fun _ => True) (Prog.atomic step fun s v => (s, f s v))
      (fun _ _ => True) :=
  triple_atomic stable_true (fun _ => stable_true)
    (fun s _ hs _ _ => ⟨hs, Evolves.refl s, fun _ _ => trivial⟩)

theorem triple_ofExcept {α : Type} {x : Except Fault α} {B : Shared A → Prop}
    (hB : (proposalSpec N I).Stable i B) : (proposalSpec N I).Triple (ν := Input) i B (Prog.ofExcept x)
      (fun a s => x = .ok a ∧ B s) := by
  cases x with
  | ok a => exact triple_done ((stable_const _).and hB) (fun _ _ h => ⟨rfl, h⟩)
  | error e => exact triple_fail

variable {c : Codec} {digest : String → String} {project repository : String}

/-- A new proposal has no result, and takes the place of none. -/
theorem triple_record (hI : Keeps N I) {action packageDigest : String} {revision : ℤ}
    {preview : Dict} :
    (proposalSpec N I).Triple i (fun _ => True)
      (stored .record (recordAdminPreview c digest project repository action packageDigest revision
        preview) : Client A String) (fun _ _ => True) := by
  apply triple_atomic stable_true (fun _ => stable_true)
  intro s v hs _ _
  cases hrecord : recordAdminPreview c digest project repository action packageDigest revision
      preview s.journal v.token with
  | error e => exact ⟨hs, Evolves.refl s, fun _ _ => trivial⟩
  | ok out =>
    obtain ⟨ref, j⟩ := out
    obtain ⟨rfl, hnone, key, rfl⟩ := recordAdminPreview_ok hrecord
    have hrows (other : String) : previews (s.journal ++ [.adminPreview v.token project repository
        (previewData action packageDigest revision preview key)]) other =
        previews s.journal other ++ if v.token = other then [(project, repository,
          previewData action packageDigest revision preview key)] else [] := by
      rw [previews_append, previews_new]
    have hold (other : String) (hother : previews s.journal other ≠ []) :
        previews (s.journal ++ [.adminPreview v.token project repository
          (previewData action packageDigest revision preview key)]) other =
          previews s.journal other := by
      have hne : v.token ≠ other := by
        intro heq
        rw [heq] at hnone
        exact hother hnone
      rw [hrows other, if_neg hne, List.append_nil]
    have hevolves : Evolves N s { s with journal := s.journal ++ [.adminPreview v.token project
        repository (previewData action packageDigest revision preview key)] } := by
      refine ⟨fun _ _ h => h, Later.refl _, ?_⟩
      intro other p r data hrow
      exact ⟨data, (hold other (by rw [hrow]; simp)).trans hrow, Or.inl rfl⟩
    refine ⟨⟨?_, hI s _ hs.2 hevolves hold⟩, hevolves, fun _ _ => trivial⟩
    intro other p r data hrow
    rw [show previews _ other = _ from hrows other] at hrow
    by_cases hother : v.token = other
    · rw [if_pos hother, ← hother, hnone, List.nil_append, List.cons.injEq, Prod.mk.injEq,
        Prod.mk.injEq] at hrow
      rw [← hrow.1.2.2]
      exact Or.inl rfl
    · rw [if_neg hother, List.append_nil] at hrow
      exact hs.1 other p r data hrow

/-- What a call knows of a proposal that it has read: a stored result is recorded, and its keys
are those that the record still has. -/
def Known (I : Shared A → Prop) (proposalRef : Json) (action : String) (data : Dict)
    (s : Shared A) : Prop :=
  ∃ ref, proposalRef = .str ref ∧ Dict.value data "action" = .str action ∧
    (∃ s' p r, I s' ∧ previews s'.journal ref = [(p, r, data)]) ∧
    (∀ result, Dict.value data "result" = .obj result → Stored ref result s) ∧
    ∀ key recordKey, nativeKey data = some key →
      Dict.value data "idempotency_key" = .str recordKey → Held ref key recordKey s

theorem stable_known (proposalRef : Json) (action : String) (data : Dict) :
    (proposalSpec N I).Stable i (Known I proposalRef action data) := by
  rintro s s' hrely ⟨ref, href, haction, hread, hresult, hheld⟩
  exact ⟨ref, href, haction, hread,
    fun result hr => (hresult result hr).evolves (rely_evolves hrely),
    fun key recordKey hk hrk => (hheld key recordKey hk hrk).evolves (rely_evolves hrely)⟩

/-- The revision that a call reads is one that the authority had. -/
theorem triple_revision : (proposalSpec N I).Triple i (fun _ => True) (authorityRevision N)
    (fun revision _ => ∃ s, I s ∧ N.revision s.authority = .num revision) := by
  apply triple_atomic stable_true (fun _ => stable_const _)
  intro s v hs _ _
  refine ⟨hs, Evolves.refl s, ?_⟩
  intro revision hrevision
  refine ⟨s, hs.2, ?_⟩
  cases hunreached : v.unreached with
  | some reason =>
    simp only [hunreached] at hrevision
    cases hrevision
  | none =>
    simp only [hunreached] at hrevision
    split at hrevision
    · next n hn =>
      split_ifs at hrevision
      rw [hn, Except.ok.inj hrevision]
    · cases hrevision

/-- What a call reads of a proposal. -/
theorem triple_get {proposalRef : Json} {action packageDigest : String} :
    (proposalSpec N I).Triple i (fun _ => True)
      (stored .get (fun j _ => (getAdminPreview c project repository proposalRef action packageDigest
        none j).map (·, j)) : Client A (Option Dict))
      (fun found s => ∀ data, found = some data → Known I proposalRef action data s) := by
  apply triple_atomic stable_true
  · intro found s s' hrely h data hdata
    exact stable_known proposalRef action data s s' hrely (h data hdata)
  · intro s v hs _ _
    cases hget : getAdminPreview c project repository proposalRef action packageDigest none
        s.journal with
    | error e =>
      simp only [hget, Except.map]
      exact ⟨hs, Evolves.refl s, fun _ hfound => by cases hfound⟩
    | ok out =>
      simp only [hget, Except.map]
      refine ⟨hs, Evolves.refl s, ?_⟩
      intro found hfound data hdata
      have hout : out = some data := by
        rw [← hdata]
        exact Except.ok.inj hfound
      rw [hout] at hget
      obtain ⟨ref, href, hrow, haction⟩ := getAdminPreview_some hget
      exact ⟨ref, href, haction, ⟨s, _, _, hs.2, hrow⟩, fun result hr => ⟨_, _, data, hrow, hr⟩,
        fun key recordKey hk hrk => ⟨_, _, data, hrow, hk, hrk⟩⟩

/-- What the authority answers, it has recorded under the key. -/
theorem triple_carryOut (hN : N.Lawful) (hI : Keeps N I) {tool : NativeTool} {args : Dict} {key : String}
    {B : Shared A → Prop} (hB : ∀ s s', Evolves N s s' → B s → B s') :
    (proposalSpec N I).Triple i B (carryOut N tool args key)
      (fun result s => B s ∧ N.ledger s.authority key = some result) := by
  apply triple_atomic (fun s s' hrely h => hB s s' (rely_evolves hrely) h)
  · intro result s s' hrely h
    have hevolves := rely_evolves hrely
    exact ⟨hB s s' hevolves h.1, hevolves.ledger key result h.2⟩
  · intro s v hs hb _
    cases hunreached : v.unreached with
    | some reason => exact ⟨hs, Evolves.refl s, fun _ hr => by cases hr⟩
    | none =>
      have hevolves : Evolves N s { s with authority := (N.carryOut s.authority tool args key).1 } :=
        Evolves.of_authority rfl (hN.carryOut_keeps _ _ _ _) (hN.carryOut_later _ _ _ _)
      refine ⟨⟨hs.1.of_authority (fun _ => rfl) (hN.carryOut_keeps _ _ _ _),
        hI.same hs.2 hevolves fun _ => rfl⟩, hevolves, ?_⟩
      intro result hresult
      cases hlost : v.lost with
      | some reason =>
        simp only [hlost] at hresult
        cases hresult
      | none =>
        simp only [hlost] at hresult
        have hreply : (N.carryOut s.authority tool args key).2 = .ok result := by
          cases hcarry : (N.carryOut s.authority tool args key).2 with
          | error e =>
            rw [hcarry] at hresult
            cases hresult
          | ok r =>
            rw [hcarry] at hresult
            rw [Except.ok.inj hresult]
        exact ⟨hB _ _ hevolves hb, hN.recorded _ _ _ _ _ hreply⟩

/-- What the authority answers for a proposal. -/
theorem triple_carryOut_held (hN : N.Lawful) (hI : Keeps N I) {tool : NativeTool} {args : Dict}
    (ref recordKey : String) {key : String} :
    (proposalSpec N I).Triple i (Held ref key recordKey) (carryOut N tool args key)
      (fun result s => Held ref key recordKey s ∧ HasResult N ref result s) := by
  apply triple_post (triple_carryOut hN hI fun _ _ hevolves h => h.evolves hevolves)
  rintro result s ⟨hheld, hledger⟩
  refine ⟨hheld, ?_⟩
  obtain ⟨p, r, data, hrow, hkey, _⟩ := hheld
  exact ⟨p, r, data, key, hrow, hkey, hledger⟩

/-- The proposal that a call consumes. -/
def Call.ref : Call → Option String
  | .apply _ ref => some ref
  | .execute _ request => match Dict.value request "proposal_ref" with
    | .str ref => some ref
    | _ => none
  | _ => none

/-- What an answer to a call means: a result is the one that is stored for the proposal, and an
exception is no conflict. -/
def Means (call : Call) : Answer → Shared A → Prop
  | .result result, s => ∀ ref, call.ref = some ref → Stored ref result s
  | .raised e, _ => ∀ error, e = .store error → ¬ Conflict error
  | _, _ => True

theorem stable_means (call : Call) (answer : Answer) :
    (proposalSpec N I).Stable i (Means call answer) := by
  intro s s' hrely h
  cases answer with
  | result result => exact fun ref href => (h ref href).evolves (rely_evolves hrely)
  | raised e => exact h
  | preview | needsPreview | prepared | needsPrepare => trivial

theorem triple_answer {call : Call} {answer : Answer} {B : Shared A → Prop}
    (h : ∀ s, B s → Means call answer s) : (proposalSpec N I).Triple (ν := Input) (ε := Fault) i B
      (.done answer) (Means call) :=
  triple_done (stable_means call answer) (fun s _ hs => h s hs)

/-- The receipt of a recorded result is stored, or is there already. -/
theorem triple_complete {call : Call} {ref key recordKey : String} {result : Dict}
    (hcompletes : Completes N I ref) (hcall : call.ref = some ref) : (proposalSpec N I).Triple i
      (fun s => Held ref key recordKey s ∧ HasResult N ref result s)
      (complete c project repository ref recordKey result) (Means call) := by
  apply triple_atomic ((stable_held ref key recordKey).and (stable_hasResult ref result))
    (stable_means call)
  intro s v hs hassertion _
  obtain ⟨⟨p, r, data, hrow, hkey, hrecord⟩, hresult⟩ := hassertion
  have hmeans {s' : Shared A} (hstored : Stored ref result s') (answer : Answer)
      (hanswer : (.ok (.result result) : Except Fault Answer) = .ok answer) :
      Means call answer s' := by
    rw [← Except.ok.inj hanswer]
    intro ref' href'
    rw [hcall, Option.some_inj] at href'
    rwa [← href']
  cases hcomplete : completeAdminPreview c project repository ref recordKey result s.journal with
  | error e =>
    -- what is stored already is the recorded result, too
    have hstored : Dict.value data "result" = .null ∨ Dict.value data "result" = .obj result := by
      rcases hs.1 ref p r data hrow with hnull | ⟨stored, key', hstored, _⟩
      · exact Or.inl hnull
      · right
        rw [hstored, (hs.1.hasResult ⟨p, r, data, hrow, hstored⟩).unique hresult]
    refine ⟨hs, Evolves.refl s, ?_⟩
    intro answer hanswer
    rw [← Except.ok.inj hanswer]
    intro error herror
    cases herror
    exact completeAdminPreview_error hrow hrecord hstored hcomplete
  | ok j =>
    obtain ⟨data', hrow', _, hjournal⟩ := completeAdminPreview_ok hcomplete
    obtain rfl : data' = data := previews_inj hrow' hrow
    rcases hjournal with ⟨hnull, rfl⟩ | ⟨hnull, rfl⟩
    · set data := Keyed.assign data' "result" (.obj result)
      have hself : previews (setPreview s.journal ref data) ref = [(project, repository, data)] := by
        rw [previews_setPreview, if_pos rfl, hrow']
        rfl
      have hevolves : Evolves N s { s with journal := setPreview s.journal ref data } := by
        refine ⟨fun _ _ h => h, Later.refl _, ?_⟩
        intro other p' r' old hold
        by_cases hother : other = ref
        · subst hother
          cases hrow'.symm.trans hold
          exact ⟨data, hself, Or.inr ⟨hnull, result, rfl⟩⟩
        · exact ⟨old, by rw [previews_setPreview_of_ne _ _ hother, hold], Or.inl rfl⟩
      have hkept : I { s with journal := setPreview s.journal ref data } :=
        hcompletes s _ hs.2 hevolves fun other hother => previews_setPreview_of_ne _ _ hother
      refine ⟨⟨?_, hkept⟩, hevolves, ?_⟩
      · intro other p' r' new hnew
        by_cases hother : other = ref
        · subst hother
          rw [← previews_inj hself hnew]
          obtain ⟨p₂, r₂, data₂, key₂, hrow₂, hkey₂, hledger⟩ := hresult
          rw [← previews_inj hrow' hrow₂] at hkey₂
          refine Or.inr ⟨result, key₂, ?_, (nativeKey_assign data' _).trans hkey₂, hledger⟩
          rw [value_assign, if_pos rfl]
        · rw [previews_setPreview_of_ne _ _ hother] at hnew
          exact hs.1 other p' r' new hnew
      · exact hmeans ⟨project, repository, data, hself, by rw [value_assign, if_pos rfl]⟩
    · refine ⟨hs, Evolves.refl s, hmeans ?_⟩
      rcases hs.1 ref _ _ data' hrow' with hnone | ⟨stored, _, hstored, _⟩
      · exact absurd hnone hnull
      · refine ⟨_, _, data', hrow', ?_⟩
        rw [hstored, (hs.1.hasResult ⟨_, _, data', hrow', hstored⟩).unique hresult]

end Steps

section Programs

variable {A E : Type} {N : NativeAuthority A E} {I : Shared A → Prop} {ι : Type} {i : ι} {c : Codec}
  {digest : String → String} {project repository : String}

theorem triple_fact {α : Type} {p : Client A α} {P : Prop} {B : Shared A → Prop}
    {Q : α → Shared A → Prop} (h : P → (proposalSpec N I).Triple i B p Q) :
    (proposalSpec N I).Triple i (fun s => P ∧ B s) p Q :=
  fun s hs hb => h hb.1 s hs hb.2

theorem triple_const {α : Type} {p : Client A α} {P : Prop} {Q : α → Shared A → Prop}
    (h : P → (proposalSpec N I).Triple i (fun _ => True) p Q) :
    (proposalSpec N I).Triple i (fun _ => P) p Q :=
  fun s hs hb => h hb s hs trivial

theorem triple_makePreview (hI : Keeps N I) {action : String} {nativePlan : Dict} :
    (proposalSpec N I).Triple i (fun _ => True)
      (makePreview N c digest project repository action nativePlan)
      (Means (.preview action nativePlan)) := by
  apply triple_bind (triple_ofExcept stable_true)
  rintro ⟨packageJson, packageDigest⟩
  apply triple_bind (triple_pre triple_reads fun _ _ _ => trivial)
  intro revision
  apply triple_bind triple_reads
  intro preview
  apply triple_bind (triple_record hI)
  intro ref
  exact triple_answer fun _ _ => trivial

/-- A record whose result is read: the one that is stored, or none. -/
theorem triple_result {call : Call} {ref action : String} {record : Dict} (hcall : call.ref = some ref)
    {proceed : Client A Answer} (hproceed : (proposalSpec N I).Triple i
      (Known I (.str ref) action record) proceed (Means call)) :
    (proposalSpec N I).Triple i (Known I (.str ref) action record)
      (Prog.ofExcept (storedResult record) >>= fun found => match found with
        | some result => pure (.result result)
        | none => proceed) (Means call) := by
  apply triple_bind (triple_ofExcept (stable_known (.str ref) action record))
  intro found
  cases found with
  | none => exact triple_pre hproceed fun _ _ h => h.2
  | some result =>
    apply triple_answer
    rintro s ⟨hstored, ref', href', _, _, hresult, _⟩
    have hobj : Dict.value record "result" = .obj result := by
      rw [storedResult] at hstored
      split at hstored
      · cases hstored
      · next r hr => rw [hr, Option.some_inj.mp (Except.ok.inj hstored)]
      · cases hstored
    rw [Json.str.injEq] at href'
    intro other hother
    rw [hcall, Option.some_inj] at hother
    rw [← hother, href']
    exact hresult result hobj

/-- A proposal that is of the revision that was read is not outdated. -/
theorem Known.not_outdated {ref action : String} {record : Dict} {revision : ℤ} {s : Shared A}
    (h : Known I (.str ref) action record s) (houtdated : Outdated N I ref)
    (hread : ∃ s, I s ∧ N.revision s.authority = .num revision)
    (hrevision : Dict.value record "authority_revision" = .num revision) : False := by
  obtain ⟨ref', href', _, ⟨s', p, r, hs', hrow⟩, _⟩ := h
  rw [Json.str.injEq] at href'
  rw [← href'] at hrow
  obtain ⟨s'', hs'', hauthority⟩ := hread
  exact houtdated s'' s' p r record revision hs'' hs' hauthority hrow hrevision

theorem Known.held {ref action key recordKey : String} {record : Dict} {s : Shared A}
    (h : Known I (.str ref) action record s) (hkey : nativeKey record = some key)
    (hrecord : Dict.value record "idempotency_key" = .str recordKey) : Held ref key recordKey s := by
  obtain ⟨ref', href', _, _, _, hheld⟩ := h
  rw [Json.str.injEq] at href'
  rw [href']
  exact hheld key recordKey hkey hrecord

theorem triple_applyProposal (hN : N.Lawful) (hI : Keeps N I)
    (hopen : ∀ ref, Completes N I ref ∨ Outdated N I ref) {nativePlan : Dict} {ref : String} :
    (proposalSpec N I).Triple i (fun _ => True)
      (applyProposal N c digest project repository nativePlan ref)
      (Means (.apply nativePlan ref)) := by
  apply triple_bind (triple_ofExcept stable_true)
  rintro ⟨packageJson, packageDigest⟩
  apply triple_bind (triple_pre triple_revision fun _ _ _ => trivial)
  intro revision
  apply triple_const
  intro hread
  by_cases hempty : ref = ""
  · rw [if_pos hempty]
    exact triple_fail
  · rw [if_neg hempty]
    apply triple_bind triple_get
    intro found
    cases found with
    | none => exact triple_answer fun _ _ => trivial
    | some record =>
      apply triple_pre (B := Known I (.str ref) "plan" record) _ fun _ _ h => h record rfl
      apply triple_result rfl
      by_cases hrevision : Dict.value record "authority_revision" ≠ .num revision
      · rw [if_pos hrevision]
        exact triple_answer fun _ _ => trivial
      · rw [if_neg hrevision]
        rw [not_not] at hrevision
        rcases hopen ref with hcompletes | houtdated
        · split
          · next preview key _ hkey =>
            have hheld (s : Shared A) (h : Known I (.str ref) "plan" record s) : Held ref key key s := by
              have hknown := h
              obtain ⟨_, _, haction, _⟩ := hknown
              refine h.held ?_ hkey
              rw [nativeKey, if_pos haction, hkey]
              rfl
            apply triple_bind (triple_pre (triple_carryOut_held hN hI ref key) fun s _ h => hheld s h)
            intro result
            exact triple_complete hcompletes rfl
          · exact triple_fail
        · intro s _ hknown
          exact (hknown.not_outdated houtdated hread hrevision).elim

theorem triple_prepareRequest (hI : Keeps N I) {action : Lifecycle} {intent : Dict} :
    (proposalSpec N I).Triple i (fun _ => True)
      (prepareRequest N c digest project repository action intent)
      (Means (.prepare action intent)) := by
  apply triple_bind (triple_ofExcept stable_true)
  intro runId
  apply triple_bind (triple_pre triple_reads fun _ _ _ => trivial)
  intro revision
  apply triple_bind triple_reads
  intro _
  apply triple_bind (triple_ofExcept stable_true)
  rintro ⟨_, intentDigest⟩
  apply triple_bind (triple_pre triple_reads fun _ _ _ => trivial)
  intro token
  apply triple_bind (triple_record hI)
  intro ref
  exact triple_answer fun _ _ => trivial

/-- A text of a mapping stands in every equal one. -/
theorem sameJson_text {v : Json} {request : Dict} {name s : String}
    (h : sameJson v (.obj request) = true) (hname : Dict.value request name = .str s) :
    ∃ fields, v = .obj fields ∧ Dict.value fields name = .str s := by
  have hrequest : request.lookup name = some (.str s) := by
    rw [Dict.value, Dict.get] at hname
    cases hlookup : request.lookup name with
    | none =>
      rw [hlookup] at hname
      cases hname
    | some w =>
      rw [hlookup] at hname
      rw [← hname]
      rfl
  cases v with
  | obj fields =>
    refine ⟨fields, rfl, ?_⟩
    rw [sameJson, Values.ofJson, Values.ofJson, Values.Value.same, Bool.and_eq_true,
      Values.Fields.sameFields_iff, List.all_eq_true] at h
    obtain ⟨hsame, hkeys⟩ := h
    have hmem : (name, Values.Value.str s) ∈ Values.ofFields request := by
      apply Values.Fields.mem_of_lookup
      rw [Values.lookup_ofFields, hrequest]
      rfl
    obtain ⟨w, hw⟩ := Option.isSome_iff_exists.mp (hkeys _ hmem)
    obtain ⟨w', hw', hsame'⟩ := hsame name w (by simp) hw
    rw [Values.lookup_ofFields, hrequest, Option.map_some, Option.some_inj] at hw'
    rw [← hw', Values.ofJson, Values.Value.same_str] at hsame'
    rw [Values.lookup_ofFields] at hw
    obtain ⟨u, hu, hjson⟩ := Option.map_eq_some_iff.mp hw
    rw [Dict.value, Dict.get, hu]
    have hstr : u = .str s := Values.ofJson_injective (hjson.trans hsame')
    rw [hstr]
    rfl
  | null | bool | num | str | arr =>
    simp [sameJson, Values.ofJson, Values.Value.same, Values.Value.number?] at h

theorem Lifecycle.text_ne_plan (action : Lifecycle) : action.text ≠ "plan" := by
  cases action with
  | closeRun | retire | supersede => decide

/-- The key of a request that is the stored one is the key of the proposal. -/
theorem nativeKey_of_request {record preview request : Dict} {prepared : Json} {key : String}
    {action : Lifecycle} (haction : Dict.value record "action" = .str action.text)
    (hpreview : Dict.value record "preview" = .obj preview)
    (hprepared : prepared = Dict.value preview "prepared_request")
    (hsame : sameJson prepared (.obj request) = true)
    (hkey : Dict.value request "idempotency_key" = .str key) : nativeKey record = some key := by
  obtain ⟨fields, hfields, htext⟩ := sameJson_text hsame hkey
  have hother : ¬ Dict.value record "action" = .str "plan" := by
    rw [haction, Json.str.injEq]
    exact action.text_ne_plan
  rw [nativeKey, if_neg hother, hpreview]
  simp only
  rw [← hprepared, hfields]
  simp only
  rw [htext]
  rfl

theorem triple_executeRequest (hN : N.Lawful) (hI : Keeps N I)
    (hopen : ∀ ref, Completes N I ref ∨ Outdated N I ref) {action : Lifecycle} {request : Dict} :
    (proposalSpec N I).Triple i (fun _ => True)
      (executeRequest N c project repository action request) (Means (.execute action request)) := by
  apply triple_bind (triple_ofExcept stable_true)
  intro _
  dsimp only
  split
  · next intentDigest _ =>
    by_cases hlength : intentDigest.length ≠ 64
    · simp only [if_pos hlength]
      exact triple_fail
    · simp only [if_neg hlength]
      apply triple_bind (triple_pre triple_revision fun _ _ _ => trivial)
      intro revision
      apply triple_const
      intro hread
      apply triple_bind triple_get
      intro found
      cases found with
      | none => exact triple_fail
      | some record =>
        -- only a text leads to a record
        intro s hs hfound
        obtain ⟨ref, href, haction, _⟩ := hfound record rfl
        have hcall : (Call.execute action request).ref = some ref := by
          rw [Call.ref, href]
        rw [href] at hfound ⊢
        apply triple_bind (triple_ofExcept (stable_known (.str ref) action.text record)) _ s hs
          (hfound record rfl)
        intro prepared
        apply triple_fact
        intro hprepared
        by_cases hsame : sameJson prepared (.obj (without "proposal_ref" request)) = true
        · rw [hsame]
          apply triple_result hcall
          split_ifs with hrevision
          · exact triple_answer fun _ _ => trivial
          · rw [not_or, not_not] at hrevision
            rcases hopen ref with hcompletes | houtdated
            · split
              · next ref' key href' hkey =>
                rw [Json.str.injEq] at href'
                subst href'
                have hnative : nativeKey record = some key := by
                  rw [storedRequest] at hprepared
                  split at hprepared
                  · next preview hpreview =>
                    exact nativeKey_of_request haction hpreview (Except.ok.inj hprepared).symm hsame
                      hkey
                  · cases hprepared
                by_cases hrecord : ∃ recordKey, Dict.value record "idempotency_key" = .str recordKey
                · obtain ⟨recordKey, hrecord⟩ := hrecord
                  apply triple_bind (triple_pre (triple_carryOut_held hN hI ref recordKey)
                    fun s _ h => h.held hnative hrecord)
                  intro result
                  rw [hrecord]
                  exact triple_complete hcompletes hcall
                · apply triple_bind (triple_pre (triple_carryOut hN hI (B := fun _ => True)
                    fun _ _ _ h => h) fun _ _ _ => trivial)
                  intro result
                  split
                  · next recordKey hkey' => exact absurd ⟨recordKey, hkey'⟩ hrecord
                  · exact triple_fail
              · exact triple_fail
            · intro s _ hknown
              exact (hknown.not_outdated houtdated hread hrevision.1).elim
        · simp only [hsame, Bool.not_false, if_true]
          exact triple_fail
  · exact triple_fail

end Programs

section Runs

/-- What others do: they change the journal beside the proposals, and the authority. -/
inductive Change (E : Type)
  | journal (j : Journal)
  | authority (e : E)

/-- A call with the project and the repository that it is for. -/
structure Request where
  project : String
  repository : String
  call : Call

variable {A E : Type} (N : NativeAuthority A E) (c : Codec) (digest : String → String) {ι : Type}

/-- The clients: each takes its calls one after the other, and may be cut off between two steps. -/
def proposalSystem :
    System ι (Shared A) Input Step Fault (Request × Answer) Request (Change E) where
  program := fun _ request => do
    let answer ← plan N c digest request.project request.repository request.call
    pure (request, answer)
  crash := fun _ s => s
  env := fun s e => match e with
    | .journal j => if adminEntries j = adminEntries s.journal then some { s with journal := j } else none
    | .authority e => (N.evolve s.authority e).map (fun a => { s with authority := a })

variable {N c digest} {I : Shared A → Prop}

theorem previews_congr {j k : Journal} (h : adminEntries j = adminEntries k) (ref : String) :
    previews j ref = previews k ref := by
  rw [previews, previews, h]

theorem triple_program (hN : N.Lawful) (hI : Keeps N I)
    (hopen : ∀ ref, Completes N I ref ∨ Outdated N I ref) (i : ι) (request : Request) :
    (proposalSpec N I).Triple i (fun _ => True)
      ((proposalSystem N c digest).program i request) (fun out => Means out.1.call out.2) := by
  have hplan : (proposalSpec N I).Triple i (fun _ => True)
      (plan N c digest request.project request.repository request.call) (Means request.call) := by
    cases request.call with
    | preview action nativePlan => exact triple_makePreview hI
    | apply nativePlan ref => exact triple_applyProposal hN hI hopen
    | prepare action intent => exact triple_prepareRequest hI
    | execute action prepared => exact triple_executeRequest hN hI hopen
  apply triple_bind hplan
  intro answer
  exact triple_done (stable_means request.call answer) (fun _ _ h => h)

theorem proposalSystem_sound [DecidableEq ι] (hN : N.Lawful) (hI : Keeps N I)
    (hopen : ∀ ref, Completes N I ref ∨ Outdated N I ref) :
    (proposalSpec (ι := ι) N I).Sound (proposalSystem N c digest) where
  crash := fun _ s hs => ⟨hs, Evolves.refl s⟩
  env := by
    intro s e s' hs he
    cases e with
    | journal j =>
      simp only [proposalSystem] at he
      split_ifs at he with hsame
      rw [Option.some_inj] at he
      subst he
      have hevolves : Evolves N s { s with journal := j } := by
        refine ⟨fun _ _ h => h, Later.refl _, ?_⟩
        intro ref p r data hrow
        exact ⟨data, (previews_congr hsame ref).trans hrow, Or.inl rfl⟩
      exact ⟨⟨hs.1.of_authority (previews_congr hsame) fun _ _ h => h,
        hI.same hs.2 hevolves (previews_congr hsame)⟩, hevolves⟩
    | authority e =>
      obtain ⟨a, ha, rfl⟩ := Option.map_eq_some_iff.mp he
      have hevolves : Evolves N s { s with authority := a } :=
        Evolves.of_authority rfl (fun k result => hN.evolve_keeps _ _ _ k result ha)
          (hN.evolve_later _ _ _ ha)
      exact ⟨⟨hs.1.of_authority (fun _ => rfl) fun k result => hN.evolve_keeps _ _ _ k result ha,
        hI.same hs.2 hevolves fun _ => rfl⟩, hevolves⟩
  program := fun i request => triple_post (triple_program hN hI hopen i request) fun _ _ _ => trivial

theorem Later.trans {u v w : Json} (h : Later u v) (h' : Later v w) : Later u w := by
  intro n hn
  obtain ⟨n', hn', hle⟩ := h n hn
  obtain ⟨n'', hn'', hle'⟩ := h' n' hn'
  exact ⟨n'', hn'', hle.trans hle'⟩

theorem Completed.trans {d d' d'' : Dict} (h : Completed d d') (h' : Completed d' d'') :
    Completed d d'' := by
  rcases h with rfl | ⟨hnull, result, rfl⟩
  · exact h'
  · rcases h' with rfl | ⟨hnull', _⟩
    · exact Or.inr ⟨hnull, result, rfl⟩
    · rw [value_assign, if_pos rfl] at hnull'
      cases hnull'

theorem Evolves.trans {s s' s'' : Shared A} (h : Evolves N s s') (h' : Evolves N s' s'') :
    Evolves N s s'' := by
  refine ⟨fun k result hk => h'.ledger k result (h.ledger k result hk), h.later.trans h'.later, ?_⟩
  intro ref p r data hrow
  obtain ⟨data', hrow', hdata⟩ := h.records ref p r data hrow
  obtain ⟨data'', hrow'', hdata'⟩ := h'.records ref p r data' hrow'
  exact ⟨data'', hrow'', hdata.trans hdata'⟩

variable [DecidableEq ι]

abbrev Clients (ι A : Type) := Pool ι (Shared A) Input Step Fault (Request × Answer)

/-- In every run of any number of clients, wherever they are cut off: what a call answers as the
result of a proposal is stored with the proposal, it is what the authority has recorded under the
proposal's key, it is the same for all calls, then and later, and no receipt is in conflict. -/
theorem proposals_agree (hN : N.Lawful) {p q q' : Clients ι A} (hidle : ∀ i, p.threads i = none)
    (hs : Consistent N p.shared)
    (hq : (proposalSystem N c digest).Reach System.anyStep p q)
    (hq' : (proposalSystem N c digest).Reach System.anyStep q q') :
    (∀ i request result ref, q.threads i = some (.done (request, .result result)) →
      request.call.ref = some ref → Stored ref result q'.shared ∧ HasResult N ref result q'.shared ∧
      ∀ j request' result', q'.threads j = some (.done (request', .result result')) →
        request'.call.ref = some ref → result' = result) ∧
    ∀ i request e, q.threads i = some (.done (request, .raised (.store e))) → ¬ Conflict e := by
  have hI : Keeps N fun _ => True := fun _ _ _ _ _ => trivial
  have hopen : ∀ ref, Completes N (fun _ => True) ref ∨ Outdated N (fun _ => True) ref :=
    fun _ => Or.inl fun _ _ _ _ _ => trivial
  have hsound : (proposalSpec (ι := ι) N fun _ => True).Sound (proposalSystem N c digest) :=
    proposalSystem_sound hN hI hopen
  have hstart : (proposalSpec (ι := ι) N fun _ => True).PoolEnsures
      (fun _ out => Means out.1.call out.2) p :=
    poolEnsures_of_idle ⟨hs, trivial⟩ hidle
  have hensures := poolEnsures_reach hsound (triple_program hN hI hopen) hstart hq
  have hensures' := poolEnsures_reach hsound (triple_program hN hI hopen) hensures hq'
  have hevolves : Evolves N q.shared q'.shared :=
    reach_related hsound Evolves.refl (fun _ _ _ => Evolves.trans) (fun _ _ _ h => h)
      (fun _ _ h => h) (poolSafe_reach hsound (poolSafe_of_idle ⟨hs, trivial⟩ hidle) hq) hq'
  constructor
  · intro i request result ref hdone href
    have hmeans : Means request.call (.result result) q.shared := hensures.returned hdone
    have hstored := (hmeans ref href).evolves hevolves
    refine ⟨hstored, hensures'.1.1.hasResult hstored, ?_⟩
    intro j request' result' hdone' href'
    have hmeans' : Means request'.call (.result result') q'.shared := hensures'.returned hdone'
    have hresult' := hensures'.1.1.hasResult (hmeans' ref href')
    exact hresult'.unique (hensures'.1.1.hasResult hstored)
  · intro i request e hdone
    have hmeans : Means request.call (.raised (.store e)) q.shared := hensures.returned hdone
    exact hmeans e rfl

end Runs

section Examples

/-- A plan authority that counts its commits. -/
structure Ledger where
  revision : ℤ
  entries : List (String × Dict)

/-- It commits what it does not know yet and advances its revision, and replays what it knows. -/
def ledgerAuthority : NativeAuthority Ledger Empty where
  revision := fun a => .num a.revision
  previewPlan := fun _ _ => .ok []
  carryOut := fun a _ _ key => match a.entries.lookup key with
    | some result => (a, .ok result)
    | none => (⟨a.revision + 1, a.entries ++ [(key, [("revision", .num (a.revision + 1))])]⟩,
        .ok [("revision", .num (a.revision + 1))])
  evolve := fun _ e => e.elim
  ledger := fun a key => a.entries.lookup key

theorem ledgerAuthority_lawful : ledgerAuthority.Lawful where
  recorded := by
    intro a tool args key result h
    simp only [ledgerAuthority] at h ⊢
    cases hkey : a.entries.lookup key with
    | some stored =>
      simp only [hkey] at h ⊢
      rw [Except.ok.inj h]
    | none =>
      simp only [hkey] at h ⊢
      rw [List.lookup_append, hkey, Option.none_or, List.lookup_cons_self, ← Except.ok.inj h]
  carryOut_keeps := by
    intro a tool args key k result h
    simp only [ledgerAuthority] at h ⊢
    cases hkey : a.entries.lookup key with
    | some stored => exact h
    | none =>
      simp only
      rw [List.lookup_append, h, Option.some_or]
  carryOut_later := by
    intro a tool args key n hn
    simp only [ledgerAuthority] at hn ⊢
    cases hkey : a.entries.lookup key with
    | some stored => exact ⟨n, hn, le_rfl⟩
    | none =>
      rw [Json.num.injEq] at hn
      exact ⟨a.revision + 1, rfl, by omega⟩
  evolve_keeps := fun _ e => e.elim
  evolve_later := fun _ e => e.elim

def noDigest : String → String := fun _ => String.ofList (List.replicate 64 '0')

/-- A proposal for an empty plan, made at the first revision. -/
def proposed : Dict := previewData "plan" (noDigest "") 1 [] "pc-key"

def proposalPool (a : Ledger) : Clients ℕ Ledger :=
  ⟨⟨[.adminPreview "ref" "atlas" "main" proposed], a⟩, fun _ => none⟩

theorem proposalPool_consistent (a : Ledger) : Consistent ledgerAuthority (proposalPool a).shared := by
  intro ref p r data hrow
  have hnew : previews [.adminPreview "ref" "atlas" "main" proposed] ref = [(p, r, data)] := hrow
  rw [previews_new] at hnew
  split_ifs at hnew
  cases hnew
  exact Or.inl rfl

def applyIt (i : ℕ) : Action ℕ Input Request (Change Empty) :=
  .start i ⟨"atlas", "main", .apply [] "ref"⟩

/-- Two clients consume the proposal side by side; both are answered with the one commit. -/
def sideBySide : List (Action ℕ Input Request (Change Empty)) :=
  [applyIt 0, applyIt 1, .act 0 {}, .act 1 {}, .act 0 {}, .act 1 {}, .act 0 {}, .act 1 {}, .act 0 {}]

/-- The proposal for which a call was answered with a result. -/
def answeredRef {A : Type} : Prog (Shared A) Input Step Fault (Request × Answer) → Option String
  | .done (request, .result _) => request.call.ref
  | _ => none

theorem answeredRef_eq_some {A : Type} {ref : String}
    {thread : Prog (Shared A) Input Step Fault (Request × Answer)}
    (h : answeredRef thread = some ref) :
    ∃ request result, thread = .done (request, .result result) ∧ request.call.ref = some ref := by
  unfold answeredRef at h
  split at h
  · next request result => exact ⟨request, result, rfl, h⟩
  · cases h

theorem side_by_side_agrees : ∃ q q',
    (proposalSystem ledgerAuthority .small noDigest).Reach System.anyStep
      (proposalPool ⟨1, []⟩) q ∧
    (proposalSystem ledgerAuthority .small noDigest).Reach System.anyStep q q' ∧
    (∃ i request result, q.threads i = some (.done (request, .result result)) ∧
      request.call.ref = some "ref") ∧
    ((∀ i request result ref, q.threads i = some (.done (request, .result result)) →
        request.call.ref = some ref → Stored ref result q'.shared ∧
        HasResult ledgerAuthority ref result q'.shared ∧
        ∀ j request' result', q'.threads j = some (.done (request', .result result')) →
          request'.call.ref = some ref → result' = result) ∧
      ∀ i request e, q.threads i = some (.done (request, .raised (.store e))) → ¬ Conflict e) := by
  obtain ⟨q, q', hq, hq', hf⟩ := System.exists_reach_pair
    (proposalSystem ledgerAuthority .small noDigest) System.anyStep sideBySide [.act 1 {}]
    (p := proposalPool ⟨1, []⟩) (f := fun q _ => (q.threads 0).bind answeredRef)
    (b := some "ref") (by decide +kernel)
  refine ⟨q, q', hq, hq', ?_, proposals_agree ledgerAuthority_lawful (fun _ => rfl)
    (proposalPool_consistent ⟨1, []⟩) hq hq'⟩
  obtain ⟨thread, hthread, hf⟩ := Option.bind_eq_some_iff.mp hf
  obtain ⟨request, result, rfl, href⟩ := answeredRef_eq_some hf
  exact ⟨0, request, result, hthread, href⟩

end Examples

section LostReceipts

variable {A E : Type} {N : NativeAuthority A E} {c : Codec} {digest : String → String} {ι : Type}
  [DecidableEq ι]

/-- A proposal without a result, of a revision that the authority has passed. -/
def PassedBy (N : NativeAuthority A E) (ref p r : String) (data : Dict) (n : ℤ) (s : Shared A) : Prop :=
  previews s.journal ref = [(p, r, data)] ∧ ∃ m, N.revision s.authority = .num m ∧ n < m

theorem PassedBy.evolves {ref p r : String} {data : Dict} {n : ℤ} {s s' : Shared A}
    (h : PassedBy N ref p r data n s) (hevolves : Evolves N s s')
    (hrow : previews s'.journal ref = previews s.journal ref) : PassedBy N ref p r data n s' := by
  obtain ⟨hold, m, hm, hless⟩ := h
  obtain ⟨m', hm', hle⟩ := hevolves.later m hm
  exact ⟨hrow.trans hold, m', hm', by omega⟩

theorem passedBy_keeps {ref p r : String} {data : Dict} {n : ℤ} :
    Keeps N (PassedBy N ref p r data n) := by
  intro s s' h hevolves hold
  exact h.evolves hevolves (hold ref (by rw [h.1]; simp))

/-- A call for the proposal does not get to the authority, and other proposals leave it alone. -/
theorem passedBy_open {ref p r : String} {data : Dict} {n : ℤ}
    (hrevision : Dict.value data "authority_revision" = .num n) (other : String) :
    Completes N (PassedBy N ref p r data n) other ∨ Outdated N (PassedBy N ref p r data n) other := by
  by_cases hother : other = ref
  · right
    subst hother
    rintro s s' p' r' data' revision ⟨_, m, hm, hless⟩ ⟨hrow, _⟩ hread hrow' heq
    rw [← previews_inj hrow hrow', hrevision, Json.num.injEq] at heq
    rw [hm, Json.num.injEq] at hread
    omega
  · left
    exact fun s s' h hevolves hold => h.evolves hevolves (hold ref fun heq => hother heq.symm)

/-- When the authority has gone on to another revision before the receipt of a proposal was stored,
the receipt is lost, whether the proposal was carried out or not: in every run from there the
proposal stays without a result, and no call for it is answered with one. -/
theorem lost_receipt_stays_lost (hN : N.Lawful) {p q : Clients ι A} (hidle : ∀ i, p.threads i = none)
    (hs : Consistent N p.shared) {ref project repository : String} {data : Dict} {n m : ℤ}
    (hrow : previews p.shared.journal ref = [(project, repository, data)])
    (hnone : Dict.value data "result" = .null)
    (hrevision : Dict.value data "authority_revision" = .num n)
    (hauthority : N.revision p.shared.authority = .num m) (hless : n < m)
    (hq : (proposalSystem N c digest).Reach System.anyStep p q) :
    previews q.shared.journal ref = [(project, repository, data)] ∧
    ∀ i request result, q.threads i = some (.done (request, .result result)) →
      request.call.ref ≠ some ref := by
  have hpassed : PassedBy N ref project repository data n p.shared := ⟨hrow, m, hauthority, hless⟩
  have hsound : (proposalSpec (ι := ι) N (PassedBy N ref project repository data n)).Sound
      (proposalSystem N c digest) :=
    proposalSystem_sound hN passedBy_keeps (passedBy_open hrevision)
  have hensures := poolEnsures_reach hsound
    (triple_program hN passedBy_keeps (passedBy_open hrevision))
    (poolEnsures_of_idle ⟨hs, hpassed⟩ hidle) hq
  refine ⟨hensures.1.2.1, ?_⟩
  intro i request result hdone href
  have hmeans : Means request.call (.result result) q.shared := hensures.returned hdone
  obtain ⟨p', r', data', hrow', hresult⟩ := hmeans ref href
  rw [← previews_inj hensures.1.2.1 hrow', hnone] at hresult
  cases hresult

/-- The authority has committed the proposal, and the answer was lost. -/
def committed : Ledger := ⟨2, [("pc-key", [("revision", .num 2)])]⟩

theorem committed_receipt_is_lost : ∃ q,
    (proposalSystem ledgerAuthority .small noDigest).Reach System.anyStep (proposalPool committed) q ∧
    ledgerAuthority.ledger q.shared.authority "pc-key" = some [("revision", .num 2)] ∧
    previews q.shared.journal "ref" = [("atlas", "main", proposed)] ∧
    ∀ i request result, q.threads i = some (.done (request, .result result)) →
      request.call.ref ≠ some "ref" := by
  obtain ⟨q, hq, hf⟩ := System.exists_reach (proposalSystem ledgerAuthority .small noDigest)
    System.anyStep [applyIt 0, .act 0 {}, .act 0 {}] (p := proposalPool committed)
    (f := fun q => decide (ledgerAuthority.ledger q.shared.authority "pc-key" =
      some [("revision", .num 2)])) (b := true) (by decide +kernel)
  exact ⟨q, hq, of_decide_eq_true hf, lost_receipt_stays_lost ledgerAuthority_lawful (fun _ => rfl)
    (proposalPool_consistent committed) rfl rfl rfl rfl (by decide) hq⟩

end LostReceipts

end ProjectControl.AdminProposals
