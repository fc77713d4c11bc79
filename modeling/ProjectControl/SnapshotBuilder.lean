import Mathlib
import ProjectControl.ExpiringCache
import ProjectControl.Json

/-! The builder of project snapshots: providers of the Todo authority that are resolved once, and
snapshots that are reused while their key is the same. -/

set_option autoImplicit false

namespace ProjectControl.Snapshots

section Providers

structure PortIdentity where
  contract : Json
  version : Json
  sourceIdentity : Json
  capabilities : List String

/-- What `TodoProviderResolution` says to the builder. -/
structure TodoProviderResolution (Port : Type) where
  compatible : Bool
  errorCode : Option String
  warnings : List String := []
  readPort : Option Port := none

/-- The workflow binding of a workspace at one time. -/
structure Binding (Port : Type) where
  configured : Bool
  projectRoot : Option String
  /-- The read port, or the code of what the factory raises. -/
  factory : String → Except (Option String) (Option Port)
  identity : Port → Option PortIdentity

def todoReadPortContract : Json := .str "PCU-TODO-READ-PORT/2"

def requiredTodoReadCapabilities : List String := ["authority.read_model"]

/-- The error of `_verify_read_port`. -/
def verifyReadPort : Option PortIdentity → Option String
  | none => some "todo_read_port_identity_unavailable"
  | some identity =>
    if identity.contract ≠ todoReadPortContract then some "todo_read_port_contract_mismatch"
    else if ¬ requiredTodoReadCapabilities ⊆ identity.capabilities then
      some "todo_read_port_schema_incompatible"
    else
      match identity.sourceIdentity with
      | .str source => if source = "" then some "todo_read_port_identity_invalid" else none
      | _ => some "todo_read_port_identity_invalid"

variable {Port : Type}

/-- `resolve_todo_provider`. -/
def resolveTodoProvider (b : Binding Port) : TodoProviderResolution Port :=
  if b.configured = false then ⟨false, some "workspace_unavailable", [], none⟩
  else
    match b.projectRoot with
    | none => ⟨false, some "todo_project_root_unavailable", [], none⟩
    | some root =>
      match b.factory root with
      | .error code => ⟨false, some (code.getD "todo_read_port_initialization_failed"), [], none⟩
      | .ok none => ⟨false, some "todo_read_port_unavailable", [], none⟩
      | .ok (some port) =>
        match verifyReadPort (b.identity port) with
        | none => ⟨true, none, [], some port⟩
        | some error => ⟨false, some error, [], none⟩

end Providers

section Reading

/-- `TodoObservation`. -/
structure TodoObservation where
  revision : Option ℤ
  projectUuid : Option String
  status : Dict
  tables : Json
  semantic : Json
  workflow : Json
  components : Dict
  consistency : String
  warnings : List String

/-- What a snapshot says about the Todo authority. -/
structure TodoPart where
  revision : Option ℤ := none
  projectUuid : Option String := none
  status : Dict := []
  tables : List (String × List Json) := []
  semantic : Json := .obj []
  workflow : Json := .obj []
  componentAuthority : Dict := []
  deriving DecidableEq

structure Worktree where
  id : String
  head : String
  workingTreeFingerprint : String
  deriving DecidableEq

structure Repository where
  commit : String
  dirty : Bool
  fingerprint : String
  worktrees : List Worktree
  deriving DecidableEq

/-- A call of `build`: its arguments and what it finds. -/
structure Call (Port : Type) where
  workspaceId : String
  includeHost : Bool
  campaign : Option String
  /-- The text of the registry error where a registered repository is unavailable. -/
  unavailable : Option String
  authorityRepository : Option String
  /-- The repositories whose Git identity could be read. -/
  repositories : List (String × Repository)
  warnings : List String
  binding : Binding Port
  observe : Port → Except (Option String) TodoObservation
  cuda : Dict
  host : Dict
  observedAt : String
  /-- The clock when the cache is asked and when a new snapshot is put. -/
  now : ℚ
  later : ℚ

variable {Port : Type} (e : Call Port)

def assign (d : Dict) (key : String) (v : Json) : Dict :=
  d.filter (fun f => f.1 ≠ key) ++ [(key, v)]

def texts (items : List String) : Json := .arr (items.map .str)

def tablesOf : Json → List (String × List Json)
  | .obj fields => fields.filterMap fun
    | (key, .arr rows) => some (key, rows)
    | _ => none
  | _ => []

def TodoObservation.part (todo : TodoObservation) : TodoPart where
  revision := todo.revision
  projectUuid := todo.projectUuid
  status := assign (assign todo.status "component_authority" (.obj todo.components))
    "observation_consistency" (.str todo.consistency)
  tables := tablesOf todo.tables
  semantic := todo.semantic
  workflow := todo.workflow
  componentAuthority := todo.components

def Call.authority : Option String := e.authorityRepository.filter (· ≠ "")

def unavailableCode (provider : TodoProviderResolution Port) : String :=
  (provider.errorCode.filter (· ≠ "")).getD "todo_provider_unavailable"

/-- What the call reads through a provider: the part of the snapshot and the warnings. -/
def readTodo (provider : TodoProviderResolution Port) : TodoPart × Dict :=
  match e.authority, provider.readPort with
  | none, _ => ({}, [("todo", texts ["todo_not_configured"])])
  | some authority, some port =>
    if provider.compatible = false then ({}, [("todo", texts [unavailableCode provider])])
    else if authority ∉ e.repositories.map Prod.fst then
      ({}, [("todo", texts ["todo_read_port_unavailable"])])
    else
      match e.observe port with
      | .ok todo => (todo.part, [("todo", texts todo.warnings),
          ("todo_provider", texts provider.warnings)])
      | .error code => ({}, [("todo", texts [code.getD "todo_authority_unavailable"])])
  | some _, none => ({}, [("todo", texts [unavailableCode provider])])

end Reading

section Building

variable {Port D : Type} [DecidableEq D] (digest : Json → D)

/-- `cache_key`. -/
structure Key (D : Type) where
  workspaceId : String
  repositories : List (String × Repository)
  todoRevision : Option ℤ
  includeHost : Bool
  campaign : Option String
  digest : D
  deriving DecidableEq

structure ProjectSnapshot where
  workspaceId : String
  observedAt : String
  todo : TodoPart
  repositories : List (String × Repository)
  cuda : Dict
  host : Dict
  warnings : List String
  providerWarnings : Dict

structure SnapshotBuilder (Port D : Type) where
  todoProviders : List (String × TodoProviderResolution Port)
  cache : ExpiringCache (Key D) ProjectSnapshot

def fresh : SnapshotBuilder Port D where
  todoProviders := []
  cache := { ttl := 3, maxItems := 64 }

variable (b : SnapshotBuilder Port D) (e : Call Port)

/-- `_todo_provider`. -/
def SnapshotBuilder.todoProvider : TodoProviderResolution Port × SnapshotBuilder Port D :=
  match b.todoProviders.lookup e.workspaceId with
  | some provider => (provider, b)
  | none =>
    let provider := resolveTodoProvider e.binding
    (provider, { b with todoProviders := b.todoProviders ++ [(e.workspaceId, provider)] })

def Call.hostSeen : Dict := if e.includeHost then e.host else []

def warningsOf (d : Dict) : Json := (Dict.get d "warnings").getD (.arr [])

def Call.providerWarnings (todo : Dict) : Dict :=
  todo ++ [("cuda", warningsOf e.cuda), ("worker", .arr [])] ++
    if e.includeHost then [("host", warningsOf e.hostSeen)] else []

def Call.key (provider : TodoProviderResolution Port) : Key D where
  workspaceId := e.workspaceId
  repositories := e.repositories
  todoRevision := (readTodo e provider).1.revision
  includeHost := e.includeHost
  campaign := e.campaign
  digest := digest (.obj [("cuda", .obj e.cuda), ("host", .obj e.hostSeen),
    ("providers", .obj (e.providerWarnings (readTodo e provider).2)),
    ("warnings", texts e.warnings)])

def Call.snapshot (provider : TodoProviderResolution Port) : ProjectSnapshot where
  workspaceId := e.workspaceId
  observedAt := e.observedAt
  todo := (readTodo e provider).1
  repositories := e.repositories
  cuda := e.cuda
  host := e.hostSeen
  warnings := e.warnings.eraseDups
  providerWarnings := e.providerWarnings (readTodo e provider).2

/-- `build`. -/
def SnapshotBuilder.build : Except String ProjectSnapshot × SnapshotBuilder Port D :=
  match e.unavailable with
  | some message => (.error message, b)
  | none =>
    let (provider, b) := b.todoProvider e
    let (cached, cache) := b.cache.get (e.key digest provider) e.now
    match cached with
    | some snapshot => (.ok snapshot, { b with cache := cache })
    | none =>
      (.ok (e.snapshot provider), { b with
        cache := cache.put (e.key digest provider) e.later (e.snapshot provider) })

end Building

section Histories

variable {Port D : Type} [DecidableEq D] (digest : Json → D) {b : SnapshotBuilder Port D}
  {past : List (Call Port)} {e : Call Port} {provider : TodoProviderResolution Port}

/-- The builder after a history of calls. -/
def after (past : List (Call Port)) : SnapshotBuilder Port D :=
  past.foldl (fun b e => (b.build digest e).2) fresh

/-- The provider that a call uses after a history. -/
def used (past : List (Call Port)) (e : Call Port) : TodoProviderResolution Port :=
  ((after digest past).todoProvider e).1

/-- What the first call for a workspace that got as far as its provider resolved. -/
def firstResolved (past : List (Call Port)) (workspaceId : String) :
    Option (TodoProviderResolution Port) :=
  (past.find? fun e => e.unavailable = none ∧ e.workspaceId = workspaceId).map fun e =>
    resolveTodoProvider e.binding

theorem after_append (past : List (Call Port)) (e : Call Port) :
    after digest (past ++ [e]) = ((after digest past).build digest e).2 := by
  simp [after]

/-- The providers change only where a call resolves one. -/
theorem build_todoProviders : (b.build digest e).2.todoProviders =
    if e.unavailable = none then (b.todoProvider e).2.todoProviders else b.todoProviders := by
  unfold SnapshotBuilder.build
  cases e.unavailable with
  | some message => rfl
  | none =>
    dsimp only
    split <;> rfl

omit [DecidableEq D] in
theorem todoProvider_providers : (b.todoProvider e).2.todoProviders =
    match b.todoProviders.lookup e.workspaceId with
    | some _ => b.todoProviders
    | none => b.todoProviders ++ [(e.workspaceId, resolveTodoProvider e.binding)] := by
  unfold SnapshotBuilder.todoProvider
  split <;> rfl

omit [DecidableEq D] in
theorem todoProvider_cache : (b.todoProvider e).2.cache = b.cache := by
  unfold SnapshotBuilder.todoProvider
  split <;> rfl

theorem lookup_append_single {α : Type} {d : List (String × α)} {key w : String} {a : α} :
    (d ++ [(key, a)]).lookup w = (d.lookup w).or (if key = w then some a else none) := by
  rw [List.lookup_append, List.lookup_cons, List.lookup_nil]
  by_cases h : key = w
  · simp [h]
  · have hne : (w == key) = false := beq_false_of_ne (Ne.symm h)
    rw [hne, if_neg h]

theorem firstResolved_append (w : String) : firstResolved (past ++ [e]) w =
    (firstResolved past w).or (if e.unavailable = none ∧ e.workspaceId = w then
      some (resolveTodoProvider e.binding) else none) := by
  unfold firstResolved
  rw [List.find?_append, Option.map_or, List.find?_singleton]
  by_cases h : e.unavailable = none ∧ e.workspaceId = w <;> simp [h]

/-- The builder keeps what was resolved first. -/
theorem lookup_after (past : List (Call Port)) (w : String) :
    (after digest past).todoProviders.lookup w = firstResolved past w := by
  induction past using List.reverseRecOn with
  | nil => rfl
  | append_singleton past e ih =>
    rw [after_append, build_todoProviders, firstResolved_append]
    by_cases havailable : e.unavailable = none
    · rw [if_pos havailable, todoProvider_providers, ← ih]
      simp only [havailable, true_and]
      cases hlookup : (after digest past).todoProviders.lookup e.workspaceId with
      | none => exact lookup_append_single
      | some provider =>
        by_cases hw : e.workspaceId = w
        · rw [← hw, hlookup, Option.some_or]
        · rw [if_neg hw, Option.or_none]
    · rw [if_neg havailable, ih, if_neg (fun h => havailable h.1), Option.or_none]

/-- The provider that serves a call, from what the history resolved. -/
def serving (past : List (Call Port)) (e : Call Port) : TodoProviderResolution Port :=
  (firstResolved past e.workspaceId).getD (resolveTodoProvider e.binding)

theorem used_eq_serving (past : List (Call Port)) (e : Call Port) :
    used digest past e = serving past e := by
  rw [used, SnapshotBuilder.todoProvider, lookup_after, serving]
  cases firstResolved past e.workspaceId with
  | none => rfl
  | some provider => rfl

/-- Calls for one workspace are served by one provider. -/
theorem serving_eq {before rest : List (Call Port)} {e' : Call Port}
    (hpast : past = before ++ e' :: rest) (havailable : e'.unavailable = none)
    (hworkspace : e'.workspaceId = e.workspaceId) : serving past e = serving before e' := by
  have hsplit : past = before ++ [e'] ++ rest := by simp [hpast]
  have hfirst : firstResolved past e.workspaceId = some (serving before e') := by
    rw [hsplit, firstResolved, List.find?_append, Option.map_or]
    change (firstResolved (before ++ [e']) e.workspaceId).or _ = _
    rw [firstResolved_append, if_pos ⟨havailable, hworkspace⟩, ← hworkspace, serving]
    cases firstResolved before e'.workspaceId with
    | none => rfl
    | some provider => rfl
  rw [serving, hfirst, Option.getD_some]

/-- What stands in the cache is what a call of the history built. -/
def Recorded (past : List (Call Port)) (entry : Key D × CacheEntry ProjectSnapshot) : Prop :=
  ∃ before e rest, past = before ++ e :: rest ∧ e.unavailable = none ∧
    entry = (e.key digest (serving before e),
      ⟨e.later + 3, e.snapshot (serving before e)⟩)

omit [DecidableEq D] in
theorem Recorded.append {entry : Key D × CacheEntry ProjectSnapshot}
    (h : Recorded digest past entry) (e : Call Port) : Recorded digest (past ++ [e]) entry := by
  obtain ⟨before, e', rest, rfl, havailable, hentry⟩ := h
  exact ⟨before, e', rest ++ [e], by simp, havailable, hentry⟩

/-- The cache keeps its time to live, and all of it is recorded. -/
theorem cache_recorded (past : List (Call Port)) : (after digest past).cache.ttl = 3 ∧
    ∀ entry ∈ (after digest past).cache.items, Recorded digest past entry := by
  induction past using List.reverseRecOn with
  | nil => exact ⟨rfl, fun entry hentry => nomatch hentry⟩
  | append_singleton past e ih =>
    obtain ⟨httl, hitems⟩ := ih
    have hkeep : ∀ entry ∈ (after digest past).cache.items,
        Recorded digest (past ++ [e]) entry := fun entry hentry => (hitems entry hentry).append _ e
    have hprovider : ((after digest past).todoProvider e).1 = serving past e :=
      used_eq_serving digest past e
    rw [after_append]
    unfold SnapshotBuilder.build
    cases havailable : e.unavailable with
    | some message => exact ⟨httl, hkeep⟩
    | none =>
      dsimp only
      rw [todoProvider_cache, hprovider]
      split
      · exact ⟨ExpiringCache.get_ttl.trans httl,
          fun entry hentry => hkeep entry (ExpiringCache.mem_get hentry)⟩
      · refine ⟨ExpiringCache.get_ttl.trans httl, fun entry hentry => ?_⟩
        rcases ExpiringCache.mem_put hentry with rfl | hold
        · rw [ExpiringCache.get_ttl, httl]
          exact ⟨past, e, [], rfl, havailable, rfl⟩
        · exact hkeep entry (ExpiringCache.mem_get hold)

/-- The answers of the authority change with its revision while an entry lives, and no provider
that failed first would resolve later. -/
structure Steady (past : List (Call Port)) (e : Call Port) : Prop where
  resolved : ∀ first, firstResolved past e.workspaceId = some first →
    (resolveTodoProvider e.binding).readPort.isSome = true → first.readPort.isSome = true
  revised : ∀ e' ∈ past, e'.unavailable = none → e.now ≤ e'.later + 3 →
    e'.key digest (serving past e) = e.key digest (serving past e) →
    (readTodo e' (serving past e)).1 = (readTodo e (serving past e)).1

/-- The snapshot says what the call itself read, and a provider that resolves now is read. -/
structure Current (past : List (Call Port)) (e : Call Port) : Prop where
  same_call : ∀ snapshot, ((after digest past).build digest e).1 = .ok snapshot →
    snapshot.todo = (readTodo e (used digest past e)).1
  reads_through : (resolveTodoProvider e.binding).readPort.isSome = true →
    (used digest past e).readPort.isSome = true

theorem Steady.current (h : Steady digest past e) : Current digest past e where
  same_call := by
    intro snapshot hsnapshot
    have hprovider : ((after digest past).todoProvider e).1 = serving past e :=
      used_eq_serving digest past e
    rw [used_eq_serving]
    unfold SnapshotBuilder.build at hsnapshot
    cases havailable : e.unavailable with
    | some message =>
      rw [havailable] at hsnapshot
      cases hsnapshot
    | none =>
      rw [havailable] at hsnapshot
      dsimp only at hsnapshot
      rw [todoProvider_cache, hprovider] at hsnapshot
      split at hsnapshot
      case h_1 found hget =>
        obtain rfl := Except.ok.inj hsnapshot
        obtain ⟨expiresAt, hmem, hlive⟩ := ExpiringCache.get_some hget
        obtain ⟨before, e', rest, hpast, havailable', hentry⟩ :=
          (cache_recorded digest past).2 _ hmem
        obtain ⟨hkey, hvalue⟩ := Prod.mk.inj hentry
        obtain ⟨hexpires, hfound⟩ := CacheEntry.mk.inj hvalue
        have hworkspace : e'.workspaceId = e.workspaceId := (congrArg Key.workspaceId hkey).symm
        have hserving := serving_eq (e := e) hpast havailable' hworkspace
        rw [← hserving] at hkey hfound
        rw [hexpires] at hlive
        rw [hfound]
        refine h.revised e' ?_ havailable' hlive hkey.symm
        rw [hpast]
        exact List.mem_append_right _ List.mem_cons_self
      case h_2 =>
        obtain rfl := Except.ok.inj hsnapshot
        rfl
  reads_through := by
    intro hresolves
    rw [used_eq_serving, serving]
    cases hfirst : firstResolved past e.workspaceId with
    | none => exact hresolves
    | some first => exact h.resolved first hfirst hresolves

/-- In a history whose calls are all steady every call answers with what it read itself, through
a provider that can be read if one can be resolved. -/
theorem history_is_current {history : List (Call Port)}
    (h : ∀ past e later, history = past ++ e :: later → Steady digest past e) :
    ∀ past e later, history = past ++ e :: later → Current digest past e :=
  fun past e later hhistory => (h past e later hhistory).current

end Histories

section Examples

def demoIdentity : PortIdentity :=
  ⟨todoReadPortContract, .str "1", .str "source", requiredTodoReadCapabilities⟩

/-- A call whose binding may be unavailable, and at which the authority answers with a revision
and a workflow. -/
def demoCall (bound : Bool) (revision : ℤ) (workflow : String) (now : ℚ) : Call Unit where
  workspaceId := "demo"
  includeHost := false
  campaign := none
  unavailable := none
  authorityRepository := some "main"
  repositories := [("main", ⟨"commit", false, "clean", []⟩)]
  warnings := []
  binding := {
    configured := true
    projectRoot := some "/repo"
    factory := fun _ => if bound then .ok (some ()) else .error none
    identity := fun _ => some demoIdentity }
  observe := fun _ => .ok ⟨some revision, none, [], .obj [], .null, .str workflow, [], "exact", []⟩
  cuda := []
  host := []
  observedAt := "2026-01-01T00:00:00Z"
  now := now
  later := now

theorem new_revision_steady :
    ∀ past e later,
      [demoCall true 7 "waiting" 0, demoCall true 8 "running" 1] = past ++ e :: later →
        Steady id past e := by
  intro past e later hhistory
  match past, hhistory with
  | [], hhistory =>
    obtain ⟨rfl, -⟩ := List.cons.inj hhistory
    exact ⟨fun first hfirst => (nomatch hfirst), fun e' he' => (nomatch he')⟩
  | [first], hhistory =>
    obtain ⟨rfl, hrest⟩ := List.cons.inj hhistory
    obtain ⟨rfl, -⟩ := List.cons.inj hrest
    refine ⟨fun provider hprovider _ => ?_, fun e' he' _ _ hkey => ?_⟩
    · obtain rfl : resolveTodoProvider (demoCall true 7 "waiting" 0).binding = provider :=
        Option.some.inj hprovider
      rfl
    · obtain rfl := List.mem_singleton.mp he'
      exact absurd (congrArg Key.todoRevision hkey) (by decide)
  | _ :: _ :: past, hhistory =>
    have hlength := congrArg List.length hhistory
    simp at hlength

/-- The second revision is read although the first snapshot still lives. -/
theorem new_revision_is_read :
    Current id [demoCall true 7 "waiting" 0] (demoCall true 8 "running" 1) :=
  history_is_current id new_revision_steady [demoCall true 7 "waiting" 0] _ [] rfl

/-- While the revision stays the same the workflow of an earlier call is answered, and a provider
that could not be resolved once is never read. -/
theorem stale_workflow_is_answered :
    ¬ Current id [demoCall true 7 "waiting" 0] (demoCall true 7 "running" 1) ∧
    ¬ Current id [demoCall false 7 "waiting" 0] (demoCall true 7 "waiting" 1) := by
  constructor
  · intro h
    have hanswer : ((after id [demoCall true 7 "waiting" 0]).build id
        (demoCall true 7 "running" 1)).1.map (fun snapshot => snapshot.todo.workflow) =
          .ok (.str "waiting") := by
      decide +kernel
    cases hbuild : ((after id [demoCall true 7 "waiting" 0]).build id
        (demoCall true 7 "running" 1)).1 with
    | error message =>
      rw [hbuild] at hanswer
      cases hanswer
    | ok snapshot =>
      rw [hbuild] at hanswer
      have hworkflow : snapshot.todo.workflow = .str "waiting" := Except.ok.inj hanswer
      rw [h.same_call snapshot hbuild] at hworkflow
      exact absurd hworkflow (by decide +kernel)
  · intro h
    exact absurd (h.reads_through rfl) (by decide)

end Examples

end ProjectControl.Snapshots
