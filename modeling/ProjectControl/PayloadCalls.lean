import ProjectControl.PayloadObjects

/-! A call of `bounded_payload` in memory: the rounds of its loop make the payload smaller and end,
the argument of the caller stays as it is, and the report counts the items that are left. -/

set_option autoImplicit false

namespace ProjectControl.Reads

open JsonText Redaction

section Calls

/-- The argument as its holder sees it, and the payload of the call. -/
structure Memory where
  caller : Node
  clean : Node

def Memory.mutate (m : Memory) (ref : ℕ) (edit : Edit Node) : Memory :=
  ⟨Reads.mutate ref edit m.caller, Reads.mutate ref edit m.clean⟩

def Memory.payload (m : Memory) : Dict := fieldsOf (erase m.clean)

/-- A round of the loop: one list or object is changed in place. -/
def objectRound (budgetBytes : ℕ) (m : Memory) : Option Memory :=
  if encodedSize (.obj m.payload) ≤ budgetBytes then none
  else do
    let (place, edit) ← select m.payload
    let ref ← refAt place m.clean
    pure (m.mutate ref (edit.map .str))

def truncationNode (ref budgetBytes considered returned : ℕ) (omitted : ℤ) : Node :=
  .dict ref [("truncated", .bool true), ("budget_bytes", .num budgetBytes),
    ("items_considered", .num considered), ("items_returned", .num returned),
    ("historical_items_omitted", .num omitted)]

/-- `dict(clean)`: the fields are held by a new object. -/
def copyDict (ref : ℕ) : Node → Node
  | .dict _ fields => .dict ref fields
  | v => v

variable (intOfText : String → Option ℤ) (budgetBytes : ℕ)

/-- The memory before the first round: a copy of the redacted object that has the report. -/
def withReport (value clean : Node) (next : ℕ) (omitted : ℤ) : Memory :=
  let considered := itemCount (fieldsOf (erase clean))
  let m : Memory := ⟨value, copyDict next clean⟩
  m.mutate next (.assign "truncation"
    (truncationNode (next + 1) budgetBytes considered considered omitted))

/-- `clean["truncation"]["items_returned"]` is set to the items that are left. -/
def reportItems (m : Memory) : Memory :=
  match refAt [.key "truncation"] m.clean with
  | some ref => m.mutate ref (.assign "items_returned" (.num (itemCount m.payload)))
  | none => m

/-- `bounded_payload`, with the first identity that is free. -/
def boundedPayloadIn (value : Node) (next : ℕ) : Except Fault Memory :=
  let (clean, next) := redactNode value next
  if encodedSize (erase clean) ≤ budgetBytes then pure ⟨value, clean⟩
  else do
    let omitted ← historicalItemsOmitted (redacting intOfText) (fieldsOf (erase clean))
    let m := withReport budgetBytes value clean next omitted
    pure (reportItems (repeatStep (objectRound budgetBytes) 10000 m))

/-- The call works on a payload of its own, in which nothing is held twice. -/
structure Held (value : Node) (clean : Dict) (m : Memory) : Prop where
  caller : m.caller = value
  content : erase m.clean = .obj clean
  distinct : Distinct (.obj clean)
  nodup : (refs m.clean).Nodup
  separate : ∀ r ∈ refs m.clean, r ∉ refs value

variable {intOfText budgetBytes} {value : Node} {clean clean' payload result : Dict}
  {m m' : Memory} {place : Place} {ref next : ℕ} {edit : Edit Node}

theorem Held.payload_eq (h : Held value clean m) : m.payload = clean := by
  rw [Memory.payload, h.content, fieldsOf]

theorem Held.mutate (h : Held value clean m) (hplain : edit.Plain)
    (href : refAt place m.clean = some ref)
    (hedited : updateAt (edit.map erase).apply place (.obj clean) = .obj clean')
    (hdistinct : Distinct (.obj clean')) : Held value clean' (m.mutate ref edit) where
  caller := by
    rw [Memory.mutate, h.caller]
    exact mutate_of_not_mem value (h.separate ref (mem_refs_of_refAt href))
  content := by
    have hread : Distinct (erase m.clean) := h.content ▸ h.distinct
    rw [Memory.mutate, erase_mutate h.nodup hread href, h.content, hedited]
  distinct := hdistinct
  nodup := h.nodup.sublist (mutate_refs_sublist hplain m.clean)
  separate r hr := h.separate r ((mutate_refs_sublist hplain m.clean).subset hr)

theorem plain_map_str (edit : Edit String) : (edit.map Node.str).Plain := by
  cases edit with
  | assign key s => rfl
  | _ => trivial

theorem erase_map_str (edit : Edit String) : (edit.map Node.str).map erase = edit.map Json.str := by
  cases edit with
  | _ => rfl

theorem objectRound_fits (h : Held value clean m) (hfits : encodedSize (.obj clean) ≤ budgetBytes) :
    objectRound budgetBytes m = none := by
  rw [objectRound, h.payload_eq, if_pos hfits]

/-- What the loop picks has an identity, and is held by the payload alone. -/
theorem Held.picks (h : Held value clean m) {edit : Edit String}
    (hselect : select clean = some (place, edit)) :
    ∃ clean' ref, shrink clean = some clean' ∧ refAt place m.clean = some ref ∧
      Held value clean' (m.mutate ref (edit.map .str)) := by
  obtain ⟨clean', hshrink, ⟨old, hold, hholder⟩, hedited⟩ := select_picks h.distinct hselect
  rw [← h.content] at hold
  obtain ⟨ref, href⟩ := exists_refAt hold hholder
  rw [← erase_map_str] at hedited
  obtain ⟨old, new, hshrunk, hreplaced⟩ := shrink_replaced h.distinct hshrink
  have hdistinct := hreplaced.distinct hshrunk.distinct h.distinct
  exact ⟨clean', ref, hshrink, href, h.mutate (plain_map_str edit) href hedited hdistinct⟩

/-- A round in memory is a round of what is read there. -/
theorem Held.round (h : Held value clean m) :
    (objectRound budgetBytes m = none ∧ round budgetBytes clean = none) ∨
      ∃ clean' m', objectRound budgetBytes m = some m' ∧ round budgetBytes clean = some clean' ∧
        Held value clean' m' := by
  by_cases hfits : encodedSize (.obj clean) ≤ budgetBytes
  · exact .inl ⟨objectRound_fits h hfits, if_pos hfits⟩
  · rw [objectRound, h.payload_eq, if_neg hfits, Reads.round, if_neg hfits]
    cases hselect : select clean with
    | none => exact .inl ⟨rfl, shrink_of_select_none hselect⟩
    | some picked =>
      obtain ⟨place, edit⟩ := picked
      obtain ⟨clean', ref, hshrink, href, hheld⟩ := h.picks hselect
      refine .inr ⟨clean', m.mutate ref (edit.map .str), ?_, hshrink, hheld⟩
      rw [Option.bind_eq_bind, Option.bind_some]
      dsimp only
      rw [href]
      rfl

/-- Two loops whose rounds go together end in states that belong together. -/
theorem repeatStep_together {α β : Type} {R : α → β → Prop} {f : α → Option α} {g : β → Option β}
    (hround : ∀ a b, R a b → (g b = none ∧ f a = none) ∨
      ∃ a' b', g b = some b' ∧ f a = some a' ∧ R a' b') (n : ℕ) {a : α} {b : β} (h : R a b) :
    R (repeatStep f n a) (repeatStep g n b) := by
  induction n generalizing a b with
  | zero => exact h
  | succ n ih =>
    rw [repeatStep, repeatStep]
    rcases hround a b h with ⟨hb, ha⟩ | ⟨a', b', hb, ha, hnext⟩
    · rw [hb, ha]
      exact h
    · rw [hb, ha]
      exact ih hnext

theorem Held.loop (h : Held value clean m) : Held value (trim budgetBytes clean)
    (repeatStep (objectRound budgetBytes) 10000 m) := by
  rw [trim_eq_repeatStep]
  exact repeatStep_together (R := Held value) (fun _ _ h => h.round) 10000 h

theorem distinct_put {d : Dict} {key : String} {v : Json} (hd : Distinct (.obj d))
    (hv : Distinct v) : Distinct (.obj (put d key v)) := by
  have hfields := distinctFields_iff.mp hd.2
  rw [put]
  split_ifs with hany
  · refine ⟨?_, distinctFields_iff.mpr fun e he => ?_⟩
    · have hkeys : (d.map fun e => if e.1 = key then (key, v) else e).map Prod.fst =
          d.map Prod.fst := by
        rw [List.map_map]
        refine List.map_congr_left fun e _ => ?_
        by_cases hkey : e.1 = key
        · rw [Function.comp_apply, if_pos hkey, hkey]
        · rw [Function.comp_apply, if_neg hkey]
      rw [hkeys]
      exact hd.1
    · obtain ⟨f, hf, rfl⟩ := List.mem_map.mp he
      split_ifs
      · exact hv
      · exact hfields f hf
  · have hkey : key ∉ d.map Prod.fst := by
      intro hmem
      obtain ⟨e, he, heq⟩ := List.mem_map.mp hmem
      exact hany (List.any_eq_true.mpr ⟨e, he, decide_eq_true heq⟩)
    refine ⟨?_, distinctFields_iff.mpr fun e he => ?_⟩
    · rw [List.map_append, List.map_cons, List.map_nil]
      refine List.nodup_append.mpr ⟨hd.1, List.nodup_singleton _, fun name hname other hother => ?_⟩
      obtain rfl := List.mem_singleton.mp hother
      exact fun heq => hkey (heq ▸ hname)
    · rcases List.mem_append.mp he with he | he
      · exact hfields e he
      · obtain rfl := List.mem_singleton.mp he
        exact hv

theorem truncation_distinct (budgetBytes considered returned : ℕ) (omitted : ℤ) :
    Distinct (truncation budgetBytes considered returned omitted) := by
  have hkeys : ["truncated", "budget_bytes", "items_considered", "items_returned",
      "historical_items_omitted"].Nodup := by decide
  refine ⟨hkeys, ?_⟩
  simp only [DistinctFields, Distinct, and_self]

/-- A new object that is assigned to a key is held there alone. -/
theorem assignKey_refs {fields : List (String × Node)} {v : Node} {r : ℕ} (hv : refs v = [r])
    (hkeys : (fields.map Prod.fst).Nodup) (key : String) :
    ∃ before after, fieldRefs (assignKey fields key v) = before ++ r :: after ∧
      (before ++ after).Sublist (fieldRefs fields) := by
  rw [assignKey]
  split_ifs with hany
  · obtain ⟨⟨name, u⟩, he, hname⟩ := List.any_eq_true.mp hany
    obtain rfl := of_decide_eq_true hname
    obtain ⟨before, after, rfl⟩ := List.append_of_mem he
    have hassign := map_field_eq (fun _ => v) hkeys
    refine ⟨fieldRefs before, fieldRefs after, ?_, ?_⟩
    · have hmap : ((before ++ (name, u) :: after).map fun e =>
          if e.1 = name then (name, v) else e) = before ++ (name, v) :: after := by
        rw [← hassign]
        refine List.map_congr_left fun e _ => ?_
        by_cases hkey : e.1 = name
        · rw [if_pos hkey, if_pos hkey, hkey]
        · rw [if_neg hkey, if_neg hkey]
      rw [hmap, fieldRefs_eq, List.flatMap_append, List.flatMap_cons, hv, fieldRefs_eq,
        fieldRefs_eq]
      rfl
    · rw [fieldRefs_eq, fieldRefs_eq, fieldRefs_eq, List.flatMap_append, List.flatMap_cons]
      exact (List.Sublist.refl _).append (List.sublist_append_right _ _)
  · refine ⟨fieldRefs fields, [], ?_, ?_⟩
    · rw [fieldRefs_eq, List.flatMap_append, List.flatMap_cons, hv, fieldRefs_eq]
      rfl
    · rw [List.append_nil]

theorem erase_truncationNode (r budgetBytes considered returned : ℕ) (omitted : ℤ) :
    erase (truncationNode r budgetBytes considered returned omitted) =
      truncation budgetBytes considered returned omitted := rfl

/-- What is left of a payload, with its report. -/
def reported (budgetBytes : ℕ) (clean : Dict) (returned : ℕ) (omitted : ℤ) (trimmed : Dict) :
    Dict :=
  put trimmed "truncation" (truncation budgetBytes (itemCount clean) returned omitted)

theorem held_withReport (budgetBytes : ℕ) (omitted : ℤ) {fields : List (String × Node)} {r : ℕ}
    (hread : eraseFields fields = clean) (hclean : Distinct (.obj clean))
    (hfresh : Fresh next r (fieldRefs fields)) {next' : ℕ} (hr : r ≤ next')
    (hvalue : ∀ x ∈ refs value, x < next) :
    Held value (reported budgetBytes clean (itemCount clean) omitted clean)
      (withReport budgetBytes value (.dict r fields) next' omitted) := by
  have hkeys : (fields.map Prod.fst).Nodup := by
    have hnodup := hclean.1
    rw [← hread, eraseFields_eq, List.map_map] at hnodup
    exact hnodup
  have hunheld : next' ∉ refs value := by
    intro hmem
    have hlt := hvalue next' hmem
    have hle := hfresh.le
    omega
  obtain ⟨before, after, hrefs, hsublist⟩ := assignKey_refs (v := truncationNode (next' + 1)
    budgetBytes (itemCount clean) (itemCount clean) omitted) rfl hkeys "truncation"
  have hnew {x : ℕ} (hx : x ∈ before ++ after) : next ≤ x ∧ x < next' := by
    have hrange := hfresh.range x (hsublist.subset hx)
    omega
  have hmemory : (withReport budgetBytes value (.dict r fields) next' omitted) =
      ⟨value, .dict next' (assignKey fields "truncation" (truncationNode (next' + 1) budgetBytes
        (itemCount clean) (itemCount clean) omitted))⟩ := by
    rw [withReport, Memory.mutate, mutate_of_not_mem value hunheld, copyDict, Reads.mutate,
      if_pos rfl, erase, hread]
    rfl
  rw [hmemory]
  refine ⟨rfl, ?_, distinct_put hclean (truncation_distinct _ _ _ _), ?_, fun x hx hin => ?_⟩
  · dsimp only
    rw [erase, erase_assignKey, hread, erase_truncationNode]
    rfl
  · dsimp only
    rw [refs, hrefs, List.nodup_cons, List.nodup_middle, List.nodup_cons]
    refine ⟨fun hmem => ?_, fun hmem => ?_, hfresh.nodup.sublist hsublist⟩
    · rw [List.mem_append, List.mem_cons, or_left_comm, ← List.mem_append] at hmem
      rcases hmem with heq | hmem
      · omega
      · have hlt := (hnew hmem).2
        omega
    · have hlt := (hnew hmem).2
      omega
  · have hlt := hvalue x hin
    dsimp only at hx
    rw [refs, hrefs, List.mem_cons, List.mem_append, List.mem_cons, or_left_comm (b := x = _),
      ← List.mem_append] at hx
    have hle := hfresh.le
    rcases hx with rfl | rfl | hx
    · omega
    · omega
    · have hge := (hnew hx).1
      omega

/-- The new count is written into the object that the report is. -/
theorem Held.report {considered returned : ℕ} {omitted : ℤ} (h : Held value clean m)
    (hget : Dict.get clean "truncation" =
      some (truncation budgetBytes considered returned omitted)) :
    Held value (put clean "truncation"
      (truncation budgetBytes considered (itemCount clean) omitted)) (reportItems m) := by
  have hold : lookupAt [.key "truncation"] (.obj clean) =
      some (truncation budgetBytes considered returned omitted) := by
    rw [lookupAt_key hget, lookupAt]
  have hread := hold
  rw [← h.content] at hread
  obtain ⟨ref, href⟩ := exists_refAt hread (.dict _)
  have hedited : updateAt (Edit.assign "items_returned" (.num (itemCount clean))).apply
      [.key "truncation"] (.obj clean) = .obj (put clean "truncation"
        (truncation budgetBytes considered (itemCount clean) omitted)) := by
    rw [updateAt_congr h.distinct hold (g := fun _ =>
      truncation budgetBytes considered (itemCount clean) omitted) ?_, updateAt_key hget]
    · rfl
    · simp [Edit.apply, Edit.onFields, assignKey, truncation]
  rw [reportItems, href, h.payload_eq]
  have hplain : (Edit.assign "items_returned" (Node.num (itemCount clean))).Plain := rfl
  exact h.mutate hplain href hedited (distinct_put h.distinct (truncation_distinct _ _ _ _))

theorem round_trimmed (hclean : Distinct (.obj clean)) (h : round budgetBytes clean = some clean') :
    Trimmed (.obj clean) (.obj clean') := by
  obtain ⟨old, new, hshrunk, hreplaced⟩ := round_replaced hclean h
  exact hreplaced.trimmed hshrunk.trimmed

theorem trim_trimmed (budgetBytes : ℕ) (hclean : Distinct (.obj clean)) :
    Distinct (.obj (trim budgetBytes clean)) ∧
      Trimmed (.obj clean) (.obj (trim budgetBytes clean)) :=
  trim_keeps (P := fun d => Trimmed (.obj clean) (.obj d)) hclean (.same _)
    fun _ _ hdistinct htrimmed hround => htrimmed.trans (round_trimmed hdistinct hround)

theorem Trimmed.get_truncation {d d' : Dict} (h : Trimmed (.obj d) (.obj d')) :
    Dict.get d' "truncation" = Dict.get d "truncation" := by
  cases h with
  | same => rfl
  | object hfields => exact hfields.get_truncation

theorem get_reported {considered : Dict} {returned : ℕ} {omitted : ℤ} (d : Dict) :
    Dict.get (reported budgetBytes considered returned omitted d) "truncation" =
      some (truncation budgetBytes (itemCount considered) returned omitted) := by
  rw [reported, get_put, if_pos rfl]

/-- The loop and the report of a payload that has got a report already. -/
theorem Held.finish {considered : Dict} {returned : ℕ} {omitted : ℤ}
    (h : Held value (reported budgetBytes considered returned omitted clean) m) :
    Held value
      (let trimmed := trim budgetBytes (reported budgetBytes considered returned omitted clean)
      reported budgetBytes considered (itemCount trimmed) omitted trimmed)
      (reportItems (repeatStep (objectRound budgetBytes) 10000 m)) := by
  have htrimmed := (trim_trimmed budgetBytes h.distinct).2
  have hget := htrimmed.get_truncation
  rw [get_reported] at hget
  exact h.loop.report hget

/-- The calls in memory return what is read of the calls on values, and nothing is held twice. -/
theorem boundedPayloadIn_held (intOfText : String → Option ℤ) (budgetBytes : ℕ)
    (hvalue : erase value = .obj payload)
    (hpayload : Distinct (.obj payload)) (hnext : ∀ r ∈ refs value, r < next) :
    (boundedPayloadIn intOfText budgetBytes value next).map Memory.payload =
        boundedPayload (redacting intOfText) payload budgetBytes ∧
      ∀ m, boundedPayloadIn intOfText budgetBytes value next = .ok m → Held value m.payload m := by
  obtain ⟨hread, hfresh⟩ := redactNode_spec value next
  rw [hvalue, redactOutput] at hread
  have hdistinct : Distinct (.obj (redactFields payload)) := redactOutput_distinct _ hpayload
  rw [boundedPayloadIn, boundedPayload]
  generalize redactNode value next = made at hread hfresh
  obtain ⟨node, next'⟩ := made
  cases node with
  | dict r fields =>
    rw [erase] at hread
    have hfields : eraseFields fields = redactFields payload := Json.obj.inj hread
    have hfresh : Fresh next next' (fieldRefs fields) ∧ Fresh next next' (refs (.dict r fields)) :=
      ⟨⟨hfresh.le, hfresh.nodup.of_cons, fun x hx => hfresh.range x (List.mem_cons_of_mem r hx)⟩,
        hfresh⟩
    dsimp only
    rw [erase, hfields]
    by_cases hfits : encodedSize (.obj (redactFields payload)) ≤ budgetBytes
    · have hheld : Held value (redactFields payload) ⟨value, .dict r fields⟩ :=
        ⟨rfl, hread, hdistinct, hfresh.2.nodup, fun x hx hin =>
          absurd (hnext x hin) (Nat.not_lt.mpr (hfresh.2.range x hx).1)⟩
      have hpure : (redacting intOfText).redactOutput payload = redactFields payload := rfl
      rw [if_pos hfits, hpure, if_pos hfits]
      refine ⟨?_, fun m hm => ?_⟩
      · exact congrArg Except.ok hheld.payload_eq
      · obtain rfl := Except.ok.inj hm
        exact hheld.payload_eq.symm ▸ hheld
    · have hpure : (redacting intOfText).redactOutput payload = redactFields payload := rfl
      rw [if_neg hfits, hpure, if_neg hfits, fieldsOf]
      cases homitted : historicalItemsOmitted (redacting intOfText) (redactFields payload) with
      | error e => exact ⟨rfl, fun m hm => by cases hm⟩
      | ok omitted =>
        have hheld := (held_withReport budgetBytes omitted hfields hdistinct hfresh.1
          (Nat.le_refl next') hnext).finish
        refine ⟨?_, fun m hm => ?_⟩
        · exact congrArg Except.ok hheld.payload_eq
        · obtain rfl := Except.ok.inj hm
          exact hheld.payload_eq.symm ▸ hheld
  | _ => cases hread

/-- The payload before the first round. -/
def startPayload (budgetBytes : ℕ) (redacted : Dict) (omitted : ℤ) : Dict :=
  reported budgetBytes redacted (itemCount redacted) omitted redacted

/-- What a call returns of a payload that was too large. -/
def endPayload (budgetBytes : ℕ) (redacted : Dict) (omitted : ℤ) : Dict :=
  let trimmed := trim budgetBytes (startPayload budgetBytes redacted omitted)
  reported budgetBytes redacted (itemCount trimmed) omitted trimmed

theorem boundedPayload_ok
    (h : boundedPayload (redacting intOfText) payload budgetBytes = .ok result) :
    result = redactFields payload ∧ encodedSize (.obj (redactFields payload)) ≤ budgetBytes ∨
      ∃ omitted, result = endPayload budgetBytes (redactFields payload) omitted := by
  have hpure : (redacting intOfText).redactOutput payload = redactFields payload := rfl
  rw [boundedPayload, hpure] at h
  by_cases hfits : encodedSize (.obj (redactFields payload)) ≤ budgetBytes
  · rw [if_pos hfits] at h
    exact .inl ⟨(Except.ok.inj h).symm, hfits⟩
  · rw [if_neg hfits] at h
    cases homitted : historicalItemsOmitted (redacting intOfText) (redactFields payload) with
    | error e =>
      rw [homitted] at h
      cases h
    | ok omitted =>
      rw [homitted] at h
      exact .inr ⟨omitted, (Except.ok.inj h).symm⟩

section Results

variable {redacted : Dict} {omitted : ℤ} {considered returned : ℕ} {items : List Json}

theorem startPayload_distinct (h : Distinct (.obj redacted)) :
    Distinct (.obj (startPayload budgetBytes redacted omitted)) :=
  distinct_put h (truncation_distinct _ _ _ _)

/-- A report has no lists, and the other fields stay as they are. -/
theorem list_of_put (hplace : lookupAt place (.obj (put clean "truncation"
      (truncation budgetBytes considered returned omitted))) = some (.arr items)) :
    ∃ name rest, place = .key name :: rest ∧ name ≠ "truncation" := by
  cases place with
  | nil => cases hplace
  | cons step rest =>
    cases step with
    | index => cases hplace
    | key name =>
      refine ⟨name, rest, rfl, ?_⟩
      rintro rfl
      rw [lookupAt, get_put, if_pos rfl, Option.bind_some, truncation] at hplace
      cases rest with
      | nil => cases hplace
      | cons step rest =>
        cases step with
        | index => cases hplace
        | key name =>
          obtain ⟨u, hu, hrest⟩ := Option.bind_eq_some_iff.mp hplace
          have hmem := JsonPlaces.mem_of_get hu
          simp only [List.mem_cons, Prod.mk.injEq, List.not_mem_nil, or_false] at hmem
          rcases hmem with ⟨-, rfl⟩ | ⟨-, rfl⟩ | ⟨-, rfl⟩ | ⟨-, rfl⟩ | ⟨-, rfl⟩ <;>
            rcases rest with _ | ⟨_ | _, _⟩ <;> cases hrest

theorem lookupAt_put {name : String} {rest : Place} {v : Json} (hname : name ≠ "truncation") :
    lookupAt (.key name :: rest) (.obj (put clean "truncation" v)) =
      lookupAt (.key name :: rest) (.obj clean) := by
  rw [lookupAt, lookupAt, get_put, if_neg hname]

theorem endPayload_lists (h : Distinct (.obj redacted))
    (hplace : lookupAt place (.obj (endPayload budgetBytes redacted omitted)) =
      some (.arr items)) :
    ∃ whole, lookupAt place (.obj redacted) = some (.arr whole) ∧
      List.Forall₂ Trimmed (whole.take items.length) items := by
  have hstart : Distinct (.obj (startPayload budgetBytes redacted omitted)) :=
    startPayload_distinct h
  obtain ⟨-, htrimmed⟩ := trim_trimmed budgetBytes hstart
  obtain ⟨name, rest, rfl, hname⟩ := list_of_put hplace
  rw [endPayload, reported, lookupAt_put hname] at hplace
  obtain ⟨whole, hwhole, hprefix⟩ := htrimmed.list_begins hstart hplace
  rw [startPayload, reported, lookupAt_put hname] at hwhole
  exact ⟨whole, hwhole, hprefix⟩

/-- What the report says of the items, and what is left of them. -/
structure Counted (budgetBytes : ℕ) (redacted result : Dict) : Prop where
  report : ∃ omitted, Dict.get result "truncation" = some (truncation budgetBytes
    (countItems skipped (.obj redacted)) (countItems skipped (.obj result)) omitted)
  le : countItems skipped (.obj result) ≤ countItems skipped (.obj redacted)
  all : allItems (.obj redacted) = countItems skipped (.obj redacted) →
    allItems (.obj result) = countItems skipped (.obj result)

theorem endPayload_counted (h : Distinct (.obj redacted)) :
    Counted budgetBytes redacted (endPayload budgetBytes redacted omitted) := by
  let start := startPayload budgetBytes redacted omitted
  have hstart : Distinct (.obj start) := startPayload_distinct h
  obtain ⟨-, htrimmed⟩ := trim_trimmed budgetBytes hstart
  have hbegin : countItems skipped (.obj start) = countItems skipped (.obj redacted) ∧
      allItems (.obj start) ≤ allItems (.obj redacted) := count_put_truncation redacted rfl
  have hend : countItems skipped (.obj (endPayload budgetBytes redacted omitted)) =
        countItems skipped (.obj (trim budgetBytes start)) ∧
      allItems (.obj (endPayload budgetBytes redacted omitted)) ≤
        allItems (.obj (trim budgetBytes start)) := count_put_truncation _ rfl
  have hcount : countItems skipped (.obj (trim budgetBytes start)) ≤
      countItems skipped (.obj start) := htrimmed.count_le
  refine ⟨⟨omitted, ?_⟩, ?_, fun hall => ?_⟩
  · rw [hend.1, endPayload, get_reported, itemCount_eq, itemCount_eq]
  · rw [hend.1, ← hbegin.1]
    exact hcount
  · have hskipped : allItems (.obj (trim budgetBytes start)) + countItems skipped (.obj start) ≤
        allItems (.obj start) + countItems skipped (.obj (trim budgetBytes start)) :=
      htrimmed.skipped_le
    have hle : countItems skipped (.obj (endPayload budgetBytes redacted omitted)) ≤
        allItems (.obj (endPayload budgetBytes redacted omitted)) := countItems_le_all _
    omega

/-- The rounds of the loop: each makes the payload smaller and leaves the caller's argument, and the
limit on the rounds shows only where the loop needs more of them. -/
structure LoopEnds (budgetBytes : ℕ) (value : Node) (m : Memory) : Prop where
  decreases : ∀ a b, Relation.ReflTransGen (fun a b => objectRound budgetBytes a = some b) m a →
    objectRound budgetBytes a = some b → weight (erase b.clean) < weight (erase a.clean)
  caller : ∀ a, Relation.ReflTransGen (fun a b => objectRound budgetBytes a = some b) m a →
    a.caller = value
  ends : ∃ k last, Loops.Ends (objectRound budgetBytes) m k last ∧ k ≤ weight (erase m.clean) ∧
    (k ≤ 10000 → repeatStep (objectRound budgetBytes) 10000 m = last)

/-- What a call leaves: the caller's argument, and a payload whose lists are beginnings of those of
the redacted argument, with the items counted. -/
structure Trims (budgetBytes : ℕ) (value : Node) (redacted : Dict) (m : Memory) : Prop where
  caller : m.caller = value
  lists : ∀ place items, lookupAt place (erase m.clean) = some (.arr items) →
    ∃ whole, lookupAt place (.obj redacted) = some (.arr whole) ∧
      List.Forall₂ Trimmed (whole.take items.length) items
  counted : ¬encodedSize (.obj redacted) ≤ budgetBytes → Counted budgetBytes redacted m.payload

theorem Held.of_objectRound (h : Held value clean m) (hm' : objectRound budgetBytes m = some m') :
    ∃ clean', Reads.round budgetBytes clean = some clean' ∧ Held value clean' m' := by
  have hround : (objectRound budgetBytes m = none ∧ _) ∨ _ := h.round
  rcases hround with ⟨hnone, -⟩ | ⟨clean', m₁, hm₁, hround, hheld⟩
  · rw [hnone] at hm'
    cases hm'
  · obtain rfl := Option.some.inj (hm₁.symm.trans hm')
    exact ⟨clean', hround, hheld⟩

theorem Held.decreases (h : Held value clean m) (hm' : objectRound budgetBytes m = some m') :
    weight (erase m'.clean) < weight (erase m.clean) := by
  obtain ⟨clean', hround, hheld⟩ := h.of_objectRound hm'
  rw [h.content, hheld.content]
  exact round_weight_lt h.distinct hround

theorem Held.loopEnds (h : Held value clean m) : LoopEnds budgetBytes value m := by
  have hstep (a b : Memory) (ha : ∃ clean, Held value clean a)
      (hround : objectRound budgetBytes a = some b) :
      (∃ clean, Held value clean b) ∧ weight (erase b.clean) < weight (erase a.clean) := by
    obtain ⟨clean, hheld⟩ := ha
    obtain ⟨clean', -, hnext⟩ := hheld.of_objectRound hround
    exact ⟨⟨clean', hnext⟩, hheld.decreases hround⟩
  have hreached : ∀ a, Relation.ReflTransGen (fun a b => objectRound budgetBytes a = some b) m a →
      ∃ clean, Held value clean a := by
    intro a ha
    induction ha with
    | refl => exact ⟨clean, h⟩
    | tail _ hround ih => exact (hstep _ _ ih hround).1
  refine ⟨fun a b ha hround => (hstep a b (hreached a ha) hround).2, fun a ha => ?_, ?_⟩
  · obtain ⟨clean, hheld⟩ := hreached a ha
    exact hheld.caller
  · obtain ⟨k, last, hends, hk⟩ := Loops.exists_ends (P := fun a => ∃ clean, Held value clean a)
      (fun a => weight (erase a.clean)) hstep ⟨clean, h⟩
    exact ⟨k, last, hends, hk, repeatStep_of_ends hends⟩

theorem Held.trims (h : Held value result m) (hredacted : Distinct (.obj redacted))
    (hresult : result = redacted ∧ encodedSize (.obj redacted) ≤ budgetBytes ∨
      ∃ omitted, result = endPayload budgetBytes redacted omitted) :
    Trims budgetBytes value redacted m := by
  have hpayload := h.payload_eq
  have hcontent := h.content
  rcases hresult with ⟨rfl, hfits⟩ | ⟨omitted, rfl⟩
  · refine ⟨h.caller, fun place items hplace => ?_, fun hover => absurd hfits hover⟩
    rw [hcontent] at hplace
    exact (Trimmed.same _).list_begins hredacted hplace
  · refine ⟨h.caller, fun place items hplace => ?_, fun _ => ?_⟩
    · rw [hcontent] at hplace
      exact endPayload_lists hredacted hplace
    · rw [hpayload]
      exact endPayload_counted hredacted

/-- For every object and every budget the loop ends because its rounds make the payload smaller,
the argument is not modified, each list of the result is a beginning of the redacted one, and the
items that do not stand under `truncation` are counted. -/
theorem bounded_payload_trims (intOfText : String → Option ℤ) (budgetBytes : ℕ) (value : Node)
    (next : ℕ) (payload : Dict) (hvalue : erase value = .obj payload)
    (hpayload : Distinct (.obj payload)) (hnext : ∀ r ∈ refs value, r < next) :
    (∀ omitted, LoopEnds budgetBytes value (withReport budgetBytes value
      (redactNode value next).1 (redactNode value next).2 omitted)) ∧
    (∀ m, boundedPayloadIn intOfText budgetBytes value next = .ok m →
      Trims budgetBytes value (redactFields payload) m) := by
  have hredacted : Distinct (.obj (redactFields payload)) := redactOutput_distinct _ hpayload
  obtain ⟨hmap, hheld⟩ := boundedPayloadIn_held intOfText budgetBytes hvalue hpayload hnext
  refine ⟨fun omitted => ?_, fun m hm => ?_⟩
  · obtain ⟨hread, hfresh⟩ := redactNode_spec value next
    rw [hvalue, redactOutput] at hread
    generalize redactNode value next = made at hread hfresh
    obtain ⟨node, next'⟩ := made
    cases node with
    | dict r fields =>
      have hfields : eraseFields fields = redactFields payload := Json.obj.inj hread
      have hrest : Fresh next next' (fieldRefs fields) :=
        ⟨hfresh.le, hfresh.nodup.of_cons, fun x hx => hfresh.range x (List.mem_cons_of_mem r hx)⟩
      exact (held_withReport budgetBytes omitted hfields hredacted hrest (Nat.le_refl next')
        hnext).loopEnds
    | _ => cases hread
  · rw [hm] at hmap
    exact (hheld m hm).trims hredacted (boundedPayload_ok hmap.symm)

def fourItems : Node := .dict 0 [("items", .list 1 [.num 1, .num 2, .num 3, .num 4])]

def fourItemsRead : Dict := [("items", .arr [.num 1, .num 2, .num 3, .num 4])]

theorem exists_memory (hvalue : erase value = .obj payload) (hpayload : Distinct (.obj payload))
    (hnext : ∀ r ∈ refs value, r < next)
    (h : boundedPayload (redacting intOfText) payload budgetBytes = .ok result) :
    ∃ m, boundedPayloadIn intOfText budgetBytes value next = .ok m ∧ Held value result m := by
  obtain ⟨hmap, hheld⟩ := boundedPayloadIn_held intOfText budgetBytes hvalue hpayload hnext
  rw [h] at hmap
  cases hm : boundedPayloadIn intOfText budgetBytes value next with
  | error e =>
    rw [hm] at hmap
    cases hmap
  | ok m =>
    rw [hm] at hmap
    have hread : m.payload = result := Except.ok.inj hmap
    exact ⟨m, rfl, hread ▸ hheld m hm⟩

theorem four_items_distinct : Distinct (.obj fourItemsRead) :=
  ⟨by decide, ⟨trivial, trivial, trivial, trivial, trivial⟩, trivial⟩

/-- Of four items one is left. -/
theorem four_items_trims : ∃ m, boundedPayloadIn (fun _ => none) 10 fourItems 2 = .ok m ∧
    Trims 10 fourItems (redactFields fourItemsRead) m ∧
    m.payload = [("items", .arr [.num 1]), ("truncation", truncation 10 4 1 0)] := by
  have hvalue : erase fourItems = .obj fourItemsRead := rfl
  have hnext : ∀ r ∈ refs fourItems, r < 2 := by decide
  have hrun : boundedPayload (redacting fun _ => none) fourItemsRead 10 =
      .ok [("items", .arr [.num 1]), ("truncation", truncation 10 4 1 0)] := by
    decide +kernel
  obtain ⟨m, hm, hheld⟩ := exists_memory hvalue four_items_distinct hnext hrun
  exact ⟨m, hm, (bounded_payload_trims (fun _ => none) 10 fourItems 2 fourItemsRead hvalue
    four_items_distinct hnext).2 m hm, hheld.payload_eq⟩

def hiddenItem : Node := .dict 0 [("a", .dict 1 [("truncation", .list 2 [.num 1])])]

def hiddenItemRead : Dict := [("a", .obj [("truncation", .arr [.num 1])])]

theorem hidden_item_distinct : Distinct (.obj hiddenItemRead) :=
  ⟨by decide, ⟨by decide, ⟨trivial, trivial⟩, trivial⟩, trivial⟩

/-- A list item under an inner `truncation` is in the result and not in the report. -/
theorem hidden_item_not_reported : ¬ ∀ (intOfText : String → Option ℤ) (budgetBytes : ℕ)
    (value : Node) (next : ℕ) (payload : Dict) (m : Memory), erase value = .obj payload →
    Distinct (.obj payload) → (∀ r ∈ refs value, r < next) →
    boundedPayloadIn intOfText budgetBytes value next = .ok m →
    ¬encodedSize (.obj (redactFields payload)) ≤ budgetBytes →
    ∃ report, Dict.get m.payload "truncation" = some (.obj report) ∧
      Dict.get report "items_returned" = some (.num (allItems (erase m.clean))) := by
  intro hclaim
  have hvalue : erase hiddenItem = .obj hiddenItemRead := rfl
  have hnext : ∀ r ∈ refs hiddenItem, r < 3 := by decide
  have hrun : boundedPayload (redacting fun _ => none) hiddenItemRead 10 =
      .ok [("a", .obj [("truncation", .arr [.num 1])]), ("truncation", truncation 10 0 0 0)] := by
    decide +kernel
  have hover : ¬encodedSize (.obj (redactFields hiddenItemRead)) ≤ 10 := by decide +kernel
  obtain ⟨m, hm, hheld⟩ := exists_memory hvalue hidden_item_distinct hnext hrun
  obtain ⟨report, hreport, hreturned⟩ := hclaim (fun _ => none) 10 hiddenItem 3 hiddenItemRead m
    hvalue hidden_item_distinct hnext hm hover
  rw [hheld.payload_eq] at hreport
  obtain rfl := Json.obj.inj (Option.some.inj hreport)
  rw [hheld.content] at hreturned
  revert hreturned
  decide

end Results

end Calls

end ProjectControl.Reads
