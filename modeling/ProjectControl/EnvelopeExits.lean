import Mathlib
import ProjectControl.EnvelopeBudget
import ProjectControl.Loops
import ProjectControl.Transaction

/-! The exits of `bounded_envelope`: what each of them returns, and when all of them keep the
budget and the essential fields. -/

set_option autoImplicit false

namespace ProjectControl.Reads

open JsonText Loops

section Exits

variable (p : Platform) (budgetBytes : ℕ)

/-- The data with its coverage. -/
def coveredData (value : ToolEnvelope) : Dict :=
  if (Dict.get value.data "response_coverage").isSome then value.data
  else value.data ++ [("response_coverage", responseCoverage budgetBytes)]

def essentialData (value : ToolEnvelope) (keys : List String) : Dict :=
  ("response_coverage" :: keys).eraseDups.filterMap fun key =>
    (Dict.get (coveredData budgetBytes value) key).map fun v => (key, v)

def payloadData (value : ToolEnvelope) (keys : List String) : Dict :=
  (coveredData budgetBytes value).filter fun e =>
    !(essentialData budgetBytes value keys).any fun f => f.1 = e.1

/-- What the rest of the envelope leaves for the payload. -/
def available (value : ToolEnvelope) (keys : List String) : ℕ :=
  budgetBytes - encodedSize ({ value with data := [] } : ToolEnvelope).dump -
    encodedSize (.obj (essentialData budgetBytes value keys)) - 32

def halved (room : ℕ) : Option ℕ := if room ≤ 128 then none else some (max 128 (room / 2))

def fitsIn (value : ToolEnvelope) (payload essential : Dict) (room : ℕ) : Bool :=
  match boundedPayload p payload room with
  | .ok trimmed =>
    decide (ToolEnvelope.Fits budgetBytes { value with data := merge trimmed essential })
  | .error _ => false

/-- The largest room, halved and halved again, in which the trimmed payload makes the envelope
fit, or the last one. -/
def payloadRoom (value : ToolEnvelope) (keys : List String) : ℕ :=
  let room := available budgetBytes value keys
  firstGood (fitsIn p budgetBytes value (payloadData budgetBytes value keys)
    (essentialData budgetBytes value keys)) room (later halved room room)

def dropWarning (warnings : List String) : Option (List String) :=
  if 1 < warnings.length then some warnings.dropLast else none

def cutWarning (longest least : ℕ) (mark : String) : List String → Option (List String)
  | first :: rest =>
    if longest < first.length then
      some ((String.ofList (first.toList.take (max least (first.length / 2))) ++ mark) :: rest)
    else none
  | [] => none

def cuts (longest least : ℕ) (mark : String) (warnings : List String) : List (List String) :=
  later (cutWarning longest least mark) (((warnings.head?).map String.length).getD 0) warnings

/-- The last warning is left out until there is one, which is then cut. -/
def shorterWarnings (warnings : List String) : List (List String) :=
  let dropped := later dropWarning warnings.length warnings
  dropped ++ cuts 48 24 "…" (dropped.getLastD warnings)

def withWarnings (e : ToolEnvelope) (warnings : List String) : ToolEnvelope :=
  { e with warnings := warnings }

def fitsWith (e : ToolEnvelope) (warnings : List String) : Bool :=
  decide ((withWarnings e warnings).Fits budgetBytes)

def mergedEnvelope (value : ToolEnvelope) (keys : List String) (trimmed : Dict) : ToolEnvelope :=
  { value with data := merge trimmed (essentialData budgetBytes value keys) }

/-- The envelope with its trimmed payload and as many warnings as fit, or the fewest. -/
def trimmedEnvelope (value : ToolEnvelope) (keys : List String) (trimmed : Dict) : ToolEnvelope :=
  let e := mergedEnvelope budgetBytes value keys trimmed
  withWarnings e (firstGood (fitsWith budgetBytes e) e.warnings (shorterWarnings e.warnings))

/-- The envelope of the trimmed payload fits with all of its warnings, or with fewer and shorter
ones. -/
def TrimmedFits (value : ToolEnvelope) (keys : List String) (trimmed : Dict) : Prop :=
  ∃ warnings ∈ value.warnings :: shorterWarnings value.warnings,
    (withWarnings (mergedEnvelope budgetBytes value keys trimmed) warnings).Fits budgetBytes

/-- The essential fields alone, with the fewest warnings. -/
def essentialEnvelope (value : ToolEnvelope) (keys : List String) : ToolEnvelope :=
  { value with
    data := essentialData budgetBytes value keys
    warnings := (shorterWarnings value.warnings).getLastD value.warnings }

/-- The coverage that names the essential fields instead of having them. -/
def namingCoverage (essential : Dict) (expansionRoute : Option String) (coverage : Dict) : Dict :=
  let omitted := ((essential.map Prod.fst).filter (· ≠ "response_coverage")).insertionSort (· ≤ ·)
  let route :=
    match expansionRoute with
    | some route => if route = "" then none else some route
    | none => none
  merge coverage [("essential_fields_omitted", .arr (omitted.map .str)),
    ("expansion_required", .bool true),
    ("expansion_route",
      .str (route.getD "use_the_tool_documented_expansion_or_revalidation_route"))]

def namingEnvelope (value : ToolEnvelope) (keys : List String) (expansionRoute : Option String)
    (coverage : Dict) : ToolEnvelope :=
  let essential := essentialData budgetBytes value keys
  let e := essentialEnvelope budgetBytes value keys
  { e with
    status := .partially
    warnings := (e.warnings ++ ["response_essential_fields_require_expansion"]).eraseDups
    data := [("response_coverage", .obj (namingCoverage essential expansionRoute coverage))] }

/-- The last data in the place of what is there, and its first warning cut. -/
def lastEnvelope (value e : ToolEnvelope) : ToolEnvelope :=
  let last := lastResort budgetBytes value e
  withWarnings last (firstGood (fitsWith budgetBytes last) last.warnings (cuts 8 8 "" last.warnings))

/-- How an envelope that does not fit is returned: with its trimmed payload, else with the essential
fields alone, else with their names. -/
inductive Exit (value : ToolEnvelope) (keys : List String) (expansionRoute : Option String)
    (trimmed : Dict) : ToolEnvelope → Prop
  | trimmed (h : TrimmedFits budgetBytes value keys trimmed) :
      Exit value keys expansionRoute trimmed (trimmedEnvelope budgetBytes value keys trimmed)
  | essential (h : ¬TrimmedFits budgetBytes value keys trimmed)
      (hfits : (essentialEnvelope budgetBytes value keys).Fits budgetBytes) :
      Exit value keys expansionRoute trimmed (essentialEnvelope budgetBytes value keys)
  | naming (coverage : Dict) (h : ¬TrimmedFits budgetBytes value keys trimmed)
      (hessential : ¬(essentialEnvelope budgetBytes value keys).Fits budgetBytes)
      (hcoverage : Dict.get (essentialData budgetBytes value keys) "response_coverage" =
        some (.obj coverage)) :
      Exit value keys expansionRoute trimmed (lastEnvelope budgetBytes value
        (namingEnvelope budgetBytes value keys expansionRoute coverage))

variable {p budgetBytes} {value e r : ToolEnvelope} {keys : List String}
  {expansionRoute : Option String}

theorem repeatStep_induct {α : Type*} {step : α → Option α} {P : α → Prop} (n : ℕ) {a : α}
    (ha : P a) (hstep : ∀ a a', step a = some a' → P a → P a') : P (repeatStep step n a) := by
  induction n generalizing a with
  | zero => exact ha
  | succ n ih =>
    rw [repeatStep]
    cases h : step a with
    | none => exact ha
    | some a' => exact ih (hstep a a' h ha)

theorem coveredData_get {key : String} {v : Json} (h : Dict.get value.data key = some v) :
    Dict.get (coveredData budgetBytes value) key = some v := by
  unfold coveredData
  split_ifs
  · exact h
  · rw [get_append, h, Option.some_or]

theorem coveredData_coverage (budgetBytes : ℕ) (value : ToolEnvelope) :
    (Dict.get (coveredData budgetBytes value) "response_coverage").isSome = true := by
  unfold coveredData
  split_ifs with h
  · exact h
  · rw [get_append]
    cases Dict.get value.data "response_coverage" <;> rfl

theorem mem_essentialData {key : String} {v : Json} :
    (key, v) ∈ essentialData budgetBytes value keys ↔
      key ∈ "response_coverage" :: keys ∧ Dict.get (coveredData budgetBytes value) key = some v := by
  rw [essentialData, List.mem_filterMap]
  constructor
  · rintro ⟨k, hk, hv⟩
    obtain ⟨w, hw, heq⟩ := Option.map_eq_some_iff.mp hv
    obtain ⟨rfl, rfl⟩ := Prod.mk.inj heq
    exact ⟨List.mem_eraseDups.mp hk, hw⟩
  · rintro ⟨hk, hv⟩
    exact ⟨key, List.mem_eraseDups.mpr hk, by rw [hv, Option.map_some]⟩

theorem essentialData_same {key : String} {v : Json}
    (h : (key, v) ∈ essentialData budgetBytes value keys) :
    ∀ w, (key, w) ∈ essentialData budgetBytes value keys → w = v := by
  intro w hw
  have hv := (mem_essentialData.mp h).2
  rw [(mem_essentialData.mp hw).2] at hv
  exact Option.some.inj hv

/-- The coverage is always one of the essential fields. -/
theorem essentialData_coverage (budgetBytes : ℕ) (value : ToolEnvelope) (keys : List String) :
    ∃ v, Dict.get (essentialData budgetBytes value keys)
      "response_coverage" = some v ∧
    Dict.get (coveredData budgetBytes value) "response_coverage" = some v := by
  obtain ⟨v, hv⟩ := Option.isSome_iff_exists.mp (coveredData_coverage budgetBytes value)
  have hmem : ("response_coverage", v) ∈ essentialData budgetBytes value keys :=
    mem_essentialData.mpr ⟨List.mem_cons_self, hv⟩
  exact ⟨v, get_of_mem hmem (essentialData_same hmem), hv⟩

/-- A loop over one part of its state that is left at a good state. -/
theorem repeatStep_eq {σ α : Type} {step : σ → Option σ} {put : α → σ} {good : α → Bool}
    {next : α → Option α} (h : ∀ a, step (put a) = if good a then none else (next a).map put)
    (n : ℕ) (a : α) : repeatStep step n (put a) = put (firstGood good a (later next n a)) := by
  induction n generalizing a with
  | zero => rfl
  | succ n ih =>
    rw [repeatStep, h a]
    cases hgood : good a with
    | true => rw [if_pos rfl, firstGood_self hgood]
    | false =>
      rw [if_neg Bool.false_ne_true, later]
      cases next a with
      | none => rfl
      | some a' =>
        rw [Option.map_some, firstGood, if_neg (Bool.eq_false_iff.mp hgood)]
        exact ih a'

/-- A payload that cannot be trimmed to a room cannot be trimmed to a smaller one. -/
theorem boundedPayload_error {payload : Dict} {room less : ℕ} {fault : Fault}
    (h : boundedPayload p payload room = .error fault) (hless : less ≤ room) :
    boundedPayload p payload less = .error fault := by
  unfold boundedPayload at h ⊢
  dsimp only at h ⊢
  split_ifs at h with hlarge
  · cases h
  · rw [if_neg fun hsmall => hlarge (hsmall.trans hless)]
    cases homitted : historicalItemsOmitted p (p.redactOutput payload) with
    | error found =>
      rw [homitted] at h
      exact h
    | ok omitted =>
      rw [homitted] at h
      cases h

theorem halved_le {room less : ℕ} (n : ℕ) (h : less ∈ later halved n room) : less ≤ room := by
  induction n generalizing room with
  | zero => cases h
  | succ n ih =>
    unfold later halved at h
    by_cases hroom : room ≤ 128
    · rw [if_pos hroom] at h
      cases h
    · rw [if_neg hroom] at h
      rcases List.mem_cons.mp h with rfl | h
      · omega
      · exact (ih h).trans (by omega)

theorem room_error {payload : Dict} {good : ℕ → Bool} {room : ℕ} (n : ℕ) {fault : Fault}
    (h : boundedPayload p payload room = .error fault) :
    boundedPayload p payload (firstGood good room (later halved n room)) = .error fault := by
  refine boundedPayload_error h ?_
  rcases List.mem_cons.mp firstGood_mem with heq | hmem
  · exact heq.le
  · exact halved_le n hmem

theorem fitsIn_eq {payload essential trimmed : Dict} {room : ℕ}
    (h : boundedPayload p payload room = .ok trimmed) :
    fitsIn p budgetBytes e payload essential room =
      decide (ToolEnvelope.Fits budgetBytes { e with data := merge trimmed essential }) := by
  rw [fitsIn, h]

theorem ok_bind {α β : Type} (a : α) (f : α → Except Fault β) : (Except.ok a >>= f) = f a := rfl

theorem error_bind {α β : Type} (fault : Fault) (f : α → Except Fault β) :
    (Except.error fault >>= f) = .error fault := rfl

/-- The loop over the rooms ends with the payload trimmed to the one chosen. -/
theorem trimData_eq (p : Platform) (budgetBytes : ℕ) (payload essential : Dict) {n room : ℕ}
    (hn : room ≤ 128 + n) (e : ToolEnvelope) :
    trimData p budgetBytes payload essential (n + 1) room e =
      boundedPayload p payload
          (firstGood (fitsIn p budgetBytes e payload essential) room (later halved n room)) >>=
        fun trimmed => .ok { e with data := merge trimmed essential } := by
  induction n generalizing room e with
  | zero =>
    have hroom : room ≤ 128 := hn
    rw [later, firstGood, trimData]
    refine bind_congr fun trimmed => ?_
    dsimp only
    rw [if_pos (Or.inr hroom)]
    rfl
  | succ n ih =>
    rw [trimData]
    cases hpayload : boundedPayload p payload room with
    | error fault =>
      rw [room_error (n + 1) hpayload, error_bind, error_bind]
    | ok trimmed =>
      rw [ok_bind]
      dsimp only
      by_cases hfits : ToolEnvelope.Fits budgetBytes { e with data := merge trimmed essential }
      · have hgood := (fitsIn_eq hpayload).trans (decide_eq_true hfits)
        rw [if_pos (.inl hfits), firstGood_self hgood, hpayload]
        rfl
      · have hbad := (fitsIn_eq hpayload).trans (decide_eq_false hfits)
        by_cases hroom : room ≤ 128
        · have hlater : later halved (n + 1) room = [] := by rw [later, halved, if_pos hroom]
          rw [if_pos (.inr hroom), hlater, firstGood, hpayload]
          rfl
        · have hlater : later halved (n + 1) room =
              max 128 (room / 2) :: later halved n (max 128 (room / 2)) := by
            rw [later, halved, if_neg hroom]
          rw [if_neg (not_or.mpr ⟨hfits, hroom⟩), hlater, firstGood,
            if_neg (Bool.eq_false_iff.mp hbad), ih (by omega)]
          rfl

theorem popWarning_eq (e : ToolEnvelope) (warnings : List String) :
    popWarning budgetBytes (withWarnings e warnings) =
      if fitsWith budgetBytes e warnings then none
      else (dropWarning warnings).map (withWarnings e) := by
  have hwarnings : (withWarnings e warnings).warnings = warnings := rfl
  rw [popWarning, fitsWith, dropWarning, hwarnings]
  by_cases hfits : (withWarnings e warnings).Fits budgetBytes
  · rw [if_neg fun h => h.1 hfits, if_pos (decide_eq_true hfits)]
  · rw [if_neg (ne_true_of_eq_false (decide_eq_false hfits))]
    by_cases hmany : 1 < warnings.length
    · rw [if_pos ⟨hfits, hmany⟩, if_pos hmany]
      rfl
    · rw [if_neg fun h => hmany h.2, if_neg hmany]
      rfl

theorem shortenWarning_eq (longest least : ℕ) (mark : String) (e : ToolEnvelope)
    (warnings : List String) :
    shortenWarning budgetBytes longest least mark (withWarnings e warnings) =
      if fitsWith budgetBytes e warnings then none
      else (cutWarning longest least mark warnings).map (withWarnings e) := by
  have hwarnings : (withWarnings e warnings).warnings = warnings := rfl
  rw [shortenWarning, hwarnings, fitsWith]
  cases warnings with
  | nil => exact (ite_self none).symm
  | cons first rest =>
    dsimp only [cutWarning]
    by_cases hfits : (withWarnings e (first :: rest)).Fits budgetBytes
    · rw [if_pos (decide_eq_true hfits), if_neg fun h => h.1 hfits]
    · rw [if_neg (ne_true_of_eq_false (decide_eq_false hfits))]
      by_cases hlong : longest < first.length
      · rw [if_pos hlong, if_pos ⟨hfits, hlong⟩]
        rfl
      · rw [if_neg hlong, if_neg fun h => hlong h.2]
        rfl

theorem shortenWarnings_eq : shortenWarnings budgetBytes e = withWarnings e
    (firstGood (fitsWith budgetBytes e) e.warnings (shorterWarnings e.warnings)) := by
  have hdrop : repeatStep (popWarning budgetBytes) e.warnings.length (withWarnings e e.warnings) =
      withWarnings e (firstGood (fitsWith budgetBytes e) e.warnings
        (later dropWarning e.warnings.length e.warnings)) := repeatStep_eq (popWarning_eq e) _ _
  have hcut (w : List String) : repeatStep (shortenWarning budgetBytes 48 24 "…")
      (firstLength (withWarnings e w)) (withWarnings e w) =
        withWarnings e (firstGood (fitsWith budgetBytes e) w (cuts 48 24 "…" w)) :=
    repeatStep_eq (shortenWarning_eq 48 24 "…" e) _ _
  change repeatStep (popWarning budgetBytes) e.warnings.length e = _ at hdrop
  unfold shortenWarnings shorterWarnings
  dsimp only
  rw [hdrop, firstGood_append]
  generalize later dropWarning e.warnings.length e.warnings = dropped
  rw [hcut]
  -- a loop that has been left before goes no further
  cases hgood : fitsWith budgetBytes e (firstGood (fitsWith budgetBytes e) e.warnings dropped) with
  | true => rw [firstGood_self hgood, firstGood_self hgood]
  | false =>
    have hnone : ∀ w ∈ e.warnings :: dropped, fitsWith budgetBytes e w = false := by
      intro w hw
      refine Bool.eq_false_iff.mpr fun hfits => ?_
      exact Bool.eq_false_iff.mp hgood (good_firstGood.mpr ⟨w, hw, hfits⟩)
    rw [firstGood_last hnone]

/-- A loop over the warnings ends with an envelope that fits if and only if it tries one. -/
theorem fits_firstGood {tries : List (List String)} :
    (withWarnings e (firstGood (fitsWith budgetBytes e) e.warnings tries)).Fits budgetBytes ↔
      ∃ w ∈ e.warnings :: tries, (withWarnings e w).Fits budgetBytes := by
  have hgood : fitsWith budgetBytes e (firstGood (fitsWith budgetBytes e) e.warnings tries) = true ↔
      ∃ w ∈ e.warnings :: tries, fitsWith budgetBytes e w = true := good_firstGood
  simp only [fitsWith, decide_eq_true_iff] at hgood
  exact hgood

theorem fits_trimmed_iff {trimmed : Dict} :
    (trimmedEnvelope budgetBytes value keys trimmed).Fits budgetBytes ↔
      TrimmedFits budgetBytes value keys trimmed := fits_firstGood

/-- What is left is the same for every payload that does not fit. -/
theorem essential_eq {trimmed : Dict} (h : ¬TrimmedFits budgetBytes value keys trimmed) :
    { trimmedEnvelope budgetBytes value keys trimmed with
      data := essentialData budgetBytes value keys } = essentialEnvelope budgetBytes value keys := by
  have hnone : firstGood (fitsWith budgetBytes (mergedEnvelope budgetBytes value keys trimmed))
      value.warnings (shorterWarnings value.warnings) =
        (shorterWarnings value.warnings).getLastD value.warnings :=
    firstGood_last fun w hw => decide_eq_false fun hfits => h ⟨w, hw, hfits⟩
  rw [essentialEnvelope, ← hnone]
  rfl

theorem lastEnvelope_of_fits (h : e.Fits budgetBytes) : lastEnvelope budgetBytes value e = e := by
  have hgood : fitsWith budgetBytes e e.warnings = true := decide_eq_true h
  rw [lastEnvelope, lastResort, if_pos h, firstGood_self hgood]
  rfl

theorem keepEssential_ok_iff {trimmed : Dict} : keepEssential budgetBytes
    (essentialData budgetBytes value keys) expansionRoute
      (trimmedEnvelope budgetBytes value keys trimmed) >>=
        (fun e => .ok (lastEnvelope budgetBytes value e)) = .ok r ↔
      Exit budgetBytes value keys expansionRoute trimmed r := by
  obtain ⟨v, hcoverage, -⟩ := essentialData_coverage budgetBytes value keys
  have hne : ¬(essentialData budgetBytes value keys).isEmpty = true := by
    intro hempty
    rw [List.isEmpty_iff.mp hempty] at hcoverage
    cases hcoverage
  unfold keepEssential
  by_cases htrimmed : TrimmedFits budgetBytes value keys trimmed
  · have hfits := fits_trimmed_iff.mpr htrimmed
    rw [if_pos (.inl hfits), pure_bind, lastEnvelope_of_fits hfits, Except.ok.injEq]
    constructor
    · rintro rfl
      exact .trimmed htrimmed
    · rintro (_ | hnot | ⟨_, hnot⟩)
      · rfl
      all_goals exact absurd htrimmed hnot
  rw [if_neg (not_or.mpr ⟨mt fits_trimmed_iff.mp htrimmed, hne⟩)]
  dsimp only
  rw [essential_eq htrimmed]
  by_cases hessential : (essentialEnvelope budgetBytes value keys).Fits budgetBytes
  · rw [if_pos hessential, pure_bind, lastEnvelope_of_fits hessential, Except.ok.injEq]
    constructor
    · rintro rfl
      exact .essential htrimmed hessential
    · rintro (hnot | _ | ⟨_, _, hnot⟩)
      · exact absurd hnot htrimmed
      · rfl
      · exact absurd hessential hnot
  rw [if_neg hessential, hcoverage]
  constructor
  · intro h
    cases v with
    | obj coverage =>
      have hnaming : lastEnvelope budgetBytes value
          (namingEnvelope budgetBytes value keys expansionRoute coverage) = r := by
        rw [namingEnvelope, ← essential_eq htrimmed]
        exact Except.ok.inj h
      exact hnaming ▸ .naming coverage htrimmed hessential hcoverage
    | _ => cases h
  · rintro (hnot | ⟨_, hnot⟩ | ⟨coverage, _, _, hsome⟩)
    · exact absurd hnot htrimmed
    · exact absurd hnot hessential
    · obtain rfl := Option.some.inj (hcoverage.symm.trans hsome)
      rw [namingEnvelope, ← essential_eq htrimmed]
      rfl

theorem boundedEnvelope_eq : boundedEnvelope p budgetBytes value keys expansionRoute =
    if value.Fits budgetBytes then .ok value
    else boundedPayload p (payloadData budgetBytes value keys) (payloadRoom p budgetBytes value keys)
      >>= fun trimmed =>
        keepEssential budgetBytes (essentialData budgetBytes value keys) expansionRoute
          (trimmedEnvelope budgetBytes value keys trimmed) >>= fun e =>
            .ok (lastEnvelope budgetBytes value e) := by
  have htrim := trimData_eq p budgetBytes (payloadData budgetBytes value keys)
    (essentialData budgetBytes value keys)
    (Nat.le_add_left (available budgetBytes value keys) 128)
    { value with data := coveredData budgetBytes value }
  have hlast (e : ToolEnvelope) : repeatStep (shortenWarning budgetBytes 8 8 "") (firstLength e) e =
      withWarnings e (firstGood (fitsWith budgetBytes e) e.warnings (cuts 8 8 "" e.warnings)) :=
    repeatStep_eq (shortenWarning_eq 8 8 "" e) _ _
  unfold boundedEnvelope
  by_cases hfits : value.Fits budgetBytes
  · rw [if_pos hfits, if_pos hfits]
    rfl
  · rw [if_neg hfits, if_neg hfits]
    refine (congrArg (· >>= _) htrim).trans ?_
    rw [bind_assoc]
    refine bind_congr fun trimmed => ?_
    rw [ok_bind, shortenWarnings_eq]
    refine bind_congr fun e => ?_
    dsimp only
    rw [hlast]
    rfl

/-- An envelope is returned as it is, or by one of the exits. -/
theorem boundedEnvelope_ok_iff :
    boundedEnvelope p budgetBytes value keys expansionRoute = .ok r ↔
      value.Fits budgetBytes ∧ r = value ∨
        ¬value.Fits budgetBytes ∧ ∃ trimmed,
          boundedPayload p (payloadData budgetBytes value keys)
            (payloadRoom p budgetBytes value keys) = .ok trimmed ∧
          Exit budgetBytes value keys expansionRoute trimmed r := by
  rw [boundedEnvelope_eq]
  by_cases hvalue : value.Fits budgetBytes
  · rw [if_pos hvalue, Except.ok.injEq]
    exact ⟨fun h => .inl ⟨hvalue, h.symm⟩, fun h => (h.resolve_right fun h => h.1 hvalue).2.symm⟩
  · rw [if_neg hvalue, Ensures.bind_eq_ok]
    refine Iff.trans ?_ (or_iff_right fun h => hvalue h.1).symm
    rw [and_iff_right hvalue]
    exact exists_congr fun trimmed => and_congr_right fun _ => keepEssential_ok_iff

/-- Only the warnings are different in the end. -/
theorem lastEnvelope_same : (lastEnvelope budgetBytes value e).data =
      (lastResort budgetBytes value e).data ∧ (lastEnvelope budgetBytes value e).status = e.status := by
  have hstatus : (lastResort budgetBytes value e).status = e.status := by
    unfold lastResort
    split_ifs <;> rfl
  rw [← hstatus, lastEnvelope]
  generalize lastResort budgetBytes value e = last
  exact ⟨rfl, rfl⟩

theorem lastEnvelope_coverage {v : Json} (h : Dict.get e.data "response_coverage" = some v) :
    Dict.get (lastEnvelope budgetBytes value e).data "response_coverage" = some v := by
  rw [lastEnvelope_same.1, lastResort]
  split_ifs
  · exact h
  · rw [h]
    exact Dict.get_cons_self _ _ _

end Exits

section Contract

variable {p : Platform} {budgetBytes : ℕ} {value e r : ToolEnvelope} {keys : List String}
  {expansionRoute : Option String}

/-- The response says that a field is left out. -/
def Named (r : ToolEnvelope) (key : String) : Prop :=
  r.status = .partially ∧ ∃ coverage listed,
    Dict.get r.data "response_coverage" = some (.obj coverage) ∧
      Dict.get coverage "essential_fields_omitted" = some (.arr listed) ∧ .str key ∈ listed

/-- Every essential field is there as it was, or it is named. -/
def KeepsEssential (value r : ToolEnvelope) (keys : List String) : Prop :=
  ∀ key ∈ keys, ∀ v, Dict.get value.data key = some v → Dict.get r.data key = some v ∨ Named r key

/-- There is a response, within the budget, that keeps what is essential. -/
def KeepsContract (p : Platform) (budgetBytes : ℕ) (value : ToolEnvelope) (keys : List String)
    (expansionRoute : Option String) : Prop :=
  ∃ r, boundedEnvelope p budgetBytes value keys expansionRoute = .ok r ∧ r.Fits budgetBytes ∧
    KeepsEssential value r keys

/-- The names of the essential fields fit, or else the last data, with the first warning cut as
far as need be. -/
def NamesFit (budgetBytes : ℕ) (value : ToolEnvelope) (keys : List String)
    (expansionRoute : Option String) (coverage : Dict) : Prop :=
  let names := namingEnvelope budgetBytes value keys expansionRoute coverage
  let coverage := namingCoverage (essentialData budgetBytes value keys) expansionRoute coverage
  names.Fits budgetBytes ∨ ∃ warnings ∈ names.warnings :: cuts 8 8 "" names.warnings,
    (withWarnings { names with data := lastData value (.obj coverage) } warnings).Fits budgetBytes

/-- The coverage of the caller is not lost: it is not declared essential, or it says already what
is added. -/
def CoverageKept (value : ToolEnvelope) (essential : Dict) (keys : List String)
    (expansionRoute : Option String) (coverage : Dict) : Prop :=
  "response_coverage" ∈ keys → (Dict.get value.data "response_coverage").isSome = true →
    namingCoverage essential expansionRoute coverage = coverage

theorem fits_last_iff {coverage : Dict} : (lastEnvelope budgetBytes value
    (namingEnvelope budgetBytes value keys expansionRoute coverage)).Fits budgetBytes ↔
      NamesFit budgetBytes value keys expansionRoute coverage := by
  by_cases hnames :
    (namingEnvelope budgetBytes value keys expansionRoute coverage).Fits budgetBytes
  · rw [lastEnvelope_of_fits hnames]
    exact iff_of_true hnames (.inl hnames)
  · refine Iff.trans ?_ (or_iff_right hnames).symm
    rw [lastEnvelope, lastResort, if_neg hnames]
    exact fits_firstGood

theorem mem_essential (budgetBytes : ℕ) {key : String} {v : Json} (hkey : key ∈ keys)
    (hv : Dict.get value.data key = some v) : (key, v) ∈ essentialData budgetBytes value keys :=
  mem_essentialData.mpr ⟨List.mem_cons_of_mem _ hkey, coveredData_get hv⟩

theorem trimmed_keeps (trimmed : Dict) :
    KeepsEssential value (trimmedEnvelope budgetBytes value keys trimmed) keys := by
  intro key hkey v hv
  have hmem := mem_essential budgetBytes hkey hv
  exact .inl (get_merge_of_mem hmem (essentialData_same hmem))

/-- The names that take the place of the fields. -/
theorem namingCoverage_omitted (essential coverage : Dict) : Dict.get
    (namingCoverage essential expansionRoute coverage) "essential_fields_omitted" =
      some (.arr ((((essential.map Prod.fst).filter (· ≠ "response_coverage")).insertionSort
        (· ≤ ·)).map .str)) := by
  refine get_merge_of_mem List.mem_cons_self fun w hw => ?_
  simp only [List.mem_cons, Prod.mk.injEq, String.reduceEq, false_and, List.not_mem_nil,
    or_false, true_and] at hw
  exact hw

theorem naming_named {coverage : Dict} {key : String} (hne : key ≠ "response_coverage") {v : Json}
    (hmem : (key, v) ∈ essentialData budgetBytes value keys) :
    Named (lastEnvelope budgetBytes value
      (namingEnvelope budgetBytes value keys expansionRoute coverage)) key := by
  refine ⟨lastEnvelope_same.2, _, _, lastEnvelope_coverage rfl, namingCoverage_omitted _ _, ?_⟩
  refine List.mem_map_of_mem ((List.mem_insertionSort _).mpr (List.mem_filter.mpr ⟨?_, ?_⟩))
  · exact List.mem_map_of_mem (f := Prod.fst) hmem
  · exact decide_eq_true hne

/-- The coverage itself is never among the names. -/
theorem coverage_not_named {coverage : Dict} : ¬Named (lastEnvelope budgetBytes value
    (namingEnvelope budgetBytes value keys expansionRoute coverage)) "response_coverage" := by
  rintro ⟨_, found, listed, hfound, hlisted, hmem⟩
  rw [lastEnvelope_coverage rfl] at hfound
  obtain rfl := Json.obj.inj (Option.some.inj hfound)
  rw [namingCoverage_omitted] at hlisted
  obtain rfl := Json.arr.inj (Option.some.inj hlisted)
  obtain ⟨name, hname, heq⟩ := List.mem_map.mp hmem
  have hne := (List.mem_filter.mp ((List.mem_insertionSort _).mp hname)).2
  exact of_decide_eq_true hne (Json.str.inj heq)

theorem essential_keeps :
    KeepsEssential value (essentialEnvelope budgetBytes value keys) keys := by
  intro key hkey v hv
  have hmem := mem_essential budgetBytes hkey hv
  exact .inl (get_of_mem hmem (essentialData_same hmem))

theorem naming_keeps_iff {coverage : Dict}
    (hcoverage : Dict.get (essentialData budgetBytes value keys) "response_coverage" =
      some (.obj coverage)) :
    KeepsEssential value (lastEnvelope budgetBytes value
      (namingEnvelope budgetBytes value keys expansionRoute coverage)) keys ↔
        CoverageKept value (essentialData budgetBytes value keys) keys expansionRoute coverage := by
  have hvalue {v : Json} (hv : Dict.get value.data "response_coverage" = some v) :
      v = .obj coverage := by
    obtain ⟨w, hw, hcovered⟩ := essentialData_coverage budgetBytes value keys
    rw [hcoverage] at hw
    rw [coveredData_get hv] at hcovered
    exact Option.some.inj (hcovered.trans hw.symm)
  constructor
  · intro hkeeps hkey hsome
    obtain ⟨v, hv⟩ := Option.isSome_iff_exists.mp hsome
    rcases hkeeps _ hkey v hv with hsame | hnamed
    · rw [lastEnvelope_coverage rfl, hvalue hv] at hsame
      exact Json.obj.inj (Option.some.inj hsame)
    · exact absurd hnamed coverage_not_named
  · intro hkept key hkey v hv
    by_cases hne : key = "response_coverage"
    · subst hne
      have hsame := hkept hkey (Option.isSome_iff_exists.mpr ⟨v, hv⟩)
      refine .inl ?_
      rw [lastEnvelope_coverage rfl, hvalue hv, hsame]
    · exact .inr (naming_named hne (mem_essential _ hkey hv))

/-- Budget and essential fields are kept if and only if the envelope fits as it is, or its trimmed
payload fits with some of the warnings, or its essential fields do alone, or at last their names,
in a coverage that can take them. -/
theorem keepsContract_iff : KeepsContract p budgetBytes value keys expansionRoute ↔
    value.Fits budgetBytes ∨ ∃ trimmed,
      boundedPayload p (payloadData budgetBytes value keys)
        (payloadRoom p budgetBytes value keys) = .ok trimmed ∧
      (TrimmedFits budgetBytes value keys trimmed ∨
        (essentialEnvelope budgetBytes value keys).Fits budgetBytes ∨
        ∃ coverage,
          Dict.get (essentialData budgetBytes value keys) "response_coverage" =
              some (.obj coverage) ∧
            CoverageKept value (essentialData budgetBytes value keys) keys expansionRoute
              coverage ∧
            NamesFit budgetBytes value keys expansionRoute coverage) := by
  constructor
  · rintro ⟨r, hr, hfits, hkeeps⟩
    rcases boundedEnvelope_ok_iff.mp hr with ⟨hvalue, _⟩ | ⟨_, trimmed, htrimmed, hexit⟩
    · exact .inl hvalue
    refine .inr ⟨trimmed, htrimmed, ?_⟩
    cases hexit with
    | trimmed hpayload => exact .inl hpayload
    | essential _ hessential => exact .inr (.inl hessential)
    | naming coverage _ _ hcoverage =>
      exact .inr (.inr ⟨coverage, hcoverage, (naming_keeps_iff hcoverage).mp hkeeps,
        fits_last_iff.mp hfits⟩)
  · intro hcondition
    by_cases hvalue : value.Fits budgetBytes
    · exact ⟨value, boundedEnvelope_ok_iff.mpr (.inl ⟨hvalue, rfl⟩), hvalue,
        fun _ _ _ hv => .inl hv⟩
    obtain ⟨trimmed, htrimmed, hstages⟩ := hcondition.resolve_left hvalue
    have hreturned {r : ToolEnvelope} (hexit : Exit budgetBytes value keys expansionRoute trimmed r) :
        boundedEnvelope p budgetBytes value keys expansionRoute = .ok r :=
      boundedEnvelope_ok_iff.mpr (.inr ⟨hvalue, trimmed, htrimmed, hexit⟩)
    by_cases hpayload : TrimmedFits budgetBytes value keys trimmed
    · exact ⟨_, hreturned (.trimmed hpayload), fits_trimmed_iff.mpr hpayload, trimmed_keeps trimmed⟩
    by_cases hessential : (essentialEnvelope budgetBytes value keys).Fits budgetBytes
    · exact ⟨_, hreturned (.essential hpayload hessential), hessential, essential_keeps⟩
    obtain ⟨coverage, hcoverage, hkept, hnames⟩ :=
      (hstages.resolve_left hpayload).resolve_left hessential
    exact ⟨_, hreturned (.naming coverage hpayload hessential hcoverage),
      fits_last_iff.mpr hnames, (naming_keeps_iff hcoverage).mpr hkept⟩

theorem fits_get {v : Json} {key : String} (hfits : r.Fits budgetBytes)
    (hv : Dict.get r.data key = some v) : encodedSize v ≤ budgetBytes :=
  calc encodedSize v ≤ encodedSize (.obj r.data) := bytes_get_le hv
    _ ≤ encodedSize r.dump := @bytes_get_le _ _ "data" _ rfl
    _ ≤ budgetBytes := hfits

@[irreducible]
def longText : String := String.ofList (List.replicate 5000 'x')

def longNote : Dict := [("note", .str longText)]

theorem length_quote_replicate (n : ℕ) :
    (quote ⟨true, false⟩ (String.ofList (List.replicate n 'x'))).length = n + 2 := by
  have hplain : (List.replicate n 'x').flatMap (escape true) = List.replicate n 'x' := by
    induction n with
    | zero => rfl
    | succ n ih =>
      have hx : escape true 'x' = ['x'] := by decide
      rw [List.replicate_succ, List.flatMap_cons, ih, hx, List.singleton_append]
  rw [quote, String.toList_ofList, hplain, List.length_append, List.length_cons,
    List.length_replicate, List.length_singleton]

theorem longText_size : 5000 ≤ encodedSize (.str longText) := by
  have hlength : (quote ⟨true, false⟩ longText).length = 5002 := by
    unfold longText
    exact length_quote_replicate 5000
  have hbytes : (quote ⟨true, false⟩ longText).length ≤ encodedSize (.str longText) :=
    length_le_bytes _
  omega

def coveredEnvelope : ToolEnvelope where
  tool := "overview"
  status := .ok
  project := .null
  data := [("response_coverage", .obj longNote)]
  warnings := []
  cursor := .null

theorem long_coverage_exceeds (coverage : Dict)
    (hcoverage : Dict.get r.data "response_coverage" = some (.obj coverage))
    (hnote : Dict.get coverage "note" = Dict.get longNote "note") : ¬r.Fits 4096 := by
  intro hfits
  have hsize : encodedSize (.str longText) ≤ encodedSize (.obj coverage) :=
    bytes_get_le (hnote.trans (Dict.get_cons_self _ _ _))
  have hlong := longText_size
  have hbudget := fits_get hfits hcoverage
  omega

/-- A coverage of the caller's own that is larger than the budget is in every response. -/
theorem caller_coverage_exceeds_budget : ¬ ∀ (p : Platform) (budgetBytes : ℕ) (value : ToolEnvelope)
    (keys : List String) (expansionRoute : Option String), 4096 ≤ budgetBytes →
      2 * encodedSize ({ value with data := [], warnings := [] } : ToolEnvelope).dump ≤
        budgetBytes → KeepsContract p budgetBytes value keys expansionRoute := by
  intro hclaim
  have hbase : 2 * encodedSize
      ({ coveredEnvelope with data := [], warnings := [] } : ToolEnvelope).dump ≤ 4096 := by
    decide +kernel
  obtain ⟨r, hr, hfits, _⟩ :=
    hclaim ⟨id, fun _ => none⟩ 4096 coveredEnvelope [] none (Nat.le_refl _) hbase
  have hmem : ("response_coverage", .obj longNote) ∈ essentialData 4096 coveredEnvelope [] :=
    mem_essentialData.mpr ⟨List.mem_cons_self, rfl⟩
  have hessential : Dict.get (essentialData 4096 coveredEnvelope []) "response_coverage" =
      some (.obj longNote) := get_of_mem hmem (essentialData_same hmem)
  rcases boundedEnvelope_ok_iff.mp hr with ⟨_, rfl⟩ | ⟨_, trimmed, _, hexit⟩
  · exact long_coverage_exceeds _ rfl rfl hfits
  · cases hexit with
    | trimmed =>
      exact long_coverage_exceeds longNote (get_merge_of_mem hmem (essentialData_same hmem)) rfl
        hfits
    | essential => exact long_coverage_exceeds _ hessential rfl hfits
    | naming coverage _ _ hcoverage =>
      rw [hessential] at hcoverage
      obtain rfl := Json.obj.inj (Option.some.inj hcoverage)
      refine long_coverage_exceeds _ (lastEnvelope_coverage rfl) ?_ hfits
      simp only [namingCoverage, merge, List.foldl_cons, List.foldl_nil, get_put,
        String.reduceEq, if_false]

end Contract

end ProjectControl.Reads
