import ProjectControl.Markers

/-! The section of `AGENTS.md` that the migration owns: where it stands, and how it is added,
refreshed and removed. -/

set_option autoImplicit false

namespace ProjectControl.Migration

open Markers (find find_append_separator find_separator_cons find_nil)

section Source

/-- The two markers around a section. -/
structure Marking where
  start : List Char
  stop : List Char

def current : Marking where
  start := "<!-- project-control:start -->".toList
  stop := "<!-- project-control:end -->".toList

def legacy : Marking where
  start := "<!-- coding-workflow:start -->".toList
  stop := "<!-- coding-workflow:end -->".toList

@[irreducible]
def routingBody : List Char := (String.intercalate "\n" [
  "<!-- project-control:start -->",
  "## Project Control workflow",
  "",
  "For substantial repository work, use `project-control`. Start with `next_task`,",
  "use `inspect_task` for bounded current-task context, and use `coordinate_task`",
  "for typed synchronization. Rich Project Control reads are secondary escalation",
  "tools when bounded workflow context is insufficient.",
  "",
  "Todo Orchestrator remains the transactional authority. First-class Codex agents",
  "receive lanes and roles; local workers are optional bounded children of exactly",
  "one parent claim and never become first-class participants.",
  "<!-- project-control:end -->"]).toList

/-- `ROUTING_SECTION`. -/
def routingSection : List Char := routingBody ++ ['\n']

inductive MigrationError where
  | malformed (startMarker : List Char)
  | both

def MigrationError.message : MigrationError → String
  | .malformed startMarker =>
    "AGENTS.md has malformed " ++ String.ofList startMarker ++ " section"
  | .both => "AGENTS.md has both project-control and coding-workflow sections"

/-- The newlines behind a section that go with it. -/
def eaten : List Char → ℕ
  | '\n' :: '\n' :: _ => 2
  | '\n' :: _ => 1
  | _ => 0

/-- `_span`. -/
def span (content : List Char) (m : Marking) : Except MigrationError (Option (ℕ × ℕ)) :=
  match find m.start content, find m.stop content with
  | [], [] => pure none
  | [start], [stop] =>
    if stop < start then throw (.malformed m.start)
    else
      let finish := stop + m.stop.length
      pure (some (start, finish + eaten (content.drop finish)))
  | _, _ => throw (.malformed m.start)

/-- `_owned_span`. -/
def ownedSpan (content : List Char) : Except MigrationError (Option (ℕ × ℕ)) := do
  let now ← span content current
  let old ← span content legacy
  match now, old with
  | some _, some _ => throw .both
  | some place, none => pure (some place)
  | none, old => pure old

def blankEnd : List Char := ['\n', '\n']

/-- The end of a line, with one blank line if one follows, and the rest. -/
def lineEnd : List Char → Option (List Char × List Char)
  | '\n' :: '\n' :: after => some (blankEnd, after)
  | '\n' :: after => some (['\n'], after)
  | _ => none

/-- A heading in the first line, and the rest. -/
def heading (content : List Char) : List Char × List Char :=
  match content with
  | '#' :: rest =>
    match lineEnd (rest.dropWhile (· ≠ '\n')) with
    | some (ends, after) => ('#' :: rest.takeWhile (· ≠ '\n') ++ ends, after)
    | none => ([], content)
  | _ => ([], content)

def padBefore (before : List Char) : List Char :=
  if before ≠ [] ∧ ¬blankEnd <:+ before then before ++ ['\n'] else before

def padAfter (after : List Char) : List Char :=
  if after ≠ [] ∧ after.head? ≠ some '\n' then '\n' :: after else after

/-- `_insert_near_top`. -/
def insertNearTop (content text : List Char) : List Char :=
  let (before, after) := heading content
  padBefore before ++ text ++ padAfter after

def cut (content : List Char) (place : ℕ × ℕ) : List Char :=
  content.take place.1 ++ content.drop place.2

inductive Change where
  | add
  | refresh
  | remove
deriving DecidableEq

/-- `_updated_agents`. -/
def updatedAgents (content : List Char) (remove : Bool) :
    Except MigrationError (List Char × Change) := do
  let place ← ownedSpan content
  if remove then
    pure (match place with
      | none => content
      | some place => cut content place, .remove)
  else
    match place with
    | none => pure (insertNearTop content routingSection, .add)
    | some place => pure (insertNearTop (cut content place) routingSection, .refresh)

end Source

section Laws

/-- At most one section, and that well formed. -/
def AtMostOne (content : List Char) : Prop := ∃ place, ownedSpan content = .ok place

/-- The text outside the owned section. -/
def outside (content : List Char) : List Char :=
  match ownedSpan content with
  | .ok (some place) => cut content place
  | _ => content

/-- Updating twice is updating once, there is one section then, and outside of it stands what
stood outside before; so that a removal restores a text without section. -/
structure RoutingLaws (content : List Char) : Prop where
  twice : ∃ once change change', updatedAgents content false = .ok (once, change) ∧
    updatedAgents once false = .ok (once, change')
  oneSection : ∀ once change, updatedAgents content false = .ok (once, change) →
    ∃ place, ownedSpan once = .ok (some place)
  preserved : ∀ once change, updatedAgents content false = .ok (once, change) →
    updatedAgents once true = .ok (outside content, .remove)

def markers : List (List Char) := [current.start, current.stop, legacy.start, legacy.stop]

/-- None of the markers occurs. -/
def Unmarked (text : List Char) : Prop := ∀ m ∈ markers, find m text = []

instance (text : List Char) : Decidable (Unmarked text) :=
  inferInstanceAs (Decidable (∀ m ∈ markers, find m text = []))

/-- Under a heading with exactly one blank line, or without heading and without a newline at the
start; and no marker is put together where the section is cut out. -/
structure WellPlaced (text : List Char) : Prop where
  unmarked : Unmarked text
  top : (heading text).1 = [] ∨ blankEnd <:+ (heading text).1
  body : (heading text).2.head? ≠ some '\n'

end Laws

section Places

variable {m before after text x y : List Char}

theorem marker_ne_nil (hm : m ∈ markers) : m ≠ [] := by
  have hall : ∀ m ∈ markers, m ≠ [] := by decide +kernel
  exact hall m hm

theorem newline_not_mem_marker (hm : m ∈ markers) : '\n' ∉ m := by
  have hall : ∀ m ∈ markers, '\n' ∉ m := by decide +kernel
  exact hall m hm

/-- Nothing, or a text that ends with a newline. -/
def Closed (before : List Char) : Prop := before = [] ∨ ∃ x, before = x ++ ['\n']

theorem find_append (hm : m ∈ markers) (hbefore : Closed before) :
    find m (before ++ y) = find m before ++ (find m y).map (· + before.length) := by
  rcases hbefore with rfl | ⟨x, rfl⟩
  · rw [List.nil_append, find_nil, List.nil_append, List.length_nil]
    simp only [Nat.add_zero, List.map_id']
  · have hlength : (x ++ ['\n']).length = x.length + 1 := by
      rw [List.length_append, List.length_singleton]
    rw [hlength, List.append_assoc, List.singleton_append,
      find_append_separator (newline_not_mem_marker hm) (marker_ne_nil hm),
      find_append_separator (y := []) (newline_not_mem_marker hm) (marker_ne_nil hm), find_nil,
      List.map_nil, List.append_nil]

theorem map_add (places : List ℕ) (a b : ℕ) :
    (places.map (· + a)).map (· + b) = places.map (· + (a + b)) := by
  rw [List.map_map]
  ext place
  simp only [List.getElem?_map, Function.comp_def, Nat.add_assoc]

/-- The places of a marker in a text with the section in it. -/
theorem find_inserted (hm : m ∈ markers) (hbefore : Closed before) :
    find m (before ++ routingSection ++ after) = find m before ++
      ((find m routingBody).map (· + before.length) ++
        (find m after).map (· + (before.length + routingBody.length + 1))) := by
  have hshift : before.length + routingBody.length + 1 =
      routingBody.length + 1 + before.length := by omega
  rw [List.append_assoc, find_append hm hbefore, routingSection, List.append_assoc,
    List.singleton_append,
    find_append_separator (newline_not_mem_marker hm) (marker_ne_nil hm), List.map_append,
    map_add, hshift]

theorem unmarked_append (hbefore : Closed before) :
    Unmarked (before ++ y) ↔ Unmarked before ∧ Unmarked y := by
  constructor
  · intro h
    have hboth (m : List Char) (hm : m ∈ markers) : find m before = [] ∧ find m y = [] := by
      have hfind := h m hm
      rw [find_append hm hbefore, List.append_eq_nil_iff, List.map_eq_nil_iff] at hfind
      exact hfind
    exact ⟨fun m hm => (hboth m hm).1, fun m hm => (hboth m hm).2⟩
  · intro h m hm
    rw [find_append hm hbefore, h.1 m hm, h.2 m hm, List.map_nil, List.append_nil]

theorem unmarked_newline : Unmarked ['\n'] := by
  intro m hm
  rw [find_separator_cons (newline_not_mem_marker hm) (marker_ne_nil hm), find_nil, List.map_nil]

theorem unmarked_padBefore (hbefore : Closed before) :
    Unmarked (padBefore before) ↔ Unmarked before := by
  rw [padBefore]
  split_ifs
  · rw [unmarked_append hbefore]
    exact and_iff_left unmarked_newline
  · rfl

theorem unmarked_padAfter : Unmarked (padAfter after) ↔ Unmarked after := by
  rw [padAfter]
  split_ifs
  · have hclosed : Closed ['\n'] := .inr ⟨[], rfl⟩
    have happend := unmarked_append (y := after) hclosed
    rw [List.singleton_append] at happend
    rw [happend]
    exact and_iff_right unmarked_newline
  · rfl

theorem Closed.padBefore (hbefore : Closed before) : Closed (padBefore before) := by
  rw [Migration.padBefore]
  split_ifs
  · exact .inr ⟨before, rfl⟩
  · exact hbefore

end Places

section Headings

variable {text : List Char}

theorem lineEnd_cases (text : List Char) :
    lineEnd text = none ∨
      (∃ after, lineEnd text = some (blankEnd, after) ∧ text = blankEnd ++ after) ∨
      ∃ after, lineEnd text = some (['\n'], after) ∧ text = ['\n'] ++ after ∧
        after.head? ≠ some '\n' := by
  unfold lineEnd
  split
  · exact .inr (.inl ⟨_, rfl, rfl⟩)
  · rename_i after hblank
    refine .inr (.inr ⟨after, rfl, rfl, fun hhead => ?_⟩)
    obtain ⟨rest, rfl⟩ : ∃ rest, after = '\n' :: rest := by
      cases after with
      | nil => cases hhead
      | cons c rest => exact ⟨rest, by rw [Option.some.inj hhead]⟩
    exact hblank rest rfl
  · exact .inl rfl

/-- There is no heading, or it ends with a blank line, or no blank line follows. -/
theorem heading_cases (text : List Char) :
    heading text = ([], text) ∨
      (∃ line after, heading text = (line ++ blankEnd, after) ∧
        text = line ++ blankEnd ++ after) ∨
      ∃ line after, heading text = (line ++ ['\n'], after) ∧ text = line ++ ['\n'] ++ after ∧
        after.head? ≠ some '\n' := by
  unfold heading
  split
  · rename_i rest
    have hline (ends after : List Char) (hends : rest.dropWhile (· ≠ '\n') = ends ++ after) :
        '#' :: rest = '#' :: rest.takeWhile (· ≠ '\n') ++ ends ++ after := by
      rw [List.append_assoc, ← hends, List.cons_append, List.takeWhile_append_dropWhile]
    rcases lineEnd_cases (rest.dropWhile (· ≠ '\n')) with
      h | ⟨after, h, hends⟩ | ⟨after, h, hends, hafter⟩
    · rw [h]
      exact .inl rfl
    · rw [h]
      exact .inr (.inl ⟨_, after, rfl, hline _ _ hends⟩)
    · rw [h]
      exact .inr (.inr ⟨_, after, rfl, hline _ _ hends, hafter⟩)
  · exact .inl rfl

theorem heading_append (text : List Char) : (heading text).1 ++ (heading text).2 = text := by
  rcases heading_cases text with h | ⟨line, after, h, htext⟩ | ⟨line, after, h, htext, -⟩
  · rw [h]
    rfl
  · rw [h]
    exact htext.symm
  · rw [h]
    exact htext.symm

theorem closed_heading (text : List Char) : Closed (heading text).1 := by
  rcases heading_cases text with h | ⟨line, after, h, -⟩ | ⟨line, after, h, -⟩
  · exact .inl (congrArg Prod.fst h)
  · refine .inr ⟨line ++ ['\n'], ?_⟩
    rw [h, List.append_assoc]
    rfl
  · exact .inr ⟨line, congrArg Prod.fst h⟩

/-- A heading takes the blank line with it. -/
theorem body_of_heading (hnonempty : (heading text).1 ≠ [])
    (hblank : ¬blankEnd <:+ (heading text).1) : (heading text).2.head? ≠ some '\n' := by
  rcases heading_cases text with h | ⟨line, after, h, -⟩ | ⟨line, after, h, -, hafter⟩
  · exact absurd (congrArg Prod.fst h) hnonempty
  · rw [h] at hblank
    exact absurd (List.suffix_append line blankEnd) hblank
  · rw [h]
    exact hafter

end Headings

section Spans

variable {content before after : List Char} {m : Marking} {place : ℕ × ℕ}

theorem span_of_nil (hstart : find m.start content = []) (hstop : find m.stop content = []) :
    span content m = .ok none := by
  rw [span, hstart, hstop]
  rfl

theorem span_of_single {start stop : ℕ} (hstart : find m.start content = [start])
    (hstop : find m.stop content = [stop]) (hle : start ≤ stop) :
    span content m = .ok (some (start, stop + m.stop.length +
      eaten (content.drop (stop + m.stop.length)))) := by
  rw [span, hstart, hstop]
  simp only [not_lt.mpr hle, if_false]
  rfl

/-- A span that is found lies between the only two markers. -/
theorem span_cases {found : Option (ℕ × ℕ)} (h : span content m = .ok found) :
    (found = none ∧ find m.start content = [] ∧ find m.stop content = []) ∨
      ∃ start stop finish, found = some (start, finish) ∧ find m.start content = [start] ∧
        find m.stop content = [stop] := by
  unfold span at h
  split at h
  · rename_i hstart hstop
    exact .inl ⟨(Except.ok.inj h).symm, hstart, hstop⟩
  · rename_i start stop hstart hstop
    split_ifs at h
    exact .inr ⟨start, stop, _, (Except.ok.inj h).symm, hstart, hstop⟩
  · cases h

theorem ownedSpan_cases (h : ownedSpan content = .ok (some place)) :
    (∃ start stop, find current.start content = [start] ∧ find current.stop content = [stop] ∧
        find legacy.start content = [] ∧ find legacy.stop content = []) ∨
      find current.start content = [] := by
  unfold ownedSpan at h
  cases hnow : span content current with
  | error e =>
    rw [hnow] at h
    cases h
  | ok now =>
    cases hold : span content legacy with
    | error e =>
      rw [hnow, hold] at h
      cases h
    | ok old =>
      rw [hnow, hold] at h
      rcases span_cases hnow with ⟨-, hnone, -⟩ | ⟨start, stop, finish, rfl, hstart, hstop⟩
      · exact .inr hnone
      · rcases span_cases hold with ⟨-, hnone, hnone'⟩ | ⟨start', stop', finish', rfl, -, -⟩
        · exact .inl ⟨start, stop, hstart, hstop, hnone, hnone'⟩
        · -- two sections are refused
          cases h

theorem ownedSpan_of_unmarked (h : Unmarked content) : ownedSpan content = .ok none := by
  have hnow : span content current = .ok none :=
    span_of_nil (h _ (by decide)) (h _ (by decide))
  have hold : span content legacy = .ok none :=
    span_of_nil (h _ (by decide)) (h _ (by decide))
  rw [ownedSpan, hnow, hold]
  rfl

end Spans

section Insertion

variable {before after : List Char}

/-- The characters of the section, line by line. -/
theorem routingBody_lines : routingBody = List.intercalate "\n".toList [
    "<!-- project-control:start -->".toList,
    "## Project Control workflow".toList,
    "".toList,
    "For substantial repository work, use `project-control`. Start with `next_task`,".toList,
    "use `inspect_task` for bounded current-task context, and use `coordinate_task`".toList,
    "for typed synchronization. Rich Project Control reads are secondary escalation".toList,
    "tools when bounded workflow context is insufficient.".toList,
    "".toList,
    "Todo Orchestrator remains the transactional authority. First-class Codex agents".toList,
    "receive lanes and roles; local workers are optional bounded children of exactly".toList,
    "one parent claim and never become first-class participants.".toList,
    "<!-- project-control:end -->".toList] := by
  unfold routingBody
  exact String.toList_intercalate

theorem places_body : find current.start routingBody = [0] ∧
    find current.stop routingBody = [routingBody.length - current.stop.length] ∧
      find legacy.start routingBody = [] ∧ find legacy.stop routingBody = [] ∧
        current.stop.length ≤ routingBody.length := by
  rw [routingBody_lines]
  decide +kernel

theorem ownedSpan_inserted (hclosed : Closed before) (hbefore : Unmarked before)
    (hafter : Unmarked after) : ownedSpan (before ++ routingSection ++ after) =
      .ok (some (before.length, before.length + routingBody.length + eaten ('\n' :: after))) := by
  obtain ⟨hstart, hstop, hold, hold', hle⟩ := places_body
  have hplaces (m : List Char) (hm : m ∈ markers) :
      find m (before ++ routingSection ++ after) =
        (find m routingBody).map (· + before.length) := by
    rw [find_inserted hm hclosed, hbefore m hm, hafter m hm, List.map_nil, List.append_nil,
      List.nil_append]
  have hfinish : routingBody.length - current.stop.length + before.length + current.stop.length =
      before.length + routingBody.length := by omega
  have hdrop : (before ++ routingSection ++ after).drop (before.length + routingBody.length) =
      '\n' :: after := by
    rw [routingSection, List.append_assoc, List.append_assoc, ← List.drop_drop, List.drop_left,
      List.drop_left, List.singleton_append]
  have hnow : span (before ++ routingSection ++ after) current = .ok (some (before.length,
      before.length + routingBody.length + eaten ('\n' :: after))) := by
    have hstart' : find current.start (before ++ routingSection ++ after) = [before.length] := by
      rw [hplaces _ (by decide), hstart, List.map_singleton, Nat.zero_add]
    have hstop' : find current.stop (before ++ routingSection ++ after) =
        [routingBody.length - current.stop.length + before.length] := by
      rw [hplaces _ (by decide), hstop, List.map_singleton]
    rw [span_of_single hstart' hstop' (by omega), hfinish, hdrop]
  have hlegacy : span (before ++ routingSection ++ after) legacy = .ok none := by
    apply span_of_nil
    · rw [hplaces _ (by decide), hold, List.map_nil]
    · rw [hplaces _ (by decide), hold', List.map_nil]
  rw [ownedSpan, hnow, hlegacy]
  rfl

/-- A text in which exactly one section is found holds no other marker. -/
theorem unmarked_of_ownedSpan (hclosed : Closed before) {place : ℕ × ℕ}
    (h : ownedSpan (before ++ routingSection ++ after) = .ok (some place)) :
    Unmarked before ∧ Unmarked after := by
  obtain ⟨hstart, hstop, hold, hold', -⟩ := places_body
  -- the section takes the only place that each of its markers has
  have hsingle (m : List Char) (hm : m ∈ markers) {a b : ℕ} (hbody : find m routingBody = [b])
      (hfind : find m (before ++ routingSection ++ after) = [a]) :
      find m before = [] ∧ find m after = [] := by
    rw [find_inserted hm hclosed, hbody] at hfind
    have hlength := congrArg List.length hfind
    simp only [List.length_append, List.length_map, List.length_singleton] at hlength
    constructor
    · apply List.eq_nil_of_length_eq_zero
      omega
    · apply List.eq_nil_of_length_eq_zero
      omega
  have hnone (m : List Char) (hm : m ∈ markers)
      (hfind : find m (before ++ routingSection ++ after) = []) :
      find m before = [] ∧ find m after = [] := by
    rw [find_inserted hm hclosed, List.append_eq_nil_iff, List.append_eq_nil_iff,
      List.map_eq_nil_iff, List.map_eq_nil_iff] at hfind
    exact ⟨hfind.1, hfind.2.2⟩
  rcases ownedSpan_cases h with ⟨start, stop, hnow, hnow', hlegacy, hlegacy'⟩ | hnow
  · have hall (m : List Char) (hm : m ∈ markers) : find m before = [] ∧ find m after = [] := by
      rcases List.mem_cons.mp hm with rfl | hm'
      · exact hsingle _ hm hstart hnow
      rcases List.mem_cons.mp hm' with rfl | hm'
      · exact hsingle _ hm hstop hnow'
      rcases List.mem_cons.mp hm' with rfl | hm'
      · exact hnone _ hm hlegacy
      · obtain rfl := List.mem_singleton.mp hm'
        exact hnone _ hm hlegacy'
    exact ⟨fun m hm => (hall m hm).1, fun m hm => (hall m hm).2⟩
  · rw [find_inserted (by decide) hclosed, hstart] at hnow
    simp at hnow

/-- What a removal leaves of a text with the section in it. -/
theorem cut_inserted : cut (before ++ routingSection ++ after)
      (before.length, before.length + routingBody.length + eaten ('\n' :: after)) =
    before ++ after.drop (eaten ('\n' :: after) - 1) := by
  have hpos : eaten ('\n' :: after) = eaten ('\n' :: after) - 1 + 1 := by
    unfold eaten
    split
    · rfl
    · rfl
    · rename_i hnone
      exact absurd rfl (hnone after)
  have hlength : before.length + routingBody.length + eaten ('\n' :: after) =
      (before ++ routingSection).length + (eaten ('\n' :: after) - 1) := by
    rw [routingSection, List.length_append, List.length_append, List.length_singleton]
    omega
  rw [cut]
  dsimp only
  rw [hlength, ← List.drop_drop, List.drop_left, List.append_assoc, List.take_left]

theorem eaten_newline (after : List Char) :
    eaten ('\n' :: after) - 1 = if after.head? = some '\n' then 1 else 0 := by
  cases after with
  | nil => rfl
  | cons c rest =>
    by_cases hc : c = '\n'
    · subst hc
      rfl
    · rw [List.head?_cons, if_neg fun h => hc (Option.some.inj h)]
      unfold eaten
      split
      · rename_i heq
        cases heq
        exact absurd rfl hc
      · rfl
      · rfl

end Insertion

section Theorem

variable {content before after text : List Char}

theorem updatedAgents_remove (h : AtMostOne content) :
    updatedAgents content true = .ok (outside content, .remove) := by
  obtain ⟨place, hplace⟩ := h
  rw [updatedAgents, outside, hplace]
  cases place with
  | none => rfl
  | some place => rfl

theorem updatedAgents_insert (h : AtMostOne content) : ∃ change, updatedAgents content false =
    .ok (insertNearTop (outside content) routingSection, change) := by
  obtain ⟨place, hplace⟩ := h
  rw [updatedAgents, outside, hplace]
  cases place with
  | none => exact ⟨.add, rfl⟩
  | some place => exact ⟨.refresh, rfl⟩

theorem padAfter_drop (after : List Char) :
    (padAfter after).drop (eaten ('\n' :: padAfter after) - 1) =
      if after.head? = some '\n' then after.tail else after := by
  rw [eaten_newline, padAfter]
  cases after with
  | nil => rfl
  | cons c rest =>
    by_cases hc : c = '\n'
    · subst hc
      simp only [List.head?_cons, ne_eq, not_true_eq_false, and_false, if_false, if_true,
        List.drop_succ_cons, List.drop_zero, List.tail_cons]
    · have hhead : (c :: rest).head? ≠ some '\n' := fun h => hc (Option.some.inj h)
      have hpad : c :: rest ≠ [] ∧ (c :: rest).head? ≠ some '\n' :=
        ⟨List.cons_ne_nil c rest, hhead⟩
      have hnewline : ('\n' :: c :: rest).head? = some '\n' := rfl
      rw [if_pos hpad, if_neg hhead, if_pos hnewline, List.drop_one, List.tail_cons]

/-- What stands outside of the section after an insertion. -/
theorem outside_insertNearTop {place : ℕ × ℕ}
    (h : ownedSpan (insertNearTop text routingSection) = .ok (some place)) :
    outside (insertNearTop text routingSection) = padBefore (heading text).1 ++
      if (heading text).2.head? = some '\n' then (heading text).2.tail else (heading text).2 := by
  have hclosed : Closed (padBefore (heading text).1) := (closed_heading text).padBefore
  obtain ⟨hbefore, hafter⟩ := unmarked_of_ownedSpan hclosed h
  have hspan := ownedSpan_inserted hclosed hbefore hafter
  rw [← padAfter_drop, ← cut_inserted, outside]
  change ownedSpan (insertNearTop text routingSection) = _ at hspan
  rw [hspan]
  rfl

theorem ownedSpan_insertNearTop (h : Unmarked text) :
    ∃ place, ownedSpan (insertNearTop text routingSection) = .ok (some place) := by
  rw [← heading_append text, unmarked_append (closed_heading text)] at h
  have hbefore := (unmarked_padBefore (closed_heading text)).mpr h.1
  exact ⟨_, ownedSpan_inserted (closed_heading text).padBefore hbefore (unmarked_padAfter.mpr h.2)⟩

theorem unmarked_of_insertNearTop {place : ℕ × ℕ}
    (h : ownedSpan (insertNearTop text routingSection) = .ok (some place)) : Unmarked text := by
  obtain ⟨hbefore, hafter⟩ := unmarked_of_ownedSpan (closed_heading text).padBefore h
  rw [← heading_append text, unmarked_append (closed_heading text)]
  exact ⟨(unmarked_padBefore (closed_heading text)).mp hbefore, unmarked_padAfter.mp hafter⟩

/-- A text whose section is well placed comes out of an insertion and a removal unchanged. -/
theorem outside_of_wellPlaced (h : WellPlaced text) :
    outside (insertNearTop text routingSection) = text := by
  obtain ⟨place, hplace⟩ := ownedSpan_insertNearTop h.unmarked
  have hpad : padBefore (heading text).1 = (heading text).1 := by
    rw [padBefore, if_neg]
    rintro ⟨hnonempty, hblank⟩
    exact h.top.elim hnonempty hblank
  rw [outside_insertNearTop hplace, if_neg h.body, hpad, heading_append]

theorem wellPlaced_of_outside {place : ℕ × ℕ}
    (hplace : ownedSpan (insertNearTop text routingSection) = .ok (some place))
    (h : outside (insertNearTop text routingSection) = text) : WellPlaced text := by
  have hsame : padBefore (heading text).1 ++
      (if (heading text).2.head? = some '\n' then (heading text).2.tail else (heading text).2) =
        (heading text).1 ++ (heading text).2 := by
    rw [← outside_insertNearTop hplace, h, heading_append]
  have hbody : (heading text).2.head? ≠ some '\n' := by
    intro hhead
    rw [if_pos hhead] at hsame
    have hlength := congrArg List.length hsame
    have hpos : 0 < (heading text).2.length := by
      rw [List.length_pos_iff]
      rintro hnil
      rw [hnil] at hhead
      cases hhead
    rw [List.length_append, List.length_append, List.length_tail, padBefore] at hlength
    -- the text is as long as before only if a newline was added behind the heading
    split_ifs at hlength with hpad
    · exact body_of_heading hpad.1 hpad.2 hhead
    · omega
  rw [if_neg hbody] at hsame
  have hpad := List.append_cancel_right hsame
  refine ⟨unmarked_of_insertNearTop hplace, ?_, hbody⟩
  by_contra hnot
  rw [not_or] at hnot
  rw [padBefore, if_pos hnot] at hpad
  have hlength := congrArg List.length hpad
  rw [List.length_append, List.length_singleton] at hlength
  omega

/-- The laws hold exactly if the text outside the section is well placed. -/
theorem routingLaws_iff (h : AtMostOne content) :
    RoutingLaws content ↔ WellPlaced (outside content) := by
  obtain ⟨change, hinsert⟩ := updatedAgents_insert h
  constructor
  · intro hlaws
    obtain ⟨place, hplace⟩ := hlaws.oneSection _ _ hinsert
    have hremoved := hlaws.preserved _ _ hinsert
    rw [updatedAgents_remove ⟨_, hplace⟩] at hremoved
    exact wellPlaced_of_outside hplace (congrArg Prod.fst (Except.ok.inj hremoved))
  · intro hplaced
    obtain ⟨place, hplace⟩ := ownedSpan_insertNearTop hplaced.unmarked
    obtain ⟨change', hagain⟩ := updatedAgents_insert ⟨_, hplace⟩
    rw [outside_of_wellPlaced hplaced] at hagain
    refine ⟨⟨_, change, change', hinsert, hagain⟩, fun once change'' honce => ?_,
      fun once change'' honce => ?_⟩
    · obtain ⟨rfl, -⟩ := Prod.mk.inj (Except.ok.inj (hinsert.symm.trans honce))
      exact ⟨place, hplace⟩
    · obtain ⟨rfl, -⟩ := Prod.mk.inj (Except.ok.inj (hinsert.symm.trans honce))
      rw [updatedAgents_remove ⟨_, hplace⟩, outside_of_wellPlaced hplaced]

def oneLine : List Char := "# Guide\n\nbody\n".toList

def noBlankLine : List Char := "# Guide\nbody\n".toList

theorem atMostOne_of_unmarked (h : Unmarked content) : AtMostOne content :=
  ⟨none, ownedSpan_of_unmarked h⟩

theorem oneLine_unmarked : Unmarked oneLine := by decide +kernel

theorem noBlankLine_unmarked : Unmarked noBlankLine := by decide +kernel

theorem oneLine_laws : RoutingLaws oneLine ↔ WellPlaced (outside oneLine) :=
  routingLaws_iff (atMostOne_of_unmarked oneLine_unmarked)

/-- Without a blank line behind the heading a removal leaves one. -/
theorem removal_leaves_blank_line : AtMostOne noBlankLine ∧ ¬RoutingLaws noBlankLine := by
  have hone : AtMostOne noBlankLine := atMostOne_of_unmarked noBlankLine_unmarked
  have houtside : outside noBlankLine = noBlankLine := by
    rw [outside, ownedSpan_of_unmarked noBlankLine_unmarked]
  obtain ⟨change, hinsert⟩ := updatedAgents_insert hone
  refine ⟨hone, fun hlaws => ?_⟩
  obtain ⟨place, hplace⟩ := hlaws.oneSection _ _ hinsert
  have hremoved := hlaws.preserved _ _ hinsert
  rw [updatedAgents_remove ⟨_, hplace⟩] at hremoved
  have hplaced := wellPlaced_of_outside hplace (congrArg Prod.fst (Except.ok.inj hremoved))
  rw [houtside] at hplaced
  have htop := hplaced.top
  revert htop
  decide +kernel

end Theorem

end ProjectControl.Migration
