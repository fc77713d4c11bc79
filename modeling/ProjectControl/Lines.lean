import Mathlib.Data.List.Basic
import Mathlib.Data.List.DropRight
import Mathlib.Tactic.Cases

/-! The lines of a text in two readings: ended by newlines, or by any of the line boundaries of
Unicode. They agree where a line of the first one has no other boundary in it. -/

set_option autoImplicit false

namespace Lines

section Readings

def isBoundary (c : Char) : Bool :=
  c.toNat ∈ [0x0a, 0x0b, 0x0c, 0x0d, 0x1c, 0x1d, 0x1e, 0x85, 0x2028, 0x2029]

/-- The lines with their newlines; `line` is what has been read of the first one. -/
def newlineEnded (line : List Char) : List Char → List (List Char)
  | [] => if line = [] then [] else [line]
  | c :: rest =>
    if c = '\n' then (line ++ [c]) :: newlineEnded [] rest else newlineEnded (line ++ [c]) rest

/-- The lines without their boundaries; a carriage return and a newline are one boundary. -/
def splitlines (line : List Char) : List Char → List (List Char)
  | [] => if line = [] then [] else [line]
  | '\r' :: '\n' :: rest => line :: splitlines [] rest
  | c :: rest => if isBoundary c then line :: splitlines [] rest else splitlines (line ++ [c]) rest

def isEnd (c : Char) : Bool := c = '\r' || c = '\n'

/-- `rstrip("\r\n")`. -/
def stripEnd (line : List Char) : List Char := line.rdropWhile isEnd

/-- The second reading takes a line of the first one for one line, too. -/
def OneLine (raw : List Char) : Prop := splitlines [] raw = [stripEnd raw]

end Readings

section Boundaries

variable {line text rest : List Char}

theorem mem_newlineEnded {raw : List Char} (hline : '\n' ∉ line)
    (hraw : raw ∈ newlineEnded line text) : ∃ l, '\n' ∉ l ∧ (raw = l ∨ raw = l ++ ['\n']) := by
  fun_induction newlineEnded line text with
  | case1 => cases hraw
  | case2 line hne => exact ⟨line, hline, .inl (List.mem_singleton.mp hraw)⟩
  | case3 line rest ih =>
    rcases List.mem_cons.mp hraw with rfl | hrest
    · exact ⟨line, hline, .inr rfl⟩
    · exact ih List.not_mem_nil hrest
  | case4 line c rest hc ih =>
    refine ih (fun hmem => ?_) hraw
    rcases List.mem_append.mp hmem with hmem | hmem
    · exact hline hmem
    · exact hc (List.mem_singleton.mp hmem).symm

/-- A line without its end has no newline. -/
theorem newline_notMem_stripEnd {raw : List Char} (hraw : raw ∈ newlineEnded [] text) :
    '\n' ∉ stripEnd raw := by
  obtain ⟨l, hl, rfl | rfl⟩ := mem_newlineEnded List.not_mem_nil hraw
  · exact fun hmem => hl ((List.rdropWhile_prefix _ _).subset hmem)
  · rw [stripEnd, List.rdropWhile_concat_pos _ _ _ rfl]
    exact fun hmem => hl ((List.rdropWhile_prefix _ _).subset hmem)

theorem splitlines_plain (hline : ∀ d ∈ line, isBoundary d = false) :
    ∀ l ∈ splitlines line text, ∀ d ∈ l, isBoundary d = false := by
  have hnone : ∀ d ∈ ([] : List Char), isBoundary d = false := nofun
  fun_induction splitlines line text with
  | case1 => exact fun _ hl => absurd hl List.not_mem_nil
  | case2 line hne => exact List.forall_mem_singleton.mpr hline
  | case3 line rest ih => exact List.forall_mem_cons.mpr ⟨hline, ih hnone⟩
  | case4 line c rest hcrlf hc ih => exact List.forall_mem_cons.mpr ⟨hline, ih hnone⟩
  | case5 line c rest hcrlf hc ih =>
    apply ih
    intro d hd
    rcases List.mem_append.mp hd with hd | hd
    · exact hline d hd
    · rw [List.mem_singleton.mp hd, Bool.eq_false_iff]
      exact hc

theorem splitlines_cons {c : Char} (hcrlf : c = '\r' → text.head? ≠ some '\n') :
    splitlines line (c :: text) =
      if isBoundary c then line :: splitlines [] text else splitlines (line ++ [c]) text := by
  rw [splitlines]
  rintro rest rfl rfl
  exact hcrlf rfl rfl

/-- A newline ends a line whatever is in front of it. -/
theorem splitlines_newline (line text rest : List Char) :
    splitlines line (text ++ '\n' :: rest) =
      splitlines line (text ++ ['\n']) ++ splitlines [] rest := by
  have hnewline (line rest : List Char) :
      splitlines line ('\n' :: rest) = line :: splitlines [] rest := by
    rw [splitlines_cons fun hreturn => absurd hreturn (by decide)]
    rfl
  fun_induction splitlines line text with
  | case1 => rw [List.nil_append, List.nil_append, hnewline, hnewline]; rfl
  | case2 line hne => rw [List.nil_append, List.nil_append, hnewline, hnewline]; rfl
  | case3 line text ih => exact congrArg (line :: ·) ih
  | case4 line c text hcrlf hc ih =>
    by_cases hcr : c = '\r' ∧ text = []
    · obtain ⟨rfl, rfl⟩ := hcr
      rfl
    have hstep (tail : List Char) :
        splitlines line (c :: (text ++ '\n' :: tail)) = line :: splitlines [] (text ++ '\n' :: tail) := by
      rw [splitlines_cons, if_pos hc]
      intro hreturn hhead
      cases text with
      | nil => exact hcr ⟨hreturn, rfl⟩
      | cons d text => exact hcrlf text hreturn (Option.some.inj hhead ▸ rfl)
    rw [List.cons_append, List.cons_append, hstep, hstep, ih]
    rfl
  | case5 line c text hcrlf hc ih =>
    have hstep (tail : List Char) :
        splitlines line (c :: (text ++ '\n' :: tail)) =
          splitlines (line ++ [c]) (text ++ '\n' :: tail) := by
      rw [splitlines_cons, if_neg hc]
      rintro rfl
      exact absurd rfl hc
    rw [List.cons_append, List.cons_append, hstep, hstep, ih]

/-- The lines in the second reading are those of each line in the first one. -/
theorem splitlines_flatMap (line text : List Char) :
    splitlines [] (line ++ text) = (newlineEnded line text).flatMap (splitlines []) := by
  fun_induction newlineEnded line text with
  | case1 => rfl
  | case2 line hne => rw [List.append_nil, List.flatMap_singleton]
  | case3 line rest ih => rw [splitlines_newline, List.flatMap_cons, ← ih, List.nil_append]
  | case4 line c rest hc ih => rw [← ih, List.append_assoc, List.singleton_append]

theorem splitlines_of_oneLine {lines : List (List Char)} (h : ∀ raw ∈ lines, OneLine raw) :
    lines.flatMap (splitlines []) = lines.map stripEnd := by
  induction lines with
  | nil => rfl
  | cons raw lines ih =>
    obtain ⟨hraw, hlines⟩ := List.forall_mem_cons.mp h
    rw [List.flatMap_cons, List.map_cons, hraw, ih hlines]
    rfl

theorem splitlines_ne_nil {raw : List Char} (h : line ++ raw ≠ []) : splitlines line raw ≠ [] := by
  fun_induction splitlines line raw with
  | case1 => exact absurd rfl h
  | case2 => exact List.cons_ne_nil _ _
  | case3 => exact List.cons_ne_nil _ _
  | case4 => exact List.cons_ne_nil _ _
  | case5 line c rest hcrlf hc ih =>
    apply ih
    simp

theorem newlineEnded_ne_nil {raw : List Char} (hraw : raw ∈ newlineEnded line text) : raw ≠ [] := by
  fun_induction newlineEnded line text with
  | case1 => cases hraw
  | case2 line hne => exact List.mem_singleton.mp hraw ▸ hne
  | case3 line rest ih =>
    rcases List.mem_cons.mp hraw with rfl | hrest
    · simp
    · exact ih hrest
  | case4 line c rest hc ih => exact ih hraw

/-- The second reading has at least as many lines as the first one. -/
theorem length_newlineEnded_le (text : List Char) :
    (newlineEnded [] text).length ≤ (splitlines [] text).length := by
  have hlines (lines : List (List Char)) (hne : ∀ raw ∈ lines, raw ≠ []) :
      lines.length ≤ (lines.flatMap (splitlines [])).length := by
    induction lines with
    | nil => exact Nat.le_refl 0
    | cons raw lines ih =>
      obtain ⟨hraw, hrest⟩ := List.forall_mem_cons.mp hne
      have hpos : 0 < (splitlines [] raw).length := List.length_pos_of_ne_nil (splitlines_ne_nil hraw)
      have hle := ih hrest
      rw [List.flatMap_cons, List.length_append, List.length_cons]
      omega
  have hsplit := splitlines_flatMap [] text
  rw [List.nil_append] at hsplit
  rw [hsplit]
  exact hlines _ fun raw => newlineEnded_ne_nil

end Boundaries

end Lines
