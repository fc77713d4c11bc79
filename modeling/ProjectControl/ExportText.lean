import Mathlib
import ProjectControl.ProcessStart
import ProjectControl.Substitution

/-! The redaction of labelled credentials in a text: the two patterns of the legacy export, and
when a redacted text is redacted once more. -/

set_option autoImplicit false

namespace ProjectControl.Export

open Substitution Processes

/-- What the patterns ask of the Unicode database: the word characters that `\b` looks at. -/
structure Unicode where
  isWord : Char → Bool
  ascii : ∀ c, c.toNat < 128 → isWord c = (c.isAlphanum || c = '_')

section Shapes

/-- A letter of a pattern with `(?i)`: besides the two cases four more letters fold to `i`, `s`
and `k`. -/
def folds (l c : Char) : Bool :=
  c = l || c = l.toUpper || (l = 'i' && (c.toNat = 0x130 || c.toNat = 0x131)) ||
    (l = 's' && c.toNat = 0x17f) || (l = 'k' && c.toNat = 0x212a)

def letters (word : List Char) : List (Char → Bool) := word.map folds

def oneOf (chars : List Char) : Char → Bool := fun c => c ∈ chars

/-- The head of a text whose characters are of the given classes, and what follows. -/
def matchAll : List (Char → Bool) → List Char → Option (List Char × List Char)
  | [], text => some ([], text)
  | _ :: _, [] => none
  | k :: ks, c :: text => if k c then (matchAll ks text).map (fun r => (c :: r.1, r.2)) else none

/-- `\b` before a text. -/
def boundary (u : Unicode) (prev : Option Char) (text : List Char) : Bool :=
  prev.any u.isWord != text.head?.any u.isWord

/-- A label, a separator and a value. The value is what is replaced. -/
structure Shape where
  labels : List (List (Char → Bool))
  Separates : List Char → Prop
  starts : Char → Bool
  separator : List Char → Option (List Char × List Char)
  value : List Char → List Char
  separator_some : ∀ {text sep rest}, separator text = some (sep, rest) →
    text = sep ++ rest ∧ Separates sep
  separator_of : ∀ {sep v rest}, Separates sep → starts v = true →
    separator (sep ++ v :: rest) = some (sep, v :: rest)
  value_prefix : ∀ text, value text <+: text
  value_start : ∀ text, value text ≠ [] ↔ text.head?.any starts = true

variable (u : Unicode) (s : Shape)

def Shape.findLabel (label : List (Char → Bool)) (text : List Char) : Option (Hit Char) :=
  (matchAll label text).bind (fun found =>
    (s.separator found.2).bind (fun split =>
      if s.value split.2 = [] then none
      else some ⟨found.1 ++ split.1, s.value split.2⟩))

def Shape.find (prev : Option Char) (text : List Char) : Option (Hit Char) :=
  if boundary u prev text then s.labels.findSome? (fun label => s.findLabel label text) else none

/-- What has to stand before the first character of a value. -/
def Shape.lead (prev : Option Char) (kept : List Char) (v : Char) : Prop :=
  boundary u prev (kept ++ [v]) = true ∧ s.starts v = true ∧ ∃ label ∈ s.labels, ∃ name sep,
    kept = name ++ sep ∧ List.Forall₂ (fun k c => k c = true) label name ∧ s.Separates sep

variable {u s}

theorem matchAll_some {label : List (Char → Bool)} {text name rest : List Char} :
    matchAll label text = some (name, rest) ↔
      text = name ++ rest ∧ List.Forall₂ (fun k c => k c = true) label name := by
  induction label generalizing text name with
  | nil =>
    rw [matchAll, List.forall₂_nil_left_iff]
    constructor
    · intro h
      cases h
      exact ⟨rfl, rfl⟩
    · rintro ⟨rfl, rfl⟩
      rfl
  | cons k ks ih =>
    cases text with
    | nil =>
      rw [matchAll]
      constructor
      · intro h
        cases h
      · rintro ⟨hnil, hname⟩
        obtain ⟨rfl, rfl⟩ := List.append_eq_nil_iff.mp hnil.symm
        cases hname
    | cons c text =>
      rw [matchAll]
      by_cases hk : k c = true
      · rw [if_pos hk, Option.map_eq_some_iff]
        constructor
        · rintro ⟨⟨name', rest'⟩, hrest, heq⟩
          cases heq
          obtain ⟨rfl, hname⟩ := ih.mp hrest
          exact ⟨rfl, .cons hk hname⟩
        · rintro ⟨htext, hname⟩
          cases hname with
          | @cons _ d _ name hd hname =>
            obtain ⟨rfl, rfl⟩ := List.cons.inj htext
            exact ⟨(name, rest), ih.mpr ⟨rfl, hname⟩, rfl⟩
      · rw [if_neg hk]
        constructor
        · intro h
          cases h
        · rintro ⟨htext, hname⟩
          cases hname with
          | cons hd hname =>
            obtain ⟨rfl, rfl⟩ := List.cons.inj htext
            exact absurd hd hk

theorem findLabel_some {label : List (Char → Bool)} {text : List Char} {hit : Hit Char}
    (h : s.findLabel label text = some hit) : ∃ name sep rest, matchAll label text =
      some (name, sep ++ rest) ∧ s.Separates sep ∧ hit.kept = name ++ sep ∧
        hit.value = s.value rest ∧ s.value rest ≠ [] := by
  obtain ⟨⟨name, rest⟩, hname, h⟩ := Option.bind_eq_some_iff.mp h
  obtain ⟨⟨sep, rest'⟩, hsep, h⟩ := Option.bind_eq_some_iff.mp h
  obtain ⟨rfl, hseparates⟩ := s.separator_some hsep
  dsimp only at h
  by_cases hvalue : s.value rest' = []
  · rw [if_pos hvalue] at h
    cases h
  · rw [if_neg hvalue] at h
    cases h
    exact ⟨name, sep, rest', hname, hseparates, rfl, rfl, hvalue⟩

theorem findLabel_ne_none {label : List (Char → Bool)} {name sep rest : List Char} {v : Char}
    (hname : List.Forall₂ (fun k c => k c = true) label name) (hsep : s.Separates sep)
    (hv : s.starts v = true) : s.findLabel label (name ++ (sep ++ v :: rest)) ≠ none := by
  have hmatch : matchAll label (name ++ (sep ++ v :: rest)) = some (name, sep ++ v :: rest) :=
    matchAll_some.mpr ⟨rfl, hname⟩
  have hvalue : s.value (v :: rest) ≠ [] := (s.value_start _).mpr hv
  unfold Shape.findLabel
  rw [hmatch, Option.bind_some, s.separator_of hsep hv, Option.bind_some, if_neg hvalue]
  exact Option.some_ne_none _

theorem boundary_append (u : Unicode) (prev : Option Char) (kept : List Char) (v : Char)
    (rest : List Char) : boundary u prev (kept ++ v :: rest) = boundary u prev (kept ++ [v]) := by
  cases kept with
  | nil => rfl
  | cons c kept => rfl

variable (u s) in
/-- The pattern of a shape. -/
def Shape.pattern : Pattern Char where
  find := s.find u
  lead := s.lead u
  found := by
    intro prev text hit h
    unfold Shape.find at h
    by_cases hb : boundary u prev text = true
    · rw [if_pos hb] at h
      obtain ⟨label, hlabel, h⟩ := List.exists_of_findSome?_eq_some h
      obtain ⟨name, sep, rest, hname, hsep, hkept, hvalue, hne⟩ := findLabel_some h
      obtain ⟨rfl, hall⟩ := matchAll_some.mp hname
      obtain ⟨after, hafter⟩ := s.value_prefix rest
      obtain ⟨v, value, hv⟩ := List.exists_cons_of_ne_nil hne
      have hrest : rest = v :: (value ++ after) := by rw [← hafter, hv, List.cons_append]
      have hstarts : s.starts v = true := by
        have hhead := (s.value_start rest).mp hne
        rwa [hrest] at hhead
      refine ⟨v, value, after, by rw [hvalue, hv], ?_, ?_, hstarts, label, hlabel, name, sep,
        hkept, hall, hsep⟩
      · rw [hkept, hvalue, List.append_assoc (name ++ sep), hafter, List.append_assoc]
      · rwa [hkept, ← boundary_append u prev (name ++ sep) v (value ++ after), ← hrest,
          List.append_assoc]
    · rw [if_neg hb] at h
      cases h
  finds := by
    intro prev text kept v hpre hlead
    obtain ⟨hb, hv, label, hlabel, name, sep, rfl, hname, hsep⟩ := hlead
    obtain ⟨rest, rfl⟩ := hpre
    have hfound : s.findLabel label (name ++ sep ++ v :: rest) ≠ none := by
      rw [List.append_assoc]
      exact findLabel_ne_none hname hsep hv
    unfold Shape.find
    rw [List.append_assoc (name ++ sep), List.singleton_append, boundary_append, if_pos hb]
    intro hnone
    exact hfound (List.findSome?_eq_none_iff.mp hnone label hlabel)

theorem find_value {prev : Option Char} {text rest : List Char} {hit : Hit Char}
    (h : s.find u prev text = some hit) (htext : text = hit.kept ++ hit.value ++ rest) :
    hit.value = s.value (hit.value ++ rest) := by
  unfold Shape.find at h
  by_cases hb : boundary u prev text = true
  · rw [if_pos hb] at h
    obtain ⟨label, -, hlabel⟩ := List.exists_of_findSome?_eq_some h
    obtain ⟨name, sep, tail, hname, -, hkept, hvalue, -⟩ := findLabel_some hlabel
    have hsplit := (matchAll_some.mp hname).1
    rw [htext, hkept, ← List.append_assoc, List.append_assoc (name ++ sep)] at hsplit
    rw [List.append_cancel_left hsplit, hvalue]
  · rw [if_neg hb] at h
    cases h

end Shapes

section Spaces

variable {sep rest : List Char} {v : Char}

theorem takeWhile_spaces (hsep : ∀ c ∈ sep, isSpace c = true) (hv : isSpace v = false) :
    (sep ++ v :: rest).takeWhile isSpace = sep := by
  rw [List.takeWhile_append_of_pos hsep, List.takeWhile_cons_of_neg (by simp [hv]), List.append_nil]

theorem dropWhile_spaces (hsep : ∀ c ∈ sep, isSpace c = true) (hv : isSpace v = false) :
    (sep ++ v :: rest).dropWhile isSpace = v :: rest := by
  rw [List.dropWhile_append_of_pos hsep, List.dropWhile_cons_of_neg (by simp [hv])]

theorem isSpace_of_mem_takeWhile {text : List Char} :
    ∀ c ∈ text.takeWhile isSpace, isSpace c = true := fun _ hc => List.mem_takeWhile_imp hc

end Spaces

section Bearer

/-- The characters of a token, with `(?i)`. -/
def isTokenChar (c : Char) : Bool :=
  c.isAlphanum || c ∈ ['.', '_', '~', '+', '/', '-'] ||
    c.toNat ∈ [0x130, 0x131, 0x17f, 0x212a]

theorem alphanum_range {c : Char} (h : c.isAlphanum = true) : 48 ≤ c.toNat ∧ c.toNat ≤ 122 := by
  simp only [Char.isAlphanum, Char.isAlpha, Char.isUpper, Char.isLower, Char.isDigit,
    Bool.or_eq_true, Bool.and_eq_true, decide_eq_true_eq, ge_iff_le, UInt32.le_iff_toNat_le] at h
  simp at h
  omega

theorem token_not_space {c : Char} (h : isTokenChar c = true) : isSpace c = false := by
  have hnat : 48 ≤ c.toNat ∧ c.toNat ≤ 122 ∨ c.toNat ∈ [46, 95, 126, 43, 47, 45] ∨
      c.toNat ∈ [0x130, 0x131, 0x17f, 0x212a] := by
    simp only [isTokenChar, Bool.or_eq_true, decide_eq_true_eq] at h
    rcases h with (h | h) | h
    · exact Or.inl (alphanum_range h)
    · exact Or.inr (Or.inl (List.mem_map_of_mem (f := Char.toNat) h))
    · exact Or.inr (Or.inr h)
  simp only [List.mem_cons, List.not_mem_nil, or_false] at hnat
  simp only [isSpace, Bool.or_eq_false_iff, Bool.and_eq_false_iff, decide_eq_false_iff_not]
  omega

def bearerValue (text : List Char) : List Char :=
  if text.takeWhile isTokenChar = [] then []
  else text.takeWhile isTokenChar ++ (text.dropWhile isTokenChar).takeWhile (· = '=')

/-- The first of the `_SENSITIVE_TEXT_PATTERNS`. -/
def bearer : Shape where
  labels := [letters ['b', 'e', 'a', 'r', 'e', 'r']]
  Separates sep := sep ≠ [] ∧ ∀ c ∈ sep, isSpace c = true
  starts := isTokenChar
  separator text :=
    if text.takeWhile isSpace = [] then none
    else some (text.takeWhile isSpace, text.dropWhile isSpace)
  value := bearerValue
  separator_some := by
    intro text sep rest h
    by_cases hnil : text.takeWhile isSpace = []
    · rw [if_pos hnil] at h
      cases h
    · rw [if_neg hnil] at h
      cases h
      exact ⟨List.takeWhile_append_dropWhile.symm, hnil, isSpace_of_mem_takeWhile⟩
  separator_of := by
    intro sep v rest hsep hv
    have hspace := token_not_space hv
    rw [takeWhile_spaces hsep.2 hspace, dropWhile_spaces hsep.2 hspace, if_neg hsep.1]
  value_prefix := by
    intro text
    unfold bearerValue
    by_cases hnil : text.takeWhile isTokenChar = []
    · rw [if_pos hnil]
      exact List.nil_prefix
    · rw [if_neg hnil]
      nth_rewrite 3 [← List.takeWhile_append_dropWhile (p := isTokenChar) (l := text)]
      exact (List.prefix_append_right_inj _).mpr (List.takeWhile_prefix _)
  value_start := by
    intro text
    unfold bearerValue
    cases text with
    | nil => simp
    | cons c text =>
      by_cases hc : isTokenChar c = true
      · simp [hc]
      · simp [hc]

end Bearer

section Credentials

/-- `[^,\s;\]}]`. -/
def isPlain (c : Char) : Bool := !isSpace c && c ∉ [',', ';', ']', '}']

/-- A text between quotation marks. -/
def quoted (mark : Char) (text : List Char) : Option (List Char) :=
  match text with
  | [] => none
  | c :: rest =>
    if c = mark ∧ mark ∈ rest then some (mark :: rest.takeWhile (· ≠ mark) ++ [mark]) else none

def credentialValue (text : List Char) : List Char :=
  (quoted '"' text).getD ((quoted '\'' text).getD (text.takeWhile isPlain))

theorem dropWhile_ne {mark : Char} {text : List Char} (h : mark ∈ text) :
    ∃ tail, text.dropWhile (· ≠ mark) = mark :: tail := by
  induction text with
  | nil => cases h
  | cons c text ih =>
    by_cases hc : c = mark
    · exact ⟨text, by rw [hc, List.dropWhile_cons_of_neg (by simp)]⟩
    · rw [List.dropWhile_cons_of_pos (by simp [hc])]
      exact ih ((List.mem_cons.mp h).resolve_left (fun h => hc h.symm))

theorem quoted_some {mark : Char} {text value : List Char} (h : quoted mark text = some value) :
    text.head? = some mark ∧ value <+: text ∧ ∃ inner, value = mark :: inner ++ [mark] := by
  unfold quoted at h
  cases text with
  | nil => cases h
  | cons c rest =>
    by_cases hc : c = mark ∧ mark ∈ rest
    · simp only [if_pos hc] at h
      cases h
      obtain ⟨rfl, hmem⟩ := hc
      refine ⟨rfl, ?_, _, rfl⟩
      obtain ⟨tail, htail⟩ := dropWhile_ne hmem
      refine ⟨tail, ?_⟩
      rw [List.cons_append, List.cons_append, List.append_assoc, List.singleton_append, ← htail,
        List.takeWhile_append_dropWhile]
    · simp only [if_neg hc] at h
      cases h

theorem credentialValue_cases (text : List Char) :
    (∃ mark, (mark = '"' ∨ mark = '\'') ∧ quoted mark text = some (credentialValue text)) ∨
      credentialValue text = text.takeWhile isPlain := by
  unfold credentialValue
  cases hdouble : quoted '"' text with
  | some value => exact Or.inl ⟨'"', Or.inl rfl, hdouble⟩
  | none =>
    cases hsingle : quoted '\'' text with
    | some value => exact Or.inl ⟨'\'', Or.inr rfl, hsingle⟩
    | none => exact Or.inr rfl

/-- The labels of the second pattern, each with what may stand between its two words. -/
def credentialLabels : List (List (Char → Bool)) :=
  let hash := ['h', 'a', 's', 'h']
  let key := ['k', 'e', 'y']
  let joined (a : List Char) (between : List Char) (b : List Char) : List (List (Char → Bool)) :=
    [letters a ++ oneOf between :: letters b, letters (a ++ b)]
  [letters ['p', 'a', 's', 's', 'w', 'o', 'r', 'd'], letters ['p', 'a', 's', 's', 'w', 'd']] ++
    joined ['t', 'o', 'k', 'e', 'n'] ['_', ' ', '-'] hash ++ [letters ['t', 'o', 'k', 'e', 'n']] ++
    joined ['r', 'e', 'c', 'o', 'v', 'e', 'r', 'y'] ['_', ' ', '-']
      ['a', 'p', 'p', 'r', 'o', 'v', 'a', 'l'] ++
    [letters ['s', 'e', 'c', 'r', 'e', 't'],
      letters ['c', 'r', 'e', 'd', 'e', 'n', 't', 'i', 'a', 'l']] ++
    joined ['l', 'e', 'a', 's', 'e'] ['_', ' ', '-'] hash ++
    [letters ['a', 'u', 't', 'h', 'o', 'r', 'i', 'z', 'a', 't', 'i', 'o', 'n']] ++
    joined ['a', 'p', 'i'] ['_', '-'] key ++ joined ['a', 'c', 'c', 'e', 's', 's'] ['_', '-'] key ++
    joined ['p', 'r', 'i', 'v', 'a', 't', 'e'] ['_', '-'] key

/-- `\s*[:=]\s*` at the head of a text. -/
def assignment (text : List Char) : Option (List Char × List Char) :=
  match text.dropWhile isSpace with
  | [] => none
  | d :: rest =>
    if d = ':' ∨ d = '=' then
      some (text.takeWhile isSpace ++ d :: rest.takeWhile isSpace, rest.dropWhile isSpace)
    else none

/-- The second of the `_SENSITIVE_TEXT_PATTERNS`. -/
def credentials : Shape where
  labels := credentialLabels
  Separates sep := ∃ a d b, sep = a ++ d :: b ∧ (∀ c ∈ a, isSpace c = true) ∧
    (d = ':' ∨ d = '=') ∧ ∀ c ∈ b, isSpace c = true
  starts := isPlain
  separator := assignment
  value := credentialValue
  separator_some := by
    intro text sep rest h
    unfold assignment at h
    cases hdrop : text.dropWhile isSpace with
    | nil =>
      rw [hdrop] at h
      cases h
    | cons d tail =>
      simp only [hdrop] at h
      by_cases hd : d = ':' ∨ d = '='
      · rw [if_pos hd] at h
        cases h
        refine ⟨?_, _, d, _, rfl, isSpace_of_mem_takeWhile, hd, isSpace_of_mem_takeWhile⟩
        rw [List.append_assoc, List.cons_append, List.takeWhile_append_dropWhile, ← hdrop,
          List.takeWhile_append_dropWhile]
      · rw [if_neg hd] at h
        cases h
  separator_of := by
    rintro sep v rest ⟨a, d, b, rfl, ha, hd, hb⟩ hv
    have hspace : isSpace v = false := by
      unfold isPlain at hv
      simpa using (Bool.and_eq_true_iff.mp hv).1
    have hcolon : isSpace d = false := by
      rcases hd with rfl | rfl
      · rfl
      · rfl
    have htext : a ++ d :: b ++ v :: rest = a ++ d :: (b ++ v :: rest) := by simp
    unfold assignment
    rw [htext, dropWhile_spaces ha hcolon, takeWhile_spaces ha hcolon]
    simp only [if_pos hd, takeWhile_spaces hb hspace, dropWhile_spaces hb hspace]
  value_prefix := by
    intro text
    rcases credentialValue_cases text with ⟨mark, -, hquoted⟩ | hplain
    · exact (quoted_some hquoted).2.1
    · rw [hplain]
      exact List.takeWhile_prefix _
  value_start := by
    intro text
    rcases credentialValue_cases text with ⟨mark, hmark, hquoted⟩ | hplain
    · obtain ⟨hhead, -, inner, hvalue⟩ := quoted_some hquoted
      rw [hvalue, hhead]
      rcases hmark with rfl | rfl
      · exact iff_of_true (List.cons_ne_nil _ _) rfl
      · exact iff_of_true (List.cons_ne_nil _ _) rfl
    · rw [hplain]
      cases text with
      | nil => simp
      | cons c text => simp

end Credentials

section Redaction

variable {u : Unicode} {prev : Option Char} {kept text rest : List Char} {v : Char}

def redacted : List Char := ['[', 'R', 'E', 'D', 'A', 'C', 'T', 'E', 'D', ']']

theorem folds_token {l c : Char} (hl : l.isAlphanum = true ∧ l.toUpper.isAlphanum = true)
    (h : folds l c = true) : isTokenChar c = true := by
  simp only [folds, Bool.or_eq_true, Bool.and_eq_true, decide_eq_true_eq] at h
  rcases h with (((rfl | rfl) | ⟨-, hi | hi⟩) | ⟨-, hs⟩) | ⟨-, hk⟩
  · simp [isTokenChar, hl.1]
  · simp [isTokenChar, hl.2]
  · simp [isTokenChar, hi]
  · simp [isTokenChar, hi]
  · simp [isTokenChar, hs]
  · simp [isTokenChar, hk]

theorem letters_token {word name : List Char}
    (hword : word.all (fun l => l.isAlphanum && l.toUpper.isAlphanum) = true)
    (h : List.Forall₂ (fun k c => k c = true) (letters word) name) :
    ∀ c ∈ name, isTokenChar c = true := by
  rw [List.all_eq_true] at hword
  induction word generalizing name with
  | nil =>
    cases h
    exact fun _ hc => nomatch hc
  | cons l word ih =>
    cases h with
    | cons hc hrest =>
      have hfirst := (Bool.and_eq_true _ _).mp (hword l List.mem_cons_self)
      refine List.forall_mem_cons.mpr ⟨folds_token hfirst hc, ?_⟩
      exact ih (fun l hl => hword l (List.mem_cons_of_mem _ hl)) hrest

/-- The parts of what stands before a token. -/
theorem bearer_lead (h : bearer.lead u prev kept v) : ∃ name sep, kept = name ++ sep ∧
    name ≠ [] ∧ (∀ c ∈ name, isTokenChar c = true) ∧ sep ≠ [] ∧ (∀ c ∈ sep, isSpace c = true) ∧
      isTokenChar v = true := by
  obtain ⟨-, hv, label, hlabel, name, sep, rfl, hname, hsep⟩ := h
  obtain rfl := List.mem_singleton.mp hlabel
  refine ⟨name, sep, rfl, fun hnil => ?_, letters_token (by decide) hname, hsep.1, hsep.2, hv⟩
  rw [hnil] at hname
  cases hname

theorem bearer_seals (u : Unicode) : Seals (bearer.pattern u) redacted '[' ']' where
  head := rfl
  getLast := rfl
  opens := by
    intro prev kept v h hmem
    obtain ⟨name, sep, rfl, -, hname, -, hsep, hv⟩ := bearer_lead h
    rw [List.mem_append, List.mem_append, List.mem_singleton] at hmem
    rcases hmem with (hin | hin) | rfl
    · exact absurd (hname _ hin) (by decide)
    · exact absurd (hsep _ hin) (by decide)
    · exact absurd hv (by decide)
  closes := by
    intro prev kept v h hmem
    obtain ⟨name, sep, rfl, -, hname, -, hsep, -⟩ := bearer_lead h
    rcases List.mem_append.mp hmem with hin | hin
    · exact absurd (hname _ hin) (by decide)
    · exact absurd (hsep _ hin) (by decide)
  leaves := by
    intro prev kept v h
    obtain ⟨name, sep, rfl, -, -, hne, hsep, -⟩ := bearer_lead h
    obtain ⟨c, hc⟩ := List.exists_mem_of_ne_nil sep hne
    refine ⟨c, List.mem_append_right name hc, fun hmem => ?_⟩
    have hplain : redacted.all (fun c => !isSpace c) = true := by decide
    have hnot := List.all_eq_true.mp hplain c hmem
    rw [hsep c hc] at hnot
    cases hnot

/-- Whether a token can be read on is all that the character before a text decides. -/
theorem bearer_follows {prev' : Option Char} (h : ∀ c rest', rest = c :: rest' →
    isTokenChar c = true → prev.any u.isWord = prev'.any u.isWord) :
    Follows (bearer.pattern u) prev prev' rest := by
  intro kept v hpre hlead
  obtain ⟨name, sep, rfl, hne, hname, -, -, -⟩ := bearer_lead hlead
  obtain ⟨d, ds, rfl⟩ := List.exists_cons_of_ne_nil hne
  obtain ⟨tail, htail⟩ := hpre
  refine ⟨?_, hlead.2⟩
  have hb := hlead.1
  unfold boundary at hb ⊢
  rwa [h d _ htail.symm (hname d List.mem_cons_self)]

theorem head_takeWhile {k : Char → Bool} {value : List Char} {c : Char}
    (h : value = (value ++ c :: rest).takeWhile k) : k c = false := by
  have hall : ∀ d ∈ value, k d = true := by
    intro d hd
    rw [h] at hd
    exact List.mem_takeWhile_imp hd
  cases hk : k c with
  | false => rfl
  | true =>
    rw [List.takeWhile_append_of_pos hall, List.takeWhile_cons_of_pos hk] at h
    exact absurd (List.self_eq_append_right.mp h) (List.cons_ne_nil _ _)

/-- A token that more token characters follow ends with `=`. -/
theorem bearerValue_last {value : List Char} {c : Char}
    (h : value = bearerValue (value ++ c :: rest)) (hne : value ≠ []) (hc : isTokenChar c = true) :
    ∃ init, value = init ++ ['='] := by
  generalize hwhole : value ++ c :: rest = whole at h
  unfold bearerValue at h
  by_cases hnil : whole.takeWhile isTokenChar = []
  · rw [if_pos hnil] at h
    exact absurd h hne
  · rw [if_neg hnil] at h
    rcases List.eq_nil_or_concat ((whole.dropWhile isTokenChar).takeWhile (· = '=')) with
      heq | ⟨init, d, heq⟩
    · rw [heq, List.append_nil] at h
      rw [← hwhole] at h
      rw [head_takeWhile h] at hc
      cases hc
    · have hd : d = '=' := by
        have hmem : d ∈ (whole.dropWhile isTokenChar).takeWhile (· = '=') := by
          rw [heq, List.concat_eq_append]
          exact List.mem_append_right init (List.mem_singleton.mpr rfl)
        exact of_decide_eq_true (List.mem_takeWhile_imp (p := fun x => decide (x = '=')) hmem)
      refine ⟨whole.takeWhile isTokenChar ++ init, ?_⟩
      rw [h, heq, hd, List.concat_eq_append, List.append_assoc]

theorem token_plain {c : Char} (h : isTokenChar c = true) : isPlain c = true := by
  have hspace := token_not_space h
  have hmem : c ∉ [',', ';', ']', '}'] := by
    intro hmem
    have hnone : [',', ';', ']', '}'].all (fun d => !isTokenChar d) = true := by decide
    have hnot := List.all_eq_true.mp hnone c hmem
    rw [h] at hnot
    cases hnot
  rw [isPlain, hspace, decide_eq_true hmem]
  rfl

theorem credentialValue_last {value : List Char} {c : Char}
    (h : value = credentialValue (value ++ c :: rest)) (hc : isTokenChar c = true) :
    ∃ init mark, value = init ++ [mark] ∧ (mark = '"' ∨ mark = '\'') := by
  rcases credentialValue_cases (value ++ c :: rest) with ⟨mark, hmark, hquoted⟩ | hplain
  · rw [← h] at hquoted
    obtain ⟨-, -, inner, hvalue⟩ := quoted_some hquoted
    exact ⟨mark :: inner, mark, hvalue, hmark⟩
  · rw [← h] at hplain
    have hnot := head_takeWhile hplain
    rw [token_plain hc] at hnot
    cases hnot

/-- No lead lies inside what is kept of a match: after its label there are only blanks. -/
theorem bearer_noLead {hit : Hit Char} (h : bearer.lead u prev hit.kept v) :
    NoLead (bearer.pattern u) prev hit.kept := by
  intro xs ys kept w hsplit hpre hlead
  obtain ⟨name, sep, hkept, -, hname, -, hsep, -⟩ := bearer_lead h
  obtain ⟨name', sep', rfl, -, -, hne', hsep', hw⟩ := bearer_lead hlead
  obtain ⟨zs, rfl⟩ := hpre
  -- the blanks of the inner lead are none of the label, so its token would be a blank
  have hall : xs ++ (name' ++ sep') ++ w :: zs = name ++ sep := by
    rw [← hkept, hsplit]
    simp
  rcases List.append_eq_append_iff.mp hall with ⟨after, hin, -⟩ | ⟨after, -, hin⟩
  · obtain ⟨c, hc⟩ := List.exists_mem_of_ne_nil sep' hne'
    have htoken := hname c (by rw [hin]; simp [hc])
    have hspace := hsep' c hc
    rw [token_not_space htoken] at hspace
    cases hspace
  · have hspace := hsep w (by rw [hin]; simp)
    rw [token_not_space hw] at hspace
    cases hspace

/-- No bearer token is left where all of them were redacted. -/
theorem clean_bearer (prev : Option Char) (text : List Char) : Clean (bearer.pattern u) prev
    (replaceFrom (bearer.pattern u) redacted prev 0 text) := by
  refine clean_replaceFrom (bearer_seals u) (I := fun _ _ => True) (fun prev c rest _ h => ⟨h, trivial⟩)
    (fun prev text hit rest _ h htext => ?_) prev text trivial
  obtain ⟨v, value, -, hvalue, -, hlead⟩ := (bearer.pattern u).found h
  have hnot : u.isWord ']' = false := u.ascii ']' (by decide)
  refine ⟨bearer_noLead hlead, bearer_follows (fun c rest' hrest hc => ?_), trivial⟩
  have hends := find_value h htext
  rw [hrest] at hends
  obtain ⟨init, hinit⟩ := bearerValue_last hends (by rw [hvalue]; exact List.cons_ne_nil _ _) hc
  have hequal : u.isWord '=' = false := u.ascii '=' (by decide)
  rw [hinit, ← List.append_assoc, lastOf_concat]
  simp [hequal, hnot]

/-- Redacting other credentials brings no bearer token forth. -/
theorem clean_bearer_credentials (prev : Option Char) (text : List Char)
    (h : Clean (bearer.pattern u) prev text) : Clean (bearer.pattern u) prev
      (replaceFrom (credentials.pattern u) redacted prev 0 text) := by
  refine clean_replaceFrom (bearer_seals u) (I := Clean (bearer.pattern u))
    (fun prev c rest hclean _ => hclean) (fun prev text hit rest hclean hhit htext => ?_) prev text h
  have hnot : u.isWord ']' = false := u.ascii ']' (by decide)
  rw [htext, List.append_assoc] at hclean
  refine ⟨fun xs ys kept v hsplit hpre => ?_, bearer_follows (fun c rest' hrest hc => ?_), ?_⟩
  · rw [hsplit, List.append_assoc] at hclean
    exact hclean.no_lead (hpre.trans (List.prefix_append ys _))
  · have hends := find_value hhit htext
    rw [hrest] at hends
    obtain ⟨init, mark, hinit, hmark⟩ := credentialValue_last hends hc
    have hquote : u.isWord mark = false := by
      rcases hmark with rfl | rfl
      · exact u.ascii '"' (by decide)
      · exact u.ascii '\'' (by decide)
    rw [hinit, ← List.append_assoc, lastOf_concat]
    simp [hquote, hnot]
  · rw [← List.append_assoc] at hclean
    exact hclean.append_right

/-- What stands before a credential starts with a letter. -/
theorem credentials_lead (h : credentials.lead u prev kept v) :
    ∃ c cs, kept = c :: cs ∧ c ≠ ']' := by
  obtain ⟨-, -, label, hlabel, name, sep, rfl, hname, -⟩ := h
  have hheads : ∀ label ∈ credentialLabels, label.head?.any (fun k => !k ']') = true := by
    decide +kernel
  have hhead := hheads label hlabel
  cases hname with
  | nil => cases hhead
  | @cons k c ks cs hc hrest =>
    refine ⟨c, cs ++ sep, rfl, ?_⟩
    rintro rfl
    simp [hc] at hhead

theorem credentials_again {text : List Char} {hit : Hit Char}
    (h : credentials.find u prev text = some hit) : credentials.lead u prev hit.kept '[' := by
  obtain ⟨v, value, rest, -, -, hlead⟩ := (credentials.pattern u).found h
  obtain ⟨c, cs, hkept, -⟩ := credentials_lead hlead
  obtain ⟨hb, -, hlabel⟩ := hlead
  refine ⟨?_, by decide, hlabel⟩
  rw [hkept] at hb ⊢
  exact hb

/-- A redacted credential is never what the redaction writes: its bracket would be cut off. -/
theorem credentials_differ {hit : Hit Char} (h : credentials.find u prev text = some hit)
    (htext : text = hit.kept ++ hit.value ++ rest) (after : Option Char) :
    redacted ++ replaceFrom (credentials.pattern u) redacted after 0 rest ≠ hit.value ++ rest := by
  intro heq
  have hends := find_value h htext
  rcases credentialValue_cases (hit.value ++ rest) with ⟨mark, hmark, hquoted⟩ | hplain
  · obtain ⟨hhead, -, -⟩ := quoted_some hquoted
    rw [← heq] at hhead
    obtain rfl : '[' = mark := Option.some.inj hhead
    rcases hmark with hmark | hmark
    · exact absurd hmark (by decide)
    · exact absurd hmark (by decide)
  · -- the value is what of the mark can be read on: all but its last bracket
    have hvalue : hit.value = redacted.dropLast := by
      refine hends.trans (hplain.trans ?_)
      rw [← heq]
      rfl
    rw [hvalue] at heq
    have hsplit : redacted = redacted.dropLast ++ [']'] := rfl
    nth_rewrite 1 [hsplit] at heq
    rw [List.append_assoc, List.singleton_append] at heq
    refine ne_cons_replaceFrom (c := ']') (fun prev kept v hlead => ?_) after rest
      (List.append_cancel_left heq).symm
    exact credentials_lead hlead

/-- The two patterns as replacements in a text. -/
def redactBearer (u : Unicode) (s : String) : String :=
  String.ofList (replace (bearer.pattern u) redacted s.toList)

def redactCredentials (u : Unicode) (s : String) : String :=
  String.ofList (replace (credentials.pattern u) redacted s.toList)

/-- `_sanitize_text`. -/
def sanitizeText (u : Unicode) (s : String) : String := redactCredentials u (redactBearer u s)

/-- Nothing in the text is labelled as a credential. -/
def Unlabelled (u : Unicode) (s : String) : Prop := redactCredentials u s = s

instance (u : Unicode) (s : String) : Decidable (Unlabelled u s) :=
  inferInstanceAs (Decidable (_ = _))

theorem unlabelled_iff {s : String} :
    Unlabelled u s ↔ Clean (credentials.pattern u) none s.toList := by
  unfold Unlabelled redactCredentials
  rw [← String.toList_inj, String.toList_ofList]
  constructor
  · exact clean_of_fixed (fun prev text hit rest h htext => credentials_differ h htext _) none _
  · exact replaceFrom_clean

theorem unlabelled_redactCredentials {s : String} (h : Unlabelled u (redactCredentials u s)) :
    Unlabelled u s := by
  rw [unlabelled_iff] at h ⊢
  rw [redactCredentials, String.toList_ofList] at h
  exact clean_of_replaceFrom rfl (fun prev text hit => credentials_again) none _ h

theorem redactBearer_sanitizeText (s : String) : redactBearer u (sanitizeText u s) =
    sanitizeText u s := by
  have hclean := clean_bearer_credentials none _ (clean_bearer (u := u) none s.toList)
  rw [← String.toList_inj, redactBearer, String.toList_ofList, sanitizeText, redactCredentials,
    String.toList_ofList, redactBearer, String.toList_ofList]
  exact replaceFrom_clean hclean

/-- A text is redacted once for all exactly if no credential but bearer tokens is found in it. -/
theorem sanitizeText_idempotent_iff {s : String} :
    sanitizeText u (sanitizeText u s) = sanitizeText u s ↔ Unlabelled u (redactBearer u s) := by
  rw [sanitizeText, redactBearer_sanitizeText]
  constructor
  · exact fun h => unlabelled_redactCredentials h
  · intro h
    have hfixed : sanitizeText u s = redactBearer u s := h
    rw [hfixed]
    exact h

end Redaction

end ProjectControl.Export
