import Mathlib.Algebra.Order.BigOperators.Group.List
import Mathlib.Algebra.Ring.Nat
import Mathlib.Data.String.Basic
import Mathlib.Data.Nat.Notation
import Mathlib.Tactic.Cases
import Mathlib.Tactic.IntervalCases
import ProjectControl.Json

/-! The text of a JSON value: how it is written, compact or spaced, with all characters or with
ASCII only, and how it is read back. What is written is read back as it was. -/

set_option autoImplicit false

namespace JsonText

/-- `ascii` writes other characters as escapes, `spaced` puts a blank after separators. -/
structure Style where
  ascii : Bool
  spaced : Bool
  deriving DecidableEq

section Write

def hex (n : ℕ) : List Char :=
  [(n / 4096).digitChar, (n / 256 % 16).digitChar, (n / 16 % 16).digitChar, (n % 16).digitChar]

def codeUnit (n : ℕ) : List Char := '\\' :: 'u' :: hex n

/-- The code units of a character, two of them beyond the first plane. -/
def unicode (n : ℕ) : List Char :=
  if n < 0x10000 then codeUnit n
  else codeUnit (0xd800 + (n - 0x10000) / 1024) ++ codeUnit (0xdc00 + (n - 0x10000) % 1024)

def escape (ascii : Bool) (c : Char) : List Char :=
  if c = '"' then ['\\', '"']
  else if c = '\\' then ['\\', '\\']
  else if c = '\n' then ['\\', 'n']
  else if c = '\r' then ['\\', 'r']
  else if c = '\t' then ['\\', 't']
  else if c = '\x0c' then ['\\', 'f']
  else if c = '\x08' then ['\\', 'b']
  else if c.toNat < 32 ∨ ascii = true ∧ 126 < c.toNat then unicode c.toNat
  else [c]

def quote (style : Style) (s : String) : List Char :=
  '"' :: s.toList.flatMap (escape style.ascii) ++ ['"']

def number : ℤ → List Char
  | .ofNat n => Nat.toDigits 10 n
  | .negSucc n => '-' :: Nat.toDigits 10 (n + 1)

def Style.comma (style : Style) : List Char := if style.spaced then [',', ' '] else [',']

def Style.colon (style : Style) : List Char := if style.spaced then [':', ' '] else [':']

mutual

def render (style : Style) : Json → List Char
  | .null => ['n', 'u', 'l', 'l']
  | .bool true => ['t', 'r', 'u', 'e']
  | .bool false => ['f', 'a', 'l', 's', 'e']
  | .num n => number n
  | .str s => quote style s
  | .arr [] => ['[', ']']
  | .arr (v :: items) => '[' :: (render style v ++ renderItems style items)
  | .obj [] => ['{', '}']
  | .obj ((key, v) :: fields) =>
    '{' :: (quote style key ++ style.colon ++ render style v ++ renderFields style fields)

/-- The items after the first one. -/
def renderItems (style : Style) : List Json → List Char
  | [] => [']']
  | v :: items => style.comma ++ render style v ++ renderItems style items

def renderFields (style : Style) : List (String × Json) → List Char
  | [] => ['}']
  | (key, v) :: fields =>
    style.comma ++ quote style key ++ style.colon ++ render style v ++ renderFields style fields

end

end Write

section Read

def blank (c : Char) : Bool := c = ' ' || c = '\t' || c = '\n' || c = '\r'

/-- Blanks between the parts of a document. -/
def skip (text : List Char) : List Char := text.dropWhile blank

def hexValue (c : Char) : Option ℕ :=
  if '0' ≤ c ∧ c ≤ '9' then some (c.toNat - 48)
  else if 'a' ≤ c ∧ c ≤ 'f' then some (c.toNat - 87)
  else if 'A' ≤ c ∧ c ≤ 'F' then some (c.toNat - 55)
  else none

def readHex : List Char → Option (ℕ × List Char)
  | a :: b :: c :: d :: rest =>
    match hexValue a, hexValue b, hexValue c, hexValue d with
    | some w, some x, some y, some z => some (((w * 16 + x) * 16 + y) * 16 + z, rest)
    | _, _, _, _ => none
  | _ => none

/-- The second half of a pair of code units. -/
def readLow (high : ℕ) : List Char → Option (Option Char × List Char)
  | '\\' :: 'u' :: rest =>
    match readHex rest with
    | some (low, rest) =>
      if 0xdc00 ≤ low ∧ low ≤ 0xdfff then
        some (some (Char.ofNat (0x10000 + (high - 0xd800) * 1024 + (low - 0xdc00))), rest)
      else none
    | none => none
  | _ => none

/-- A code unit that is half of a pair stands for no character of its own. -/
def readUnicode (text : List Char) : Option (Option Char × List Char) :=
  match readHex text with
  | some (n, rest) =>
    if 0xd800 ≤ n ∧ n ≤ 0xdbff then readLow n rest
    else if 0xdc00 ≤ n ∧ n ≤ 0xdfff then none
    else some (some (Char.ofNat n), rest)
  | none => none

def unescape (c : Char) : Option Char :=
  if c = '"' then some '"'
  else if c = '\\' then some '\\'
  else if c = '/' then some '/'
  else if c = 'n' then some '\n'
  else if c = 'r' then some '\r'
  else if c = 't' then some '\t'
  else if c = 'f' then some '\x0c'
  else if c = 'b' then some '\x08'
  else none

def readEscape : List Char → Option (Option Char × List Char)
  | [] => none
  | c :: rest => if c = 'u' then readUnicode rest else (unescape c).map (fun d => (some d, rest))

/-- One character of a quoted text, none at its end. -/
def next : List Char → Option (Option Char × List Char)
  | [] => none
  | c :: rest =>
    if c = '"' then some (none, rest)
    else if c = '\\' then readEscape rest
    else if c.toNat < 32 then none
    else some (some c, rest)

def readChars : ℕ → List Char → Option (List Char × List Char)
  | 0, _ => none
  | n + 1, text =>
    match next text with
    | none => none
    | some (none, rest) => some ([], rest)
    | some (some c, rest) => (readChars n rest).map (fun e => (c :: e.1, e.2))

def readQuoted (text : List Char) : Option (String × List Char) :=
  (readChars text.length text).map (fun e => (String.ofList e.1, e.2))

/-- A natural number without leading zeros. -/
def readNat (text : List Char) : Option (ℕ × List Char) :=
  let digits := text.takeWhile Char.isDigit
  if digits = [] then none
  else if digits.head? = some '0' then some (0, text.drop 1)
  else some (Nat.ofDigitChars 10 digits 0, text.drop digits.length)

/-- What follows makes the number a floating point number, or no number at all. -/
def fractional (text : List Char) : Bool :=
  text.head? = some '.' || text.head? = some 'e' || text.head? = some 'E'

def readNumber (text : List Char) : Option (Json × List Char) :=
  let negative := text.head? = some '-'
  match readNat (if negative then text.drop 1 else text) with
  | some (n, rest) =>
    if fractional rest then none else some (.num (if negative then -(n : ℤ) else n), rest)
  | none => none

def readWord (word : List Char) (v : Json) (text : List Char) : Option (Json × List Char) :=
  if word.isPrefixOf text then some (v, text.drop word.length) else none

/-- The value of a key that is given again replaces the first one. -/
def insertField (key : String) (v : Json) : List (String × Json) → List (String × Json)
  | [] => [(key, v)]
  | (k, x) :: fields =>
    if key < k then (key, v) :: (k, x) :: fields
    else if key = k then (key, v) :: fields
    else (k, x) :: insertField key v fields

def object (fields : List (String × Json)) : Json :=
  .obj (fields.foldl (fun d e => insertField e.1 e.2 d) [])

mutual

def readValue : ℕ → List Char → Option (Json × List Char)
  | 0, _ => none
  | _ + 1, [] => none
  | n + 1, c :: rest =>
    if c = '"' then (readQuoted rest).map (fun e => (.str e.1, e.2))
    else if c = '[' then
      if (skip rest).head? = some ']' then some (.arr [], (skip rest).drop 1)
      else
        match readValue n (skip rest) with
        | some (v, rest) => (readItems n (skip rest)).map (fun e => (.arr (v :: e.1), e.2))
        | none => none
    else if c = '{' then
      if (skip rest).head? = some '}' then some (.obj [], (skip rest).drop 1)
      else
        match readField n (skip rest) with
        | some (e, rest) => (readFields n (skip rest)).map (fun es => (object (e :: es.1), es.2))
        | none => none
    else if c = 'n' then readWord ['u', 'l', 'l'] .null rest
    else if c = 't' then readWord ['r', 'u', 'e'] (.bool true) rest
    else if c = 'f' then readWord ['a', 'l', 's', 'e'] (.bool false) rest
    else readNumber (c :: rest)

def readItems : ℕ → List Char → Option (List Json × List Char)
  | 0, _ => none
  | _ + 1, [] => none
  | n + 1, c :: rest =>
    if c = ']' then some ([], rest)
    else if c = ',' then
      match readValue n (skip rest) with
      | some (v, rest) => (readItems n (skip rest)).map (fun e => (v :: e.1, e.2))
      | none => none
    else none

def readField : ℕ → List Char → Option ((String × Json) × List Char)
  | 0, _ => none
  | _ + 1, [] => none
  | n + 1, c :: rest =>
    if c = '"' then
      match readQuoted rest with
      | some (key, rest) =>
        if (skip rest).head? = some ':' then
          (readValue n (skip ((skip rest).drop 1))).map (fun e => ((key, e.1), e.2))
        else none
      | none => none
    else none

def readFields : ℕ → List Char → Option (List (String × Json) × List Char)
  | 0, _ => none
  | _ + 1, [] => none
  | n + 1, c :: rest =>
    if c = '}' then some ([], rest)
    else if c = ',' then
      match readField n (skip rest) with
      | some (e, rest) => (readFields n (skip rest)).map (fun es => (e :: es.1, es.2))
      | none => none
    else none

end

/-- A whole document, without anything after its value. -/
def read (text : List Char) : Option Json :=
  match readValue text.length (skip text) with
  | some (v, rest) => if skip rest = [] then some v else none
  | none => none

end Read

section Characters

variable {ascii : Bool} {n : ℕ} {rest : List Char}

theorem hexValue_digitChar : ∀ n < 16, hexValue n.digitChar = some n := by decide

theorem readHex_hex (hn : n < 65536) : readHex (hex n ++ rest) = some (n, rest) := by
  have h₀ := hexValue_digitChar (n / 4096) (by omega)
  have h₁ := hexValue_digitChar (n / 256 % 16) (by omega)
  have h₂ := hexValue_digitChar (n / 16 % 16) (by omega)
  have h₃ := hexValue_digitChar (n % 16) (by omega)
  have hsum : ((n / 4096 * 16 + n / 256 % 16) * 16 + n / 16 % 16) * 16 + n % 16 = n := by omega
  simp only [hex, List.cons_append, List.nil_append, readHex, h₀, h₁, h₂, h₃, hsum]

theorem next_codeUnit {rest' : List Char} (h : rest = codeUnit n ++ rest') (hn : n < 65536) :
    next rest = if 0xd800 ≤ n ∧ n ≤ 0xdbff then readLow n rest'
      else if 0xdc00 ≤ n ∧ n ≤ 0xdfff then none else some (some (Char.ofNat n), rest') := by
  subst h
  simp [codeUnit, next, readEscape, readUnicode, readHex_hex hn]

theorem readLow_codeUnit {high low : ℕ} (hlow : 0xdc00 ≤ low ∧ low ≤ 0xdfff) :
    readLow high (codeUnit low ++ rest) =
      some (some (Char.ofNat (0x10000 + (high - 0xd800) * 1024 + (low - 0xdc00))), rest) := by
  have hread : readHex (hex low ++ rest) = some (low, rest) := readHex_hex (by omega)
  simp [codeUnit, readLow, hread, hlow]

theorem next_unicode (c : Char) : next (unicode c.toNat ++ rest) = some (some c, rest) := by
  have hvalid : c.toNat < 0xd800 ∨ 0xdfff < c.toNat ∧ c.toNat < 0x110000 := c.valid
  unfold unicode
  split
  · next hn =>
    rw [next_codeUnit rfl hn, if_neg (by omega), if_neg (by omega), Char.ofNat_toNat]
  · -- beyond the first plane the two halves give the character back
    next hn =>
    have hsum : 0x10000 + (0xd800 + (c.toNat - 0x10000) / 1024 - 0xd800) * 1024 +
        (0xdc00 + (c.toNat - 0x10000) % 1024 - 0xdc00) = c.toNat := by omega
    rw [List.append_assoc, next_codeUnit rfl (by omega), if_pos (by omega),
      readLow_codeUnit (by omega), hsum, Char.ofNat_toNat]

/-- A character is read as it was written. -/
theorem next_escape (c : Char) : next (escape ascii c ++ rest) = some (some c, rest) := by
  unfold escape
  by_cases hquote : c = '"'
  · subst hquote; rfl
  by_cases hslash : c = '\\'
  · subst hslash; rfl
  by_cases hnewline : c = '\n'
  · subst hnewline; rfl
  by_cases hreturn : c = '\r'
  · subst hreturn; rfl
  by_cases htab : c = '\t'
  · subst htab; rfl
  by_cases hfeed : c = '\x0c'
  · subst hfeed; rfl
  by_cases hback : c = '\x08'
  · subst hback; rfl
  rw [if_neg hquote, if_neg hslash, if_neg hnewline, if_neg hreturn, if_neg htab, if_neg hfeed,
    if_neg hback]
  split
  · exact next_unicode c
  · next hplain =>
    have hprintable : ¬ c.toNat < 32 := fun hlow => hplain (Or.inl hlow)
    simp [next, hquote, hslash, hprintable]

theorem escape_ne_nil (c : Char) : escape ascii c ≠ [] := by
  intro h
  have hnext : next (escape ascii c ++ []) = some (some c, []) := next_escape c
  rw [h] at hnext
  cases hnext

theorem readChars_escape (s : List Char) (hn : s.length < n) :
    readChars n (s.flatMap (escape ascii) ++ '"' :: rest) = some (s, rest) := by
  induction s generalizing n with
  | nil =>
    obtain ⟨k, rfl⟩ := Nat.exists_eq_succ_of_ne_zero (Nat.ne_of_gt hn)
    rfl
  | cons c s ih =>
    obtain ⟨k, rfl⟩ := Nat.exists_eq_succ_of_ne_zero (Nat.ne_of_gt (Nat.zero_lt_of_lt hn))
    have hs : s.length < k := Nat.lt_of_succ_lt_succ hn
    rw [List.flatMap_cons, List.append_assoc, readChars, next_escape]
    simp only [ih hs, Option.map_some]

theorem length_le_flatMap_escape (s : List Char) :
    s.length ≤ (s.flatMap (escape ascii)).length := by
  induction s with
  | nil => exact Nat.le_refl 0
  | cons c s ih =>
    have hc : 0 < (escape ascii c).length := List.length_pos_of_ne_nil (escape_ne_nil c)
    rw [List.flatMap_cons, List.length_append, List.length_cons]
    omega

theorem readQuoted_quote (style : Style) (s : String) :
    readQuoted (s.toList.flatMap (escape style.ascii) ++ '"' :: rest) = some (s, rest) := by
  have hlength : s.toList.length ≤ (s.toList.flatMap (escape style.ascii)).length :=
    length_le_flatMap_escape s.toList
  have hread : readChars (s.toList.flatMap (escape style.ascii) ++ '"' :: rest).length
      (s.toList.flatMap (escape style.ascii) ++ '"' :: rest) = some (s.toList, rest) := by
    refine readChars_escape s.toList ?_
    rw [List.length_append, List.length_cons]
    omega
  rw [readQuoted, hread, Option.map_some, String.ofList_toList]

end Characters

section Numbers

variable {n : ℕ} {rest : List Char}

/-- What may follow a number: no digit, and nothing that makes it a fraction. -/
def Ends (rest : List Char) : Prop :=
  fractional rest = false ∧ ∀ c, rest.head? = some c → c.isDigit = false

theorem digits_head (hn : 0 < n) : (Nat.toDigits 10 n).head? ≠ some '0' := by
  induction n using Nat.strongRecOn with
  | ind n ih =>
    by_cases hlow : n < 10
    · rw [Nat.toDigits_of_lt_base hlow]
      interval_cases n <;> decide
    · have hstep := Nat.toDigits_of_base_le (b := 10) (by omega) (Nat.le_of_not_lt hlow)
      have hne : Nat.toDigits 10 (n / 10) ≠ [] := Nat.toDigits_ne_nil
      rw [hstep, List.head?_append_of_ne_nil _ hne]
      exact ih (n / 10) (by omega) (by omega)

theorem takeWhile_digits {digits : List Char} (hdigits : ∀ c ∈ digits, c.isDigit = true)
    (hrest : Ends rest) : (digits ++ rest).takeWhile Char.isDigit = digits := by
  rw [List.takeWhile_append_of_pos hdigits]
  cases rest with
  | nil => simp
  | cons c rest =>
    have hc := hrest.2 c rfl
    simp [hc]

theorem readNat_digits (hrest : Ends rest) :
    readNat (Nat.toDigits 10 n ++ rest) = some (n, rest) := by
  have hdigits : ∀ c ∈ Nat.toDigits 10 n, c.isDigit = true :=
    fun c hc => Nat.isDigit_of_mem_toDigits (by omega) (by omega) hc
  have hne : Nat.toDigits 10 n ≠ [] := Nat.toDigits_ne_nil
  unfold readNat
  simp only [takeWhile_digits hdigits hrest, if_neg hne, Nat.ofDigitChars_ten_toDigits]
  by_cases hn : n = 0
  · subst hn
    rfl
  · rw [if_neg (digits_head (Nat.pos_of_ne_zero hn)), List.drop_left]

theorem readNumber_natural {c : Char} {digits : List Char} (hdigits : Nat.toDigits 10 n = c :: digits)
    (hrest : Ends rest) : readNumber (c :: digits ++ rest) = some (.num n, rest) := by
  have hc : c.isDigit = true :=
    Nat.isDigit_of_mem_toDigits (by omega) (by omega) (hdigits ▸ List.mem_cons_self)
  have hsign : c ≠ '-' := by
    rintro rfl
    cases hc
  have hread : readNat (c :: digits ++ rest) = some (n, rest) := hdigits ▸ readNat_digits hrest
  unfold readNumber
  simp only [List.cons_append, List.head?_cons, Option.some.injEq, hsign, if_false]
  rw [List.cons_append] at hread
  simp only [hread, hrest.1, Bool.false_eq_true, if_false]

theorem readNumber_number (i : ℤ) (hrest : Ends rest) :
    readNumber (number i ++ rest) = some (.num i, rest) := by
  cases i with
  | ofNat n =>
    cases hdigits : Nat.toDigits 10 n with
    | nil => exact absurd hdigits Nat.toDigits_ne_nil
    | cons c digits =>
      rw [number, hdigits]
      exact readNumber_natural hdigits hrest
  | negSucc n =>
    have hread : readNat (Nat.toDigits 10 (n + 1) ++ rest) = some (n + 1, rest) :=
      readNat_digits hrest
    have hsign : -((n + 1 : ℕ) : ℤ) = Int.negSucc n := rfl
    unfold readNumber number
    simp only [List.cons_append, List.head?_cons, if_true, List.drop_succ_cons, List.drop_zero,
      hread, hrest.1, Bool.false_eq_true, if_false, hsign]

theorem number_cons (i : ℤ) :
    ∃ c text, number i = c :: text ∧ ∀ d : Char, d.isDigit = false → d ≠ '-' → c ≠ d := by
  cases i with
  | ofNat n =>
    cases hdigits : Nat.toDigits 10 n with
    | nil => exact absurd hdigits Nat.toDigits_ne_nil
    | cons c digits =>
      have hc : c.isDigit = true :=
        Nat.isDigit_of_mem_toDigits (by omega) (by omega) (hdigits ▸ List.mem_cons_self)
      refine ⟨c, digits, hdigits, fun d hd _ heq => ?_⟩
      rw [← heq, hc] at hd
      cases hd
  | negSucc n => exact ⟨'-', _, rfl, fun d _ hd => Ne.symm hd⟩

end Numbers

section Objects

variable {key : String} {v : Json} {d fields : List (String × Json)}

theorem insertField_last (h : ∀ e ∈ d, e.1 < key) : insertField key v d = d ++ [(key, v)] := by
  induction d with
  | nil => rfl
  | cons e d ih =>
    have he := h e List.mem_cons_self
    have hd := ih (fun e' he' => h e' (List.mem_cons_of_mem _ he'))
    rw [insertField, if_neg (not_lt_of_gt he), if_neg (ne_of_gt he), hd, List.cons_append]

theorem foldl_insertField (hd : ∀ e ∈ d, ∀ e' ∈ fields, e.1 < e'.1)
    (h : fields.Pairwise (fun a b => a.1 < b.1)) :
    fields.foldl (fun d e => insertField e.1 e.2 d) d = d ++ fields := by
  induction fields generalizing d with
  | nil => exact (List.append_nil d).symm
  | cons e fields ih =>
    have hlast := fun e' he' => hd e' he' e List.mem_cons_self
    obtain ⟨hfirst, hrest⟩ := List.pairwise_cons.mp h
    have hnext : ∀ e' ∈ d ++ [e], ∀ e'' ∈ fields, e'.1 < e''.1 := by
      intro e' he' e'' he''
      rcases List.mem_append.mp he' with hmem | hmem
      · exact hd e' hmem e'' (List.mem_cons_of_mem _ he'')
      · obtain rfl := List.mem_singleton.mp hmem
        exact hfirst e'' he''
    rw [List.foldl_cons, insertField_last hlast, ih hnext hrest, List.append_assoc,
      List.singleton_append]

theorem object_sorted (h : fields.Pairwise (fun a b => a.1 < b.1)) :
    object fields = .obj fields := by
  have hfold := foldl_insertField (d := []) (fun e he => absurd he List.not_mem_nil) h
  rw [object, hfold, List.nil_append]

end Objects

section Values

mutual

/-- The fields of every object stand in the order of their keys. -/
def Canonical : Json → Prop
  | .arr items => CanonicalItems items
  | .obj fields => fields.Pairwise (fun a b => a.1 < b.1) ∧ CanonicalFields fields
  | _ => True

def CanonicalItems : List Json → Prop
  | [] => True
  | v :: items => Canonical v ∧ CanonicalItems items

def CanonicalFields : List (String × Json) → Prop
  | [] => True
  | (_, v) :: fields => Canonical v ∧ CanonicalFields fields

end

variable {style : Style} {rest : List Char} {n : ℕ}

theorem skip_cons {c : Char} (hc : blank c = false) : skip (c :: rest) = c :: rest := by
  rw [skip, List.dropWhile_cons_of_neg (by simp [hc])]

theorem skip_blank : skip (' ' :: rest) = skip rest := rfl

/-- A value starts with a character that is no blank and ends no array or object. -/
theorem render_cons (style : Style) (v : Json) : ∃ c text, render style v = c :: text ∧
    blank c = false ∧ c ≠ ']' ∧ c ≠ '}' := by
  cases v with
  | null => exact ⟨'n', _, rfl, rfl, by decide, by decide⟩
  | bool b =>
    cases b with
    | false => exact ⟨'f', _, rfl, rfl, by decide, by decide⟩
    | true => exact ⟨'t', _, rfl, rfl, by decide, by decide⟩
  | num i =>
    obtain ⟨c, text, htext, hc⟩ := number_cons i
    refine ⟨c, text, by rw [render, htext], ?_, hc ']' rfl (by decide), hc '}' rfl (by decide)⟩
    have hblanks : c ≠ ' ' ∧ c ≠ '\t' ∧ c ≠ '\n' ∧ c ≠ '\r' :=
      ⟨hc ' ' rfl (by decide), hc '\t' rfl (by decide), hc '\n' rfl (by decide),
        hc '\r' rfl (by decide)⟩
    simp [blank, hblanks]
  | str s => exact ⟨'"', _, rfl, rfl, by decide, by decide⟩
  | arr items =>
    cases items with
    | nil => exact ⟨'[', _, rfl, rfl, by decide, by decide⟩
    | cons v items => exact ⟨'[', _, rfl, rfl, by decide, by decide⟩
  | obj fields =>
    cases fields with
    | nil => exact ⟨'{', _, rfl, rfl, by decide, by decide⟩
    | cons e fields => exact ⟨'{', _, rfl, rfl, by decide, by decide⟩

theorem skip_render (v : Json) : skip (render style v ++ rest) = render style v ++ rest := by
  obtain ⟨c, text, htext, hblank, -, -⟩ := render_cons style v
  rw [htext, List.cons_append, skip_cons hblank]

theorem ends_cons {c : Char} (hc : c = ',' ∨ c = ']' ∨ c = '}') : Ends (c :: rest) := by
  refine ⟨?_, fun d hd => ?_⟩
  · rcases hc with rfl | rfl | rfl
    · rfl
    · rfl
    · rfl
  · obtain rfl := Option.some.inj hd
    rcases hc with rfl | rfl | rfl
    · rfl
    · rfl
    · rfl

theorem comma_append (style : Style) (text : List Char) :
    ∃ after, style.comma ++ text = ',' :: after ∧ skip after = skip text := by
  unfold Style.comma
  split
  · exact ⟨' ' :: text, rfl, rfl⟩
  · exact ⟨text, rfl, rfl⟩

theorem colon_append (style : Style) (text : List Char) :
    ∃ after, style.colon ++ text = ':' :: after ∧ skip after = skip text := by
  unfold Style.colon
  split
  · exact ⟨' ' :: text, rfl, rfl⟩
  · exact ⟨text, rfl, rfl⟩

theorem length_comma (style : Style) : 0 < style.comma.length := by
  unfold Style.comma
  split
  · exact Nat.succ_pos 1
  · exact Nat.succ_pos 0

theorem ends_items (items : List Json) : Ends (renderItems style items ++ rest) := by
  cases items with
  | nil => exact ends_cons (Or.inr (Or.inl rfl))
  | cons v items =>
    obtain ⟨after, hafter, -⟩ :=
      comma_append style (render style v ++ (renderItems style items ++ rest))
    rw [renderItems, List.append_assoc, List.append_assoc, hafter]
    exact ends_cons (Or.inl rfl)

theorem ends_fields (fields : List (String × Json)) : Ends (renderFields style fields ++ rest) := by
  cases fields with
  | nil => exact ends_cons (Or.inr (Or.inr rfl))
  | cons e fields =>
    obtain ⟨key, v⟩ := e
    obtain ⟨after, hafter, -⟩ := comma_append style
      (quote style key ++ (style.colon ++ (render style v ++ (renderFields style fields ++ rest))))
    rw [renderFields]
    simp only [List.append_assoc]
    rw [hafter]
    exact ends_cons (Or.inl rfl)

/-- A field is read as it was written if its value is. -/
theorem readField_field (key : String) {v : Json}
    (hread : readValue n (render style v ++ rest) = some (v, rest)) :
    readField (n + 1) (quote style key ++ style.colon ++ render style v ++ rest) =
      some ((key, v), rest) := by
  obtain ⟨after, hafter, hskip⟩ := colon_append style (render style v ++ rest)
  have htext : quote style key ++ style.colon ++ render style v ++ rest =
      '"' :: (key.toList.flatMap (escape style.ascii) ++ '"' :: ':' :: after) := by
    rw [quote, List.append_assoc, List.append_assoc, hafter]
    simp
  have hcolon : skip (':' :: after) = ':' :: after := skip_cons rfl
  rw [htext, readField, if_pos rfl, readQuoted_quote]
  simp only [hcolon, List.head?_cons, if_true, List.drop_succ_cons, List.drop_zero, hskip,
    skip_render, hread, Option.map_some]

mutual

theorem readValue_render (v : Json) (hv : Canonical v) (n : ℕ) (rest : List Char)
    (hn : (render style v).length ≤ n) (hrest : Ends rest) :
    readValue n (render style v ++ rest) = some (v, rest) := by
  obtain ⟨c, text, htext, -, -, -⟩ := render_cons style v
  obtain ⟨k, rfl⟩ : ∃ k, n = k + 1 := by
    rw [htext, List.length_cons] at hn
    exact ⟨n - 1, by omega⟩
  cases v with
  | null => rfl
  | bool b =>
    cases b with
    | false => rfl
    | true => rfl
  | num i =>
    obtain ⟨c, text, htext, hc⟩ := number_cons i
    have hread : readNumber (c :: text ++ rest) = some (.num i, rest) :=
      htext ▸ readNumber_number i hrest
    rw [render, htext, List.cons_append, readValue, if_neg (hc '"' rfl (by decide)),
      if_neg (hc '[' rfl (by decide)), if_neg (hc '{' rfl (by decide)),
      if_neg (hc 'n' rfl (by decide)), if_neg (hc 't' rfl (by decide)),
      if_neg (hc 'f' rfl (by decide))]
    exact hread
  | str s =>
    have hquoted : readQuoted (s.toList.flatMap (escape style.ascii) ++ ['"'] ++ rest) =
        some (s, rest) := by
      rw [List.append_assoc, List.singleton_append]
      exact readQuoted_quote style s
    rw [render, quote, List.cons_append, List.cons_append, readValue, if_pos rfl, hquoted]
    rfl
  | arr items =>
    cases items with
    | nil => rfl
    | cons v items =>
      rw [render, List.length_cons, List.length_append] at hn
      have hvalue := readValue_render v hv.1 k (renderItems style items ++ rest) (by omega)
        (ends_items items)
      have hitems := readItems_render items hv.2 k rest (by omega)
      obtain ⟨c, text, htext, hblank, hclose, -⟩ := render_cons style v
      have hhead : (render style v ++ (renderItems style items ++ rest)).head? ≠ some ']' := by
        rw [htext]
        simpa using hclose
      rw [render, List.cons_append, List.append_assoc, readValue, if_neg (by decide), if_pos rfl,
        skip_render, if_neg hhead, hvalue]
      simp only [hitems, Option.map_some]
  | obj fields =>
    cases fields with
    | nil => rfl
    | cons e fields =>
      obtain ⟨key, v⟩ := e
      rw [render] at hn
      simp only [List.length_cons, List.length_append] at hn
      have hquote : 0 < (quote style key).length := Nat.succ_pos _
      obtain ⟨j, rfl⟩ : ∃ j, k = j + 1 := ⟨k - 1, by omega⟩
      have hvalue := readValue_render v hv.2.1 j (renderFields style fields ++ rest) (by omega)
        (ends_fields fields)
      have hfields := readFields_render fields hv.2.2 (j + 1) rest (by omega)
      have hfield := readField_field key hvalue
      have hobject : object ((key, v) :: fields) = .obj ((key, v) :: fields) := object_sorted hv.1
      have hskip : skip (quote style key ++ style.colon ++ render style v ++
          (renderFields style fields ++ rest)) = quote style key ++ style.colon ++
            render style v ++ (renderFields style fields ++ rest) := skip_cons rfl
      have hhead : (quote style key ++ style.colon ++ render style v ++
          (renderFields style fields ++ rest)).head? ≠ some '}' := by
        rw [quote]
        simp
      rw [render, List.cons_append, List.append_assoc, readValue, if_neg (by decide),
        if_neg (by decide), if_pos rfl, hskip, if_neg hhead, hfield]
      simp only [hfields, Option.map_some, hobject]

theorem readItems_render (items : List Json) (hitems : CanonicalItems items) (n : ℕ)
    (rest : List Char) (hn : (renderItems style items).length ≤ n) :
    readItems n (skip (renderItems style items ++ rest)) = some (items, rest) := by
  cases items with
  | nil =>
    obtain ⟨k, rfl⟩ : ∃ k, n = k + 1 := ⟨n - 1, by simp [renderItems] at hn; omega⟩
    rfl
  | cons v items =>
    obtain ⟨after, hafter, hskip⟩ :=
      comma_append style (render style v ++ (renderItems style items ++ rest))
    have hcomma := length_comma style
    rw [renderItems, List.length_append, List.length_append] at hn
    obtain ⟨k, rfl⟩ : ∃ k, n = k + 1 := ⟨n - 1, by omega⟩
    have hvalue := readValue_render v hitems.1 k (renderItems style items ++ rest) (by omega)
      (ends_items items)
    have hrest := readItems_render items hitems.2 k rest (by omega)
    rw [renderItems, List.append_assoc, List.append_assoc, hafter, skip_cons rfl, readItems,
      if_neg (by decide), if_pos rfl, hskip, skip_render, hvalue]
    simp only [hrest, Option.map_some]

theorem readFields_render (fields : List (String × Json)) (hfields : CanonicalFields fields)
    (n : ℕ) (rest : List Char) (hn : (renderFields style fields).length ≤ n) :
    readFields n (skip (renderFields style fields ++ rest)) = some (fields, rest) := by
  cases fields with
  | nil =>
    obtain ⟨k, rfl⟩ : ∃ k, n = k + 1 := ⟨n - 1, by simp [renderFields] at hn; omega⟩
    rfl
  | cons e fields =>
    obtain ⟨key, v⟩ := e
    obtain ⟨after, hafter, hskip⟩ := comma_append style
      (quote style key ++ style.colon ++ render style v ++ (renderFields style fields ++ rest))
    have hcomma := length_comma style
    have hquote : 0 < (quote style key).length := Nat.succ_pos _
    rw [renderFields] at hn
    simp only [List.length_append] at hn
    obtain ⟨j, rfl⟩ : ∃ j, n = j + 2 := ⟨n - 2, by omega⟩
    have hvalue := readValue_render v hfields.1 j (renderFields style fields ++ rest) (by omega)
      (ends_fields fields)
    have hrest := readFields_render fields hfields.2 (j + 1) rest (by omega)
    have hfield := readField_field key hvalue
    have hstart : skip (quote style key ++ style.colon ++ render style v ++
        (renderFields style fields ++ rest)) = quote style key ++ style.colon ++
          render style v ++ (renderFields style fields ++ rest) := skip_cons rfl
    have htext : renderFields style ((key, v) :: fields) ++ rest = ',' :: after := by
      rw [renderFields, ← hafter]
      simp only [List.append_assoc]
    rw [htext, skip_cons rfl, readFields, if_neg (by decide), if_pos rfl, hskip, hstart, hfield]
    simp only [hrest, Option.map_some]

end

theorem mem_insertField {key : String} {v : Json} {d : List (String × Json)}
    {e : String × Json} (he : e ∈ insertField key v d) : e = (key, v) ∨ e ∈ d := by
  induction d with
  | nil => exact Or.inl (List.mem_singleton.mp he)
  | cons first d ih =>
    unfold insertField at he
    split at he
    · exact List.mem_cons.mp he
    · split at he
      · rcases List.mem_cons.mp he with rfl | he
        · exact Or.inl rfl
        · exact Or.inr (List.mem_cons_of_mem _ he)
      · rcases List.mem_cons.mp he with rfl | he
        · exact Or.inr List.mem_cons_self
        · exact (ih he).imp_right (List.mem_cons_of_mem _)

theorem insertField_sorted {key : String} {v : Json} {d : List (String × Json)}
    (hd : d.Pairwise (fun a b => a.1 < b.1)) :
    (insertField key v d).Pairwise (fun a b => a.1 < b.1) := by
  induction d with
  | nil => exact List.pairwise_singleton _ _
  | cons first d ih =>
    obtain ⟨hfirst, hrest⟩ := List.pairwise_cons.mp hd
    unfold insertField
    split
    · next hlt =>
      refine List.pairwise_cons.mpr ⟨fun e he => ?_, hd⟩
      rcases List.mem_cons.mp he with rfl | he
      · exact hlt
      · exact lt_trans hlt (hfirst e he)
    · next hge =>
      split
      · next heq =>
        subst heq
        exact List.pairwise_cons.mpr ⟨hfirst, hrest⟩
      · next hne =>
        refine List.pairwise_cons.mpr ⟨fun e he => ?_, ih hrest⟩
        rcases mem_insertField he with rfl | he
        · exact lt_of_le_of_ne (le_of_not_gt hge) (Ne.symm hne)
        · exact hfirst e he

theorem canonicalItems_iff {items : List Json} :
    CanonicalItems items ↔ ∀ v ∈ items, Canonical v := by
  induction items with
  | nil => simp [CanonicalItems]
  | cons v items ih => simp [CanonicalItems, ih]

theorem canonicalFields_iff {fields : List (String × Json)} :
    CanonicalFields fields ↔ ∀ e ∈ fields, Canonical e.2 := by
  induction fields with
  | nil => simp [CanonicalFields]
  | cons e fields ih => simp [CanonicalFields, ih]

theorem canonical_object {fields : List (String × Json)}
    (h : ∀ e ∈ fields, Canonical e.2) : Canonical (object fields) := by
  have hfold : ∀ d : List (String × Json), d.Pairwise (fun a b => a.1 < b.1) →
      (∀ e ∈ d, Canonical e.2) →
      Canonical (.obj (fields.foldl (fun d e => insertField e.1 e.2 d) d)) := by
    induction fields with
    | nil => exact fun d hd hv => ⟨hd, canonicalFields_iff.mpr hv⟩
    | cons e fields ih =>
      intro d hd hv
      refine ih (fun e' he' => h e' (List.mem_cons_of_mem _ he')) _ (insertField_sorted hd) ?_
      intro e' he'
      rcases mem_insertField he' with rfl | he'
      · exact h e List.mem_cons_self
      · exact hv e' he'
  exact hfold [] List.Pairwise.nil (fun e he => absurd he List.not_mem_nil)

/-- What the four readers of one depth read is canonical. -/
structure ReadsCanonical (n : ℕ) : Prop where
  value : ∀ text v rest, readValue n text = some (v, rest) → Canonical v
  items : ∀ text items rest, readItems n text = some (items, rest) → ∀ v ∈ items, Canonical v
  field : ∀ text e rest, readField n text = some (e, rest) → Canonical e.2
  fields : ∀ text fields rest, readFields n text = some (fields, rest) →
    ∀ e ∈ fields, Canonical e.2

theorem readNumber_num {text rest : List Char} {v : Json} (h : readNumber text = some (v, rest)) :
    ∃ n, v = .num n := by
  unfold readNumber at h
  dsimp only at h
  split at h
  · split at h
    · cases h
    · cases h
      exact ⟨_, rfl⟩
  · cases h

theorem readWord_eq {word text rest : List Char} {v w : Json}
    (h : readWord word v text = some (w, rest)) : w = v := by
  unfold readWord at h
  split at h
  · cases h
    rfl
  · cases h

theorem canonical_readWord {word text : List Char} {v w : Json} (hv : Canonical v)
    (h : readWord word v text = some (w, rest)) : Canonical w := by
  rw [readWord_eq h]
  exact hv

theorem canonical_readNumber {text : List Char} {v : Json}
    (h : readNumber text = some (v, rest)) : Canonical v := by
  obtain ⟨n, rfl⟩ := readNumber_num h
  trivial

theorem readsCanonical (n : ℕ) : ReadsCanonical n := by
  induction n with
  | zero =>
    constructor
    · rintro (_ | _) _ _ h <;> cases h
    · rintro (_ | _) _ _ h <;> cases h
    · rintro (_ | _) _ _ h <;> cases h
    · rintro (_ | _) _ _ h <;> cases h
  | succ n ih =>
    constructor
    · intro text v rest h
      cases text with
      | nil => cases h
      | cons c text =>
        rw [readValue] at h
        split_ifs at h
        · obtain ⟨e, -, he⟩ := Option.map_eq_some_iff.mp h
          cases he
          trivial
        · cases h
          trivial
        · split at h
          · next first after hfirst =>
            obtain ⟨e, hitems, he⟩ := Option.map_eq_some_iff.mp h
            cases he
            exact ⟨ih.value _ _ _ hfirst, canonicalItems_iff.mpr (ih.items _ _ _ hitems)⟩
          · cases h
        · cases h
          exact ⟨List.Pairwise.nil, trivial⟩
        · split at h
          · next first after hfirst =>
            obtain ⟨e, hfields, he⟩ := Option.map_eq_some_iff.mp h
            cases he
            refine canonical_object (fun e' he' => ?_)
            rcases List.mem_cons.mp he' with rfl | he'
            · exact ih.field _ _ _ hfirst
            · exact ih.fields _ _ _ hfields e' he'
          · cases h
        · exact canonical_readWord (v := .null) trivial h
        · exact canonical_readWord (v := .bool true) trivial h
        · exact canonical_readWord (v := .bool false) trivial h
        · exact canonical_readNumber h
    · intro text items rest h
      cases text with
      | nil => cases h
      | cons c text =>
        rw [readItems] at h
        split_ifs at h
        · cases h
          exact fun v hv => absurd hv List.not_mem_nil
        · split at h
          · next first after hfirst =>
            obtain ⟨e, hitems, he⟩ := Option.map_eq_some_iff.mp h
            cases he
            intro v hv
            rcases List.mem_cons.mp hv with rfl | hv
            · exact ih.value _ _ _ hfirst
            · exact ih.items _ _ _ hitems v hv
          · cases h
    · intro text e rest h
      cases text with
      | nil => cases h
      | cons c text =>
        rw [readField] at h
        split_ifs at h
        split at h
        · split_ifs at h
          obtain ⟨e', hvalue, he⟩ := Option.map_eq_some_iff.mp h
          cases he
          exact ih.value _ _ _ hvalue
        · cases h
    · intro text fields rest h
      cases text with
      | nil => cases h
      | cons c text =>
        rw [readFields] at h
        split_ifs at h
        · cases h
          exact fun e he => absurd he List.not_mem_nil
        · split at h
          · next first after hfirst =>
            obtain ⟨e', hfields, he⟩ := Option.map_eq_some_iff.mp h
            cases he
            intro e he
            rcases List.mem_cons.mp he with rfl | he
            · exact ih.field _ _ _ hfirst
            · exact ih.fields _ _ _ hfields e he
          · cases h

theorem canonical_read {text : List Char} {v : Json} (h : read text = some v) : Canonical v := by
  unfold read at h
  split at h
  · next w rest hw =>
    split at h
    · cases h
      exact (readsCanonical _).value _ _ _ hw
    · cases h
  · cases h

/-- Only a text in quotation marks is read as a text. -/
theorem readValue_str {n : ℕ} {text rest : List Char} {s : String}
    (h : readValue n text = some (.str s, rest)) : text.head? = some '"' := by
  cases n with
  | zero => cases h
  | succ n =>
    cases text with
    | nil => cases h
    | cons c text =>
      by_cases hquote : c = '"'
      · rw [hquote, List.head?_cons]
      · rw [readValue, if_neg hquote] at h
        by_cases hopen : c = '['
        · rw [if_pos hopen] at h
          split at h
          · cases h
          · split at h
            · obtain ⟨e, -, he⟩ := Option.map_eq_some_iff.mp h
              cases he
            · cases h
        · rw [if_neg hopen] at h
          by_cases hbrace : c = '{'
          · rw [if_pos hbrace] at h
            split at h
            · cases h
            · split at h
              · obtain ⟨es, -, hes⟩ := Option.map_eq_some_iff.mp h
                cases hes
              · cases h
          · rw [if_neg hbrace] at h
            split at h
            · cases readWord_eq h
            · split at h
              · cases readWord_eq h
              · split at h
                · cases readWord_eq h
                · obtain ⟨i, hi⟩ := readNumber_num h
                  cases hi

theorem read_str {text : List Char} {s : String} (h : read text = some (.str s)) :
    (skip text).head? = some '"' := by
  unfold read at h
  split at h
  · next v rest hread =>
    split at h
    · cases h
      exact readValue_str hread
    · cases h
  · cases h

/-- A document is read as it was written. -/
theorem read_render (style : Style) (v : Json) (hv : Canonical v) :
    read (render style v) = some v := by
  have hends : Ends [] := ⟨rfl, fun c hc => by cases hc⟩
  have hread := readValue_render v hv (render style v).length [] (Nat.le_refl _) hends
  have hskip : skip (render style v ++ []) = render style v ++ [] := skip_render v
  rw [List.append_nil] at hread hskip
  rw [read, hskip, hread]
  rfl

theorem render_injective {v w : Json} (hv : Canonical v) (hw : Canonical w)
    (h : render style v = render style w) : v = w := by
  have hread := read_render style v hv
  rw [h, read_render style w hw] at hread
  exact (Option.some.inj hread).symm

end Values

section Sizes

/-- The bytes of a text in UTF-8. -/
def bytes (text : List Char) : ℕ := (text.map Char.utf8Size).sum

theorem bytes_append (a b : List Char) : bytes (a ++ b) = bytes a + bytes b := by
  rw [bytes, bytes, bytes, List.map_append, List.sum_append]

theorem bytes_cons (c : Char) (text : List Char) : bytes (c :: text) = c.utf8Size + bytes text := by
  rw [bytes, bytes, List.map_cons, List.sum_cons]

theorem length_le_bytes (text : List Char) : text.length ≤ bytes text := by
  induction text with
  | nil => exact Nat.le_refl 0
  | cons c text ih =>
    have hc : 0 < c.utf8Size := Char.utf8Size_pos c
    rw [bytes_cons, List.length_cons]
    omega

variable {ascii : Bool}

/-- The bytes of an item together with the separator before it. -/
def itemBytes (ascii : Bool) (v : Json) : ℕ := bytes (render ⟨ascii, false⟩ v) + 1

def fieldBytes (ascii : Bool) (e : String × Json) : ℕ :=
  bytes (quote ⟨ascii, false⟩ e.1) + bytes (render ⟨ascii, false⟩ e.2) + 2

theorem bytes_comma (ascii : Bool) : bytes (Style.comma ⟨ascii, false⟩) = 1 := rfl

theorem bytes_colon (ascii : Bool) : bytes (Style.colon ⟨ascii, false⟩) = 1 := rfl

theorem bytes_renderItems (items : List Json) :
    bytes (renderItems ⟨ascii, false⟩ items) = (items.map (itemBytes ascii)).sum + 1 := by
  induction items with
  | nil => rfl
  | cons v items ih =>
    rw [renderItems, bytes_append, bytes_append, bytes_comma, ih, List.map_cons, List.sum_cons,
      itemBytes]
    omega

theorem bytes_array (v : Json) (items : List Json) :
    bytes (render ⟨ascii, false⟩ (.arr (v :: items))) =
      ((v :: items).map (itemBytes ascii)).sum + 1 := by
  have hopen : '['.utf8Size = 1 := rfl
  rw [render, bytes_cons, bytes_append, bytes_renderItems, hopen, List.map_cons, List.sum_cons,
    itemBytes]
  omega

theorem bytes_renderFields (fields : List (String × Json)) :
    bytes (renderFields ⟨ascii, false⟩ fields) = (fields.map (fieldBytes ascii)).sum + 1 := by
  induction fields with
  | nil => rfl
  | cons e fields ih =>
    rw [renderFields, bytes_append, bytes_append, bytes_append, bytes_append, bytes_comma,
      bytes_colon, ih, List.map_cons, List.sum_cons, fieldBytes]
    omega

theorem bytes_object (e : String × Json) (fields : List (String × Json)) :
    bytes (render ⟨ascii, false⟩ (.obj (e :: fields))) =
      ((e :: fields).map (fieldBytes ascii)).sum + 1 := by
  have hopen : '{'.utf8Size = 1 := rfl
  rw [render, bytes_cons, bytes_append, bytes_append, bytes_append, bytes_colon,
    bytes_renderFields, hopen, List.map_cons, List.sum_cons, fieldBytes]
  omega

theorem length_le_bytes_array (items : List Json) :
    items.length ≤ bytes (render ⟨ascii, false⟩ (.arr items)) := by
  cases items with
  | nil => exact Nat.zero_le _
  | cons v items =>
    have hitems : ((v :: items).map (itemBytes ascii)).length • 1 ≤
        ((v :: items).map (itemBytes ascii)).sum := by
      refine List.card_nsmul_le_sum _ 1 fun n hn => ?_
      obtain ⟨w, _, rfl⟩ := List.mem_map.mp hn
      exact Nat.le_add_left 1 _
    rw [List.length_map, Nat.nsmul_eq_mul, Nat.mul_one] at hitems
    rw [bytes_array]
    omega

theorem bytes_field_le {e : String × Json} {fields : List (String × Json)} (h : e ∈ fields) :
    bytes (render ⟨ascii, false⟩ e.2) ≤ bytes (render ⟨ascii, false⟩ (.obj fields)) := by
  cases fields with
  | nil => cases h
  | cons f fields =>
    have he : fieldBytes ascii e ≤ ((f :: fields).map (fieldBytes ascii)).sum :=
      List.single_le_sum (fun _ _ => Nat.zero_le _) _ (List.mem_map_of_mem h)
    rw [fieldBytes] at he
    rw [bytes_object]
    omega

theorem bytes_get_le {d : Dict} {key : String} {v : Json} (h : Dict.get d key = some v) :
    bytes (render ⟨ascii, false⟩ v) ≤ bytes (render ⟨ascii, false⟩ (.obj d)) := by
  obtain ⟨before, after, hd, _⟩ := List.lookup_eq_some_iff.mp h
  have hmem : (key, v) ∈ d := hd ▸ List.mem_append_right before List.mem_cons_self
  exact bytes_field_le hmem

theorem bytes_number (n : ℕ) : bytes (number n) = (Nat.toDigits 10 n).length := by
  have hdigits : ∀ c ∈ Nat.toDigits 10 n, c.utf8Size = 1 := by
    intro c hc
    have hdigit : c.isDigit = true := Nat.isDigit_of_mem_toDigits (by omega) (by omega) hc
    have hle : c.toNat ≤ 57 := (Char.isDigit_iff_toNat.mp hdigit).2
    exact Char.utf8Size_eq_one_iff.mpr (UInt32.le_iff_toNat_le.mpr (Nat.le_trans hle (by decide)))
  change ((Nat.toDigits 10 n).map Char.utf8Size).sum = _
  rw [List.map_congr_left hdigits, List.map_const', List.sum_replicate, Nat.nsmul_eq_mul,
    Nat.mul_one]

theorem bytes_number_le_iff {n k : ℕ} (hk : 0 < k) : bytes (number n) ≤ k ↔ n < 10 ^ k := by
  rw [bytes_number]
  exact Nat.length_toDigits_le_iff (by omega) hk

theorem utf8ByteSize_eq (s : String) : s.utf8ByteSize = bytes s.toList := by
  have hlist (text : List Char) : (String.ofList text).utf8ByteSize = bytes text := by
    induction text with
    | nil => rfl
    | cons c text ih =>
      rw [bytes_cons, ← ih, String.ofList_cons, String.utf8ByteSize_append,
        String.utf8ByteSize_singleton]
  rw [← hlist, String.ofList_toList]

theorem bytes_escape_le {c : Char} (h : 32 ≤ c.toNat) :
    bytes (escape false c) ≤ 2 * c.utf8Size := by
  have hpos : 0 < c.utf8Size := Char.utf8Size_pos c
  have hplain : ¬(c.toNat < 32 ∨ false = true ∧ 126 < c.toNat) := by
    simp only [Bool.false_eq_true, false_and, or_false]
    omega
  have hself : bytes [c] = c.utf8Size := rfl
  unfold escape
  rw [if_neg hplain]
  split_ifs
  all_goals first
    | (subst c; decide)
    | omega

theorem bytes_quote_le {s : String} (h : ∀ c ∈ s.toList, 32 ≤ c.toNat) :
    bytes (quote ⟨false, false⟩ s) ≤ 2 * s.utf8ByteSize + 2 := by
  have htext (text : List Char) (htext : ∀ c ∈ text, 32 ≤ c.toNat) :
      bytes (text.flatMap (escape false)) ≤ 2 * bytes text := by
    induction text with
    | nil => exact Nat.le_refl 0
    | cons c text ih =>
      have hc := bytes_escape_le (htext c List.mem_cons_self)
      have hrest := ih fun d hd => htext d (List.mem_cons_of_mem c hd)
      rw [List.flatMap_cons, bytes_append, bytes_cons]
      omega
  have hs := htext s.toList h
  have hmark : bytes ['"'] = 1 := rfl
  have hquote : '"'.utf8Size = 1 := rfl
  have hsplit : bytes (quote ⟨false, false⟩ s) =
      1 + (bytes (s.toList.flatMap (escape false)) + 1) := by
    rw [quote, List.cons_append, bytes_cons, bytes_append, hmark, hquote]
  rw [hsplit, utf8ByteSize_eq]
  omega

theorem quote_spaced (s : String) : quote ⟨ascii, true⟩ s = quote ⟨ascii, false⟩ s := rfl

mutual

/-- Blanks after the separators only make a document longer. -/
theorem bytes_le_spaced (v : Json) :
    bytes (render ⟨ascii, false⟩ v) ≤ bytes (render ⟨ascii, true⟩ v) := by
  cases v with
  | null => exact Nat.le_refl _
  | bool b =>
    cases b with
    | false => exact Nat.le_refl _
    | true => exact Nat.le_refl _
  | num n => exact Nat.le_refl _
  | str s => exact Nat.le_refl _
  | arr items =>
    cases items with
    | nil => exact Nat.le_refl _
    | cons v items =>
      have hv := bytes_le_spaced v
      have hitems := bytes_items_le_spaced items
      rw [render, render, bytes_cons, bytes_cons, bytes_append, bytes_append]
      omega
  | obj fields =>
    cases fields with
    | nil => exact Nat.le_refl _
    | cons e fields =>
      obtain ⟨key, v⟩ := e
      have hv := bytes_le_spaced v
      have hfields := bytes_fields_le_spaced fields
      have hcolon : bytes (Style.colon ⟨ascii, false⟩) ≤ bytes (Style.colon ⟨ascii, true⟩) :=
        Nat.le_succ 1
      simp only [render, bytes_cons, bytes_append, quote_spaced]
      omega

theorem bytes_items_le_spaced (items : List Json) :
    bytes (renderItems ⟨ascii, false⟩ items) ≤ bytes (renderItems ⟨ascii, true⟩ items) := by
  cases items with
  | nil => exact Nat.le_refl _
  | cons v items =>
    have hv := bytes_le_spaced v
    have hitems := bytes_items_le_spaced items
    have hcomma : bytes (Style.comma ⟨ascii, false⟩) ≤ bytes (Style.comma ⟨ascii, true⟩) :=
      Nat.le_succ 1
    simp only [renderItems, bytes_append]
    omega

theorem bytes_fields_le_spaced (fields : List (String × Json)) :
    bytes (renderFields ⟨ascii, false⟩ fields) ≤ bytes (renderFields ⟨ascii, true⟩ fields) := by
  cases fields with
  | nil => exact Nat.le_refl _
  | cons e fields =>
    obtain ⟨key, v⟩ := e
    have hv := bytes_le_spaced v
    have hfields := bytes_fields_le_spaced fields
    have hcomma : bytes (Style.comma ⟨ascii, false⟩) ≤ bytes (Style.comma ⟨ascii, true⟩) :=
      Nat.le_succ 1
    have hcolon : bytes (Style.colon ⟨ascii, false⟩) ≤ bytes (Style.colon ⟨ascii, true⟩) :=
      Nat.le_succ 1
    simp only [renderFields, bytes_append, quote_spaced]
    omega

end

end Sizes

section Ascii

theorem digitChar_ascii : ∀ n < 16, n.digitChar.toNat < 128 := by decide

theorem codeUnit_ascii {n : ℕ} (hn : n < 65536) : ∀ c ∈ codeUnit n, c.toNat < 128 := by
  intro c hc
  simp only [codeUnit, hex, List.mem_cons, List.not_mem_nil, or_false] at hc
  rcases hc with rfl | rfl | rfl | rfl | rfl | rfl
  · decide
  · decide
  · exact digitChar_ascii _ (by omega)
  · exact digitChar_ascii _ (by omega)
  · exact digitChar_ascii _ (by omega)
  · exact digitChar_ascii _ (by omega)

theorem unicode_ascii (c : Char) : ∀ d ∈ unicode c.toNat, d.toNat < 128 := by
  have hrange : c.toNat < 0x110000 := by
    rcases c.valid with h | h
    · have : c.toNat < 0xd800 := h
      omega
    · exact h.2
  intro d hd
  unfold unicode at hd
  split at hd
  · exact codeUnit_ascii (by omega) d hd
  · rcases List.mem_append.mp hd with hd | hd
    · exact codeUnit_ascii (by omega) d hd
    · exact codeUnit_ascii (by omega) d hd

theorem escape_ascii (c : Char) : ∀ d ∈ escape true c, d.toNat < 128 := by
  intro d hd
  unfold escape at hd
  by_cases hplain : c.toNat < 32 ∨ true = true ∧ 126 < c.toNat
  · rw [if_pos hplain] at hd
    split_ifs at hd
    all_goals first
      | exact unicode_ascii _ d hd
      | (simp only [List.mem_cons, List.not_mem_nil, or_false] at hd
         rcases hd with rfl | rfl <;> decide)
  · rw [if_neg hplain] at hd
    split_ifs at hd
    all_goals first
      | (simp only [List.mem_cons, List.not_mem_nil, or_false] at hd
         rcases hd with rfl | rfl <;> decide)
      | (simp only [List.mem_cons, List.not_mem_nil, or_false] at hd
         subst hd
         simp only [true_and, not_or] at hplain
         omega)

theorem quote_ascii (spaced : Bool) (s : String) : ∀ c ∈ quote ⟨true, spaced⟩ s, c.toNat < 128 := by
  intro c hc
  rcases List.mem_cons.mp hc with rfl | hc
  · decide
  · rcases List.mem_append.mp hc with hc | hc
    · obtain ⟨d, _, hd⟩ := List.mem_flatMap.mp hc
      exact escape_ascii d c hd
    · obtain rfl := List.mem_singleton.mp hc
      decide

theorem number_ascii (i : ℤ) : ∀ c ∈ number i, c.toNat < 128 := by
  have hdigits (n : ℕ) : ∀ c ∈ Nat.toDigits 10 n, c.toNat < 128 := by
    intro c hc
    have hdigit : c.isDigit = true := Nat.isDigit_of_mem_toDigits (by omega) (by omega) hc
    have hle : c.toNat ≤ 57 := (Char.isDigit_iff_toNat.mp hdigit).2
    omega
  intro c hc
  cases i with
  | ofNat n => exact hdigits n c hc
  | negSucc n =>
    rcases List.mem_cons.mp hc with rfl | hc
    · decide
    · exact hdigits (n + 1) c hc

theorem all_ascii {text : List Char} (h : text.all (fun c => c.toNat < 128) = true) :
    ∀ c ∈ text, c.toNat < 128 :=
  fun c hc => of_decide_eq_true (List.all_eq_true.mp h c hc)

theorem comma_ascii (spaced : Bool) : ∀ c ∈ Style.comma ⟨true, spaced⟩, c.toNat < 128 := by
  cases spaced <;> exact all_ascii rfl

theorem colon_ascii (spaced : Bool) : ∀ c ∈ Style.colon ⟨true, spaced⟩, c.toNat < 128 := by
  cases spaced <;> exact all_ascii rfl

mutual

/-- A text that is written with ASCII only has no other character. -/
theorem render_ascii (spaced : Bool) (v : Json) :
    ∀ c ∈ render ⟨true, spaced⟩ v, c.toNat < 128 := by
  intro c hc
  match v, hc with
  | .null, hc => exact all_ascii rfl c hc
  | .bool true, hc => exact all_ascii rfl c hc
  | .bool false, hc => exact all_ascii rfl c hc
  | .num n, hc => exact number_ascii n c hc
  | .str s, hc => exact quote_ascii spaced s c hc
  | .arr [], hc => exact all_ascii rfl c hc
  | .arr (v :: items), hc =>
    rw [render] at hc
    rcases List.mem_cons.mp hc with rfl | hc
    · decide
    · rcases List.mem_append.mp hc with hc | hc
      · exact render_ascii spaced v c hc
      · exact renderItems_ascii spaced items c hc
  | .obj [], hc => exact all_ascii rfl c hc
  | .obj ((key, v) :: fields), hc =>
    rw [render] at hc
    rcases List.mem_cons.mp hc with rfl | hc
    · decide
    · simp only [List.mem_append] at hc
      rcases hc with ((hc | hc) | hc) | hc
      · exact quote_ascii spaced key c hc
      · exact colon_ascii spaced c hc
      · exact render_ascii spaced v c hc
      · exact renderFields_ascii spaced fields c hc

theorem renderItems_ascii (spaced : Bool) (items : List Json) :
    ∀ c ∈ renderItems ⟨true, spaced⟩ items, c.toNat < 128 := by
  intro c hc
  match items, hc with
  | [], hc =>
    obtain rfl := List.mem_singleton.mp hc
    decide
  | v :: items, hc =>
    rw [renderItems] at hc
    simp only [List.mem_append] at hc
    rcases hc with (hc | hc) | hc
    · exact comma_ascii spaced c hc
    · exact render_ascii spaced v c hc
    · exact renderItems_ascii spaced items c hc

theorem renderFields_ascii (spaced : Bool) (fields : List (String × Json)) :
    ∀ c ∈ renderFields ⟨true, spaced⟩ fields, c.toNat < 128 := by
  intro c hc
  match fields, hc with
  | [], hc =>
    obtain rfl := List.mem_singleton.mp hc
    decide
  | (key, v) :: fields, hc =>
    rw [renderFields] at hc
    simp only [List.mem_append] at hc
    rcases hc with (((hc | hc) | hc) | hc) | hc
    · exact comma_ascii spaced c hc
    · exact quote_ascii spaced key c hc
    · exact colon_ascii spaced c hc
    · exact render_ascii spaced v c hc
    · exact renderFields_ascii spaced fields c hc

end

end Ascii

end JsonText
