import Mathlib
import ProjectControl.Json

/-! The texts that Python's `repr` and `str` make of decoded JSON. -/

set_option autoImplicit false

namespace PythonText

section Repr

-- `str.isprintable` of characters beyond ASCII
variable (printable : Char → Bool)

def hexDigits : ℕ → ℕ → List Char
  | 0, _ => []
  | width + 1, n => hexDigits width (n / 16) ++ [(n % 16).digitChar]

def reprChar (mark c : Char) : List Char :=
  if c = mark ∨ c = '\\' then ['\\', c]
  else if c = '\t' then ['\\', 't']
  else if c = '\n' then ['\\', 'n']
  else if c = '\r' then ['\\', 'r']
  else if c.toNat < 32 ∨ c.toNat = 127 then '\\' :: 'x' :: hexDigits 2 c.toNat
  else if c.toNat < 127 ∨ printable c then [c]
  else if c.toNat < 0x100 then '\\' :: 'x' :: hexDigits 2 c.toNat
  else if c.toNat < 0x10000 then '\\' :: 'u' :: hexDigits 4 c.toNat
  else '\\' :: 'U' :: hexDigits 8 c.toNat

/-- A text in the quotation marks that need no escape, where there are such. -/
def reprText (s : String) : List Char :=
  let mark := if '\'' ∈ s.toList ∧ '"' ∉ s.toList then '"' else '\''
  mark :: s.toList.flatMap (reprChar printable mark) ++ [mark]

mutual

def repr : Json → List Char
  | .null => "None".toList
  | .bool true => "True".toList
  | .bool false => "False".toList
  | .num n => (toString n).toList
  | .str s => reprText printable s
  | .arr [] => ['[', ']']
  | .arr (v :: items) => '[' :: (repr v ++ reprItems items)
  | .obj [] => ['{', '}']
  | .obj ((key, v) :: fields) =>
    '{' :: (reprText printable key ++ [':', ' '] ++ repr v ++ reprFields fields)

def reprItems : List Json → List Char
  | [] => [']']
  | v :: items => [',', ' '] ++ repr v ++ reprItems items

def reprFields : List (String × Json) → List Char
  | [] => ['}']
  | (key, v) :: fields =>
    [',', ' '] ++ reprText printable key ++ [':', ' '] ++ repr v ++ reprFields fields

end

/-- `str(value)`. -/
def str : Json → String
  | .str s => s
  | v => String.ofList (repr printable v)

@[simp]
theorem str_text (s : String) : str printable (.str s) = s := rfl

example : str (fun _ => true) (.arr [.str "it's", .null, .num (-3)]) = "[\"it's\", None, -3]" := by
  decide +kernel

end Repr

end PythonText
