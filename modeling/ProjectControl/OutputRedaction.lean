import Mathlib
import ProjectControl.ExportText
import ProjectControl.Json

/-! `redact_output`: secrets in texts, private paths, and the keys whose values are not shown. -/

set_option autoImplicit false

namespace ProjectControl.Redaction

open Export Processes

section Patterns

/-- What a pattern finds at the head of a text after a given character: how many characters. -/
abbrev Finder := Option Char → List Char → Option ℕ

/-- `sub`: every match, from left to right, is replaced. The first `n` characters are those of
a match that has been replaced. -/
def sub (find : Finder) (mark : List Char) : Option Char → ℕ → List Char → List Char
  | _, _, [] => []
  | _, n + 1, c :: rest => sub find mark (some c) n rest
  | prev, 0, c :: rest =>
    match find prev (c :: rest) with
    | some n => mark ++ sub find mark (some c) (n - 1) rest
    | none => c :: sub find mark (some c) 0 rest

/-- A letter or a digit of a class under `(?i)`. -/
def isLetterOrDigit (c : Char) : Bool := c.isAlphanum || c.toNat ∈ [0x130, 0x131, 0x17f, 0x212a]

/-- So many characters of a class at least. -/
def atLeast (least : ℕ) (inClass : Char → Bool) (text : List Char) : Option ℕ :=
  let n := (text.takeWhile inClass).length
  if n < least then none else some n

/-- A label and then what `value` finds. -/
def after (label : List (Char → Bool)) (value : List Char → Option ℕ) (text : List Char) :
    Option ℕ :=
  (matchAll label text).bind fun found => (value found.2).map (found.1.length + ·)

def findBearer : Finder := fun _ text =>
  after (letters ['b', 'e', 'a', 'r', 'e', 'r'])
    (fun rest =>
      let blanks := (rest.takeWhile isSpace).length
      let value := (bearerValue (rest.drop blanks)).length
      if blanks = 0 ∨ value = 0 then none else some (blanks + value)) text

def tokenPrefixes : List (List Char) :=
  [['s', 'k'], ['t', 'o', 'k'], ['t', 'o', 'c'], ['t', 'o', 's'], ['t', 'o', 'l'], ['h', 'f'],
    ['g', 'h', 'p'], ['g', 'h', 'o'], ['g', 'h', 'u'], ['g', 'h', 's'], ['g', 'h', 'r'],
    ['x', 'o', 'x', 'b'], ['x', 'o', 'x', 'a'], ['x', 'o', 'x', 'p'], ['x', 'o', 'x', 'r']]

def findToken : Finder := fun prev text =>
  if prev.any fun c => isLetterOrDigit c || c = '_' then none
  else tokenPrefixes.findSome? fun start =>
    after (letters start ++ [oneOf ['_']])
      (atLeast 12 fun c => isLetterOrDigit c || c = '_' || c = '-') text

def findGithub : Finder := fun _ text =>
  after (letters ['g', 'i', 't', 'h', 'u', 'b'] ++ [oneOf ['_']] ++ letters ['p', 'a', 't'] ++
      [oneOf ['_']])
    (atLeast 20 fun c => isLetterOrDigit c || c = '_') text

def findAmazon : Finder := fun _ text =>
  after (letters ['a', 'k', 'i', 'a'])
    (fun rest => if (rest.take 16).length = 16 ∧ (rest.take 16).all isLetterOrDigit then some 16
      else none) text

/-- A text between quotation marks, in which a backslash takes the next character with it. -/
def quotedLength (mark : Char) : List Char → Option ℕ
  | [] => none
  | '\\' :: c :: rest => if c = '\n' then none else (quotedLength mark rest).map (· + 2)
  | c :: rest =>
    if c = mark then some 1
    else if c = '\\' ∨ c = '\r' ∨ c = '\n' then none
    else (quotedLength mark rest).map (· + 1)

def credentialLength (text : List Char) : Option ℕ :=
  let quoted (mark : Char) : Option ℕ :=
    if text.head? = some mark then (quotedLength mark text.tail).map (· + 1) else none
  ((quoted '"').or (quoted '\'')).or (atLeast 1 (fun c => !isSpace c && c ∉ [',', ';', '}']) text)

def credentialNames : List (List (Char → Bool)) :=
  [letters ['t', 'o', 'k', 'e', 'n'], letters ['p', 'a', 's', 's', 'w', 'o', 'r', 'd'],
    letters ['a', 'p', 'i'] ++ oneOf ['_', '-'] :: letters ['k', 'e', 'y'],
    letters ['a', 'p', 'i', 'k', 'e', 'y'], letters ['s', 'e', 'c', 'r', 'e', 't'],
    letters ['c', 'r', 'e', 'd', 'e', 'n', 't', 'i', 'a', 'l']]

def isQuote (c : Char) : Bool := c = '"' || c = '\''

def findCredential : Finder := fun _ text =>
  let opening := if text.head?.any isQuote then 1 else 0
  (credentialNames.findSome? fun name => after name (fun rest =>
    let closing := if rest.head?.any isQuote then 1 else 0
    (assignment (rest.drop closing)).bind fun split =>
      (credentialLength split.2).map (closing + split.1.length + ·)) (text.drop opening)).map
        (opening + ·)

/-- `SENSITIVE_VALUE`. -/
def findSensitive : Finder := fun prev text =>
  [findBearer, findToken, findGithub, findAmazon, findCredential].findSome? fun find =>
    find prev text

def localRoots : List String := ["home", "tmp", "var", "run", "mnt", "media", "opt", "srv", "root"]

def isPathChar (c : Char) : Bool :=
  c.isAlphanum || c ∈ ['.', '_', '@', '+', ',', ':', '=', '-']

/-- One part of a path after the other, so many at most. -/
def partsLength : ℕ → List Char → ℕ
  | 0, _ => 0
  | n + 1, '/' :: rest =>
    match atLeast 1 isPathChar rest with
    | some k => 1 + k + partsLength n (rest.drop k)
    | none => 0
  | _ + 1, _ => 0

/-- `LOCAL_ABSOLUTE_PATH`. -/
def findPath : Finder := fun prev text =>
  if prev.any fun c => c.isAlphanum || c = ':' then none
  else localRoots.findSome? fun root =>
    let head := '/' :: root.toList
    if head.isPrefixOf text then
      let n := partsLength text.length (text.drop head.length)
      if n = 0 then none else some (head.length + n)
    else none

end Patterns

section Values

def redactText (value : String) : String :=
  String.ofList (sub findSensitive "[REDACTED]".toList none 0 value.toList)

def redactOutputText (value : String) : String :=
  String.ofList (sub findPath "[REDACTED_PATH]".toList none 0 (redactText value).toList)

def privateOutputKeys : List String :=
  ["database_path", "state_root", "worktree_path", "model_path", "service_endpoint", "raw_log",
    "transcript", "stdout", "stderr", "environment", "command_line"]

def keyNames : List (List (Char → Bool)) :=
  let joined (a b : List Char) : List (List (Char → Bool)) :=
    [letters a ++ oneOf ['_', '-'] :: letters b, letters (a ++ b)]
  [letters ['t', 'o', 'k', 'e', 'n'], letters ['s', 'e', 'c', 'r', 'e', 't'],
    letters ['c', 'r', 'e', 'd', 'e', 'n', 't', 'i', 'a', 'l'],
    letters ['p', 'a', 's', 's', 'w', 'o', 'r', 'd']] ++
    joined ['a', 'p', 'i'] ['k', 'e', 'y'] ++ joined ['p', 'r', 'i', 'v', 'a', 't', 'e']
      ['k', 'e', 'y']

/-- Whether a name stands at the head of a key: no more than a newline follows, or a separator. -/
def namedAt (prev : Option Char) (key : List Char) : Bool :=
  prev.all (· ∈ ['_', '-']) && keyNames.any fun name =>
    (matchAll name key).any fun found =>
      found.2 = [] || found.2 = ['\n'] || found.2.head?.any (· ∈ ['_', '-'])

def namedFrom : Option Char → List Char → Bool
  | prev, [] => namedAt prev []
  | prev, c :: rest => namedAt prev (c :: rest) || namedFrom (some c) rest

/-- `SENSITIVE_KEY`. -/
def sensitiveKey (key : String) : Bool := namedFrom none key.toList

def hidden (key : String) : Bool := key ∈ privateOutputKeys || sensitiveKey key

def redactedMark : Json := .str "[REDACTED]"

mutual

def redactOutput : Json → Json
  | .obj fields => .obj (redactFields fields)
  | .arr items => .arr (redactItems items)
  | .str s => .str (redactOutputText s)
  | .null => .null
  | .bool b => .bool b
  | .num n => .num n

def redactItems : List Json → List Json
  | [] => []
  | item :: items => redactOutput item :: redactItems items

def redactFields : List (String × Json) → List (String × Json)
  | [] => []
  | (key, v) :: fields =>
    (key, if hidden key then redactedMark else redactOutput v) :: redactFields fields

end

example : redactOutputText "see /home/a/b or token: abc" =
    "see [REDACTED_PATH] or [REDACTED]" := by
  decide +kernel

end Values

end ProjectControl.Redaction
