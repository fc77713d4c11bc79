import Mathlib.Logic.Basic
import Mathlib.Data.Nat.Notation

/-! JSON values with decidable equality, and the lookups that readers of decoded
documents make in them. Objects are lists of fields in canonical key order. -/

set_option autoImplicit false

inductive Json where
  | null
  | bool (b : Bool)
  | num (n : Int)
  | str (s : String)
  | arr (items : List Json)
  | obj (fields : List (String × Json))
  deriving Repr

namespace Json

mutual

def decEq : (a b : Json) → Decidable (a = b)
  | null, b => match b with
    | null => isTrue rfl
    | bool _ | num _ | str _ | arr _ | obj _ => isFalse (by simp)
  | bool x, b => match b with
    | bool y => decidable_of_iff (x = y) (by simp)
    | null | num _ | str _ | arr _ | obj _ => isFalse (by simp)
  | num x, b => match b with
    | num y => decidable_of_iff (x = y) (by simp)
    | null | bool _ | str _ | arr _ | obj _ => isFalse (by simp)
  | str x, b => match b with
    | str y => decidable_of_iff (x = y) (by simp)
    | null | bool _ | num _ | arr _ | obj _ => isFalse (by simp)
  | arr xs, b => match b with
    | arr ys => @decidable_of_iff _ (xs = ys) (by simp) (decEqItems xs ys)
    | null | bool _ | num _ | str _ | obj _ => isFalse (by simp)
  | obj xs, b => match b with
    | obj ys => @decidable_of_iff _ (xs = ys) (by simp) (decEqFields xs ys)
    | null | bool _ | num _ | str _ | arr _ => isFalse (by simp)

def decEqItems : (xs ys : List Json) → Decidable (xs = ys)
  | [], [] => isTrue rfl
  | [], _ :: _ => isFalse (by simp)
  | _ :: _, [] => isFalse (by simp)
  | x :: xs, y :: ys => @decidable_of_iff _ (x = y ∧ xs = ys) (by simp)
      (@instDecidableAnd _ _ (decEq x y) (decEqItems xs ys))

def decEqFields : (xs ys : List (String × Json)) → Decidable (xs = ys)
  | [], [] => isTrue rfl
  | [], _ :: _ => isFalse (by simp)
  | _ :: _, [] => isFalse (by simp)
  | (k, x) :: xs, (l, y) :: ys =>
    @decidable_of_iff _ (k = l ∧ x = y ∧ xs = ys) (by simp [and_assoc])
      (@instDecidableAnd _ _ inferInstance
        (@instDecidableAnd _ _ (decEq x y) (decEqFields xs ys)))

end

instance : DecidableEq Json := decEq

/-- An optional text as it stands in a document, absent as `null`. -/
def ofText? : Option String → Json
  | none => null
  | some s => str s

/-- A text that is neither missing, nor of another type, nor empty. -/
def text? : Json → Option String
  | str s => if s = "" then none else some s
  | _ => none

def nat? : Json → Option ℕ
  | num n => if 0 ≤ n then some n.toNat else none
  | _ => none

theorem nat?_num (n : ℕ) : nat? (num n) = some n := by
  rw [nat?, if_pos (Int.natCast_nonneg n), Int.toNat_natCast]

def fields? : Json → Option (List (String × Json))
  | obj fields => some fields
  | _ => none

def isNull : Json → Bool
  | null => true
  | _ => false

/-- What Python takes for true. -/
def truthy : Json → Bool
  | null => false
  | bool b => b
  | num n => n ≠ 0
  | str s => s ≠ ""
  | arr items => !items.isEmpty
  | obj fields => !fields.isEmpty

/-- `a or b`. -/
def orElse (a b : Json) : Json := if a.truthy then a else b

end Json

/-- A decoded JSON object. -/
abbrev Dict := List (String × Json)

namespace Dict

def get (d : Dict) (key : String) : Option Json := d.lookup key

theorem get_cons_self (d : Dict) (key : String) (v : Json) : get ((key, v) :: d) key = some v :=
  List.lookup_cons_self

theorem get_cons_of_ne (d : Dict) {key k : String} (v : Json) (h : key ≠ k) :
    get ((k, v) :: d) key = d.get key := by
  rw [get, get, List.lookup_cons, beq_false_of_ne h]

/-- `get` of Python, which has `None` for what is missing. -/
def value (d : Dict) (key : String) : Json := (d.get key).getD .null

/-- The fields of a record that are there and not null. -/
def pick (fields : List String) (d : Dict) : Dict :=
  fields.filterMap (fun key => ((d.get key).filter (fun v => !v.isNull)).map (fun v => (key, v)))

/-- The value at a path of object keys. -/
def path (d : Dict) : List String → Option Json
  | [] => some (.obj d)
  | [key] => d.get key
  | key :: rest => ((d.get key).bind Json.fields?).bind (fun inner => path inner rest)

end Dict
