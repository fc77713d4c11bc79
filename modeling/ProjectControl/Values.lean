import Mathlib
import ProjectControl.Json

/-! Decoded values with floats, and how Python compares them. -/

set_option autoImplicit false

namespace Values

section Values

/-- A float; a finite one by its value. -/
inductive Double
  | finite (q : ℚ)
  | infinite (negative : Bool)
  | nan
  deriving DecidableEq

inductive Value
  | null
  | bool (b : Bool)
  | int (n : ℤ)
  | float (d : Double)
  | str (s : String)
  | arr (items : List Value)
  | obj (fields : List (String × Value))

/-- A mapping; of several entries with one key the first counts. -/
abbrev Fields := List (String × Value)

/-- `get` of a mapping. -/
def Fields.get (fields : Fields) (key : String) : Value := (fields.lookup key).getD .null

/-- The mapping under a key, or an empty one where there is none. -/
def Fields.mapping (fields : Fields) (key : String) : Fields :=
  match fields.lookup key with
  | some (.obj inner) => inner
  | _ => []

namespace Value

/-- The number that a value is for `==`; booleans are numbers, too. -/
def number? : Value → Option Double
  | .bool b => some (.finite (if b then 1 else 0))
  | .int n => some (.finite n)
  | .float d => some d
  | _ => none

/-- The finite number that a value is, booleans left out. -/
def amount? : Value → Option ℚ
  | .int n => some n
  | .float (.finite q) => some q
  | _ => none

def isNull : Value → Bool
  | .null => true
  | _ => false

def isStr (v : Value) (s : String) : Bool :=
  match v with
  | .str t => t = s
  | _ => false

def isBool (v : Value) (b : Bool) : Bool :=
  match v with
  | .bool c => c = b
  | _ => false

def truthy : Value → Bool
  | .null => false
  | .bool b => b
  | .int n => n ≠ 0
  | .float d => d ≠ .finite 0
  | .str s => s ≠ ""
  | .arr items => !items.isEmpty
  | .obj fields => !fields.isEmpty

mutual

/-- `==` of two values, NaN taken for the one constant of the decoder. -/
def same : Value → Value → Bool
  | .null, .null => true
  | .str s, .str t => s = t
  | .arr xs, .arr ys => sameItems xs ys
  | .obj xs, .obj ys =>
    sameFields [] xs ys && ys.all (fun field => (xs.lookup field.1).isSome)
  | v, w =>
    match v.number?, w.number? with
    | some d, some e => d = e
    | _, _ => false

def sameItems : List Value → List Value → Bool
  | [], [] => true
  | v :: xs, w :: ys => same v w && sameItems xs ys
  | _, _ => false

/-- The entries under keys not seen yet have equal ones in the other mapping. -/
def sameFields (seen : List String) : Fields → Fields → Bool
  | [], _ => true
  | (key, v) :: xs, ys =>
    (key ∈ seen || (match ys.lookup key with
      | some w => same v w
      | none => false)) && sameFields (key :: seen) xs ys

end

@[simp] theorem amount?_bool (b : Bool) : amount? (.bool b) = none := rfl

theorem isStr_iff {v : Value} {s : String} : v.isStr s = true ↔ v = .str s := by
  cases v <;> simp [isStr]

theorem same_str {v : Value} {s : String} : same v (.str s) = true ↔ v = .str s := by
  cases v <;> simp [same, number?]

theorem number?_of_amount? {v : Value} {q : ℚ} (h : v.amount? = some q) :
    v.number? = some (.finite q) := by
  cases v with
  | int n =>
    cases h
    rfl
  | float d =>
    cases d with
    | finite p =>
      cases h
      rfl
    | infinite negative => cases h
    | nan => cases h
  | _ => cases h

theorem amount?_of_number? {v : Value} {q : ℚ} (h : v.number? = some (.finite q))
    (hbool : ∀ b, v ≠ .bool b) : v.amount? = some q := by
  cases v with
  | bool b => exact absurd rfl (hbool b)
  | int n =>
    cases h
    rfl
  | float d =>
    cases h
    rfl
  | _ => cases h

end Value

namespace Fields

theorem get_eq_str {fields : Fields} {key s : String} :
    fields.get key = .str s ↔ fields.lookup key = some (.str s) := by
  unfold Fields.get
  cases fields.lookup key <;> simp

theorem lookup_isSome {fields : Fields} {key : String} {v : Value} (h : (key, v) ∈ fields) :
    (fields.lookup key).isSome = true := by
  induction fields with
  | nil => cases h
  | cons field rest ih =>
    obtain ⟨k, w⟩ := field
    by_cases hk : key = k
    · subst hk
      simp
    · have hrest : (key, v) ∈ rest := by
        rcases List.mem_cons.mp h with heq | hrest
        · exact absurd (Prod.mk.inj heq).1 hk
        · exact hrest
      rw [List.lookup_cons, beq_false_of_ne hk]
      exact ih hrest

theorem mem_of_lookup {fields : Fields} {key : String} {v : Value}
    (h : fields.lookup key = some v) : (key, v) ∈ fields := by
  induction fields with
  | nil => cases h
  | cons field rest ih =>
    obtain ⟨k, w⟩ := field
    by_cases hk : key = k
    · subst hk
      rw [List.lookup_cons, beq_self_eq_true] at h
      cases h
      exact List.mem_cons_self
    · rw [List.lookup_cons, beq_false_of_ne hk] at h
      exact List.mem_cons_of_mem _ (ih h)

/-- What the comparison says of the keys that were not seen before. -/
theorem sameFields_iff (seen : List String) (xs ys : Fields) :
    Value.sameFields seen xs ys = true ↔
      ∀ key v, key ∉ seen → xs.lookup key = some v →
        ∃ w, ys.lookup key = some w ∧ Value.same v w = true := by
  induction xs generalizing seen with
  | nil => simp [Value.sameFields]
  | cons field rest ih =>
    obtain ⟨k, u⟩ := field
    rw [Value.sameFields, Bool.and_eq_true, ih]
    constructor
    · rintro ⟨hfirst, hrest⟩ key v hseen hlookup
      by_cases hk : key = k
      · subst hk
        rw [List.lookup_cons, beq_self_eq_true] at hlookup
        cases hlookup
        cases hys : ys.lookup key with
        | none => simp [hseen, hys] at hfirst
        | some w =>
          refine ⟨w, rfl, ?_⟩
          simpa [hseen, hys] using hfirst
      · rw [List.lookup_cons, beq_false_of_ne hk] at hlookup
        exact hrest key v (by simp [hk, hseen]) hlookup
    · intro h
      refine ⟨?_, fun key v hseen hlookup => ?_⟩
      · by_cases hk : k ∈ seen
        · simp [hk]
        · obtain ⟨w, hw, hsame⟩ := h k u hk (by simp)
          simp [hw, hsame]
      · have hk : key ≠ k := fun heq => hseen (heq ▸ List.mem_cons_self)
        refine h key v (fun hmem => hseen (List.mem_cons_of_mem _ hmem)) ?_
        rw [List.lookup_cons, beq_false_of_ne hk]
        exact hlookup

/-- A mapping of texts as a mapping of values. -/
def ofTexts (texts : List (String × String)) : Fields := texts.map (fun t => (t.1, .str t.2))

theorem lookup_ofTexts (texts : List (String × String)) (key : String) :
    (ofTexts texts).lookup key = (texts.lookup key).map Value.str := by
  induction texts with
  | nil => rfl
  | cons t rest ih =>
    obtain ⟨k, s⟩ := t
    by_cases hk : key = k
    · subst hk
      simp [ofTexts]
    · rw [ofTexts, List.map_cons, List.lookup_cons, List.lookup_cons, beq_false_of_ne hk]
      exact ih

/-- A mapping equals one of texts if it has the same texts under the same keys. -/
theorem same_ofTexts {fields : Fields} {texts : List (String × String)} :
    Value.same (.obj fields) (.obj (ofTexts texts)) = true ↔
      ∀ key, fields.lookup key = (texts.lookup key).map Value.str := by
  rw [Value.same, Bool.and_eq_true, sameFields_iff, List.all_eq_true]
  constructor
  · rintro ⟨hfields, htexts⟩ key
    cases hkey : fields.lookup key with
    | some v =>
      obtain ⟨w, hw, hsame⟩ := hfields key v List.not_mem_nil hkey
      rw [lookup_ofTexts] at hw
      obtain ⟨s, hs, rfl⟩ := Option.map_eq_some_iff.mp hw
      rw [hs, Value.same_str.mp hsame]
      rfl
    | none =>
      cases hs : texts.lookup key with
      | none => rfl
      | some s =>
        have hmem : (key, Value.str s) ∈ ofTexts texts := by
          apply mem_of_lookup
          rw [lookup_ofTexts, hs]
          rfl
        have hsome := htexts _ hmem
        rw [hkey] at hsome
        cases hsome
  · intro h
    refine ⟨fun key v _ hv => ?_, fun field hfield => ?_⟩
    · rw [h key] at hv
      obtain ⟨s, hs, rfl⟩ := Option.map_eq_some_iff.mp hv
      refine ⟨.str s, ?_, Value.same_str.mpr rfl⟩
      rw [lookup_ofTexts, hs]
      rfl
    · have hsome := lookup_isSome hfield
      rw [lookup_ofTexts] at hsome
      rw [h field.1]
      exact hsome

end Fields

end Values

section Documents

mutual

/-- A document without floats as a decoded value. -/
def ofJson : Json → Value
  | .null => .null
  | .bool b => .bool b
  | .num n => .int n
  | .str s => .str s
  | .arr items => .arr (ofItems items)
  | .obj fields => .obj (ofFields fields)

def ofItems : List Json → List Value
  | [] => []
  | v :: items => ofJson v :: ofItems items

def ofFields : List (String × Json) → Fields
  | [] => []
  | (key, v) :: fields => (key, ofJson v) :: ofFields fields

end

mutual

theorem ofJson_injective : ∀ {v w : Json}, ofJson v = ofJson w → v = w
  | v, w, h => by
    cases v <;> cases w <;> simp only [ofJson, reduceCtorEq, Value.bool.injEq, Value.int.injEq,
      Value.str.injEq, Value.arr.injEq, Value.obj.injEq] at h
    · rfl
    · rw [h]
    · rw [h]
    · rw [h]
    · rw [ofItems_injective h]
    · rw [ofFields_injective h]

theorem ofItems_injective : ∀ {xs ys : List Json}, ofItems xs = ofItems ys → xs = ys
  | [], [], _ => rfl
  | [], _ :: _, h => by cases h
  | _ :: _, [], h => by cases h
  | x :: xs, y :: ys, h => by
    obtain ⟨hhead, htail⟩ := List.cons.inj h
    rw [ofJson_injective hhead, ofItems_injective htail]

theorem ofFields_injective : ∀ {xs ys : List (String × Json)}, ofFields xs = ofFields ys → xs = ys
  | [], [], _ => rfl
  | [], (_, _) :: _, h => by cases h
  | (_, _) :: _, [], h => by cases h
  | (k, x) :: xs, (l, y) :: ys, h => by
    obtain ⟨hhead, htail⟩ := List.cons.inj h
    obtain ⟨hkey, hvalue⟩ := Prod.mk.inj hhead
    rw [hkey, ofJson_injective hvalue, ofFields_injective htail]

end

theorem lookup_ofFields (d : Dict) (key : String) :
    (ofFields d).lookup key = (d.lookup key).map ofJson := by
  induction d with
  | nil => rfl
  | cons e d ih =>
    obtain ⟨k, v⟩ := e
    rw [ofFields, List.lookup_cons, List.lookup_cons, ih]
    cases key == k <;> rfl

/-- How reading or writing a document fails: by a `ValueError`, or by a `RecursionError`. -/
inductive LoadFault
  | value
  | recursion
  deriving DecidableEq

/-- Longer numbers are neither read nor written. -/
def maxDigits : ℕ := 4300

def Short (n : ℤ) : Prop := n.natAbs < 10 ^ maxDigits

theorem short_of_lt {n : ℕ} (h : n < 2 ^ 63) : Short n := by
  have hlimit : 2 ^ 63 ≤ 10 ^ maxDigits :=
    (Nat.pow_le_pow_left (by decide) 63).trans (Nat.pow_le_pow_right (by decide) (by decide))
  exact Nat.lt_of_lt_of_le h hlimit

/-- A document of at most so many levels, with short numbers. -/
inductive Small : ℕ → Json → Prop
  | null {depth : ℕ} : Small depth .null
  | bool {depth : ℕ} (b : Bool) : Small depth (.bool b)
  | num {depth : ℕ} {n : ℤ} (h : Short n) : Small depth (.num n)
  | str {depth : ℕ} (s : String) : Small depth (.str s)
  | arr {depth : ℕ} {items : List Json} (h : ∀ v ∈ items, Small depth v) :
      Small (depth + 1) (.arr items)
  | obj {depth : ℕ} {fields : Dict} (h : ∀ e ∈ fields, Small depth e.2) :
      Small (depth + 1) (.obj fields)

end Documents

end Values
