import Mathlib
import ProjectControl.JsonText

/-! The bytes of the compact text of a JSON value. -/

set_option autoImplicit false

namespace JsonText

section Wire

/-- The bytes of the compact text, with all characters as they are. -/
def wireSize (v : Json) : ℕ := bytes (render ⟨false, false⟩ v)

def textSize (s : String) : ℕ := bytes (quote ⟨false, false⟩ s)

/-- The bytes of a field with its colon and the separator before it. -/
def entrySize (e : String × Json) : ℕ := textSize e.1 + wireSize e.2 + 2

def entriesSize (fields : List (String × Json)) : ℕ := (fields.map entrySize).sum

variable (key : String) (v : Json) (fields : List (String × Json)) (items : List Json)

@[simp]
theorem wireSize_str (s : String) : wireSize (.str s) = textSize s := rfl

theorem entriesSize_cons : entriesSize ((key, v) :: fields) =
    textSize key + wireSize v + 2 + entriesSize fields := by
  rw [entriesSize, List.map_cons, List.sum_cons, entriesSize]
  rfl

theorem entriesSize_append (fields' : List (String × Json)) :
    entriesSize (fields ++ fields') = entriesSize fields + entriesSize fields' := by
  rw [entriesSize, List.map_append, List.sum_append, entriesSize, entriesSize]

theorem wireSize_object : wireSize (.obj ((key, v) :: fields)) =
    entriesSize ((key, v) :: fields) + 1 := bytes_object (key, v) fields

theorem wireSize_array : wireSize (.arr (v :: items)) =
    ((v :: items).map wireSize).sum + (v :: items).length + 1 := by
  have hitems (l : List Json) : (l.map (itemBytes false)).sum = (l.map wireSize).sum + l.length := by
    induction l with
    | nil => rfl
    | cons w l ih =>
      have hw : itemBytes false w = wireSize w + 1 := rfl
      rw [List.map_cons, List.sum_cons, ih, hw, List.map_cons, List.sum_cons, List.length_cons]
      omega
  rw [wireSize, bytes_array, hitems]

attribute [irreducible] wireSize textSize

end Wire

end JsonText
