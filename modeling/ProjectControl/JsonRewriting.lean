import Mathlib
import ProjectControl.Json

/-! Rewriting the objects inside a JSON value: what a value may become, and the traversals that
rewrite every object, or the objects along a chain of fields. -/

set_option autoImplicit false

namespace Rewriting

section Relation

/-- `w` is `v` with some of the objects inside it rewritten, one after the other. -/
inductive Rewritten (cut : Dict → Dict) : Json → Json → Prop
  | refl (v : Json) : Rewritten cut v v
  | trans {u v w : Json} : Rewritten cut u v → Rewritten cut v w → Rewritten cut u w
  | object (d : Dict) : Rewritten cut (.obj d) (.obj (cut d))
  | item (before after : List Json) {v w : Json} : Rewritten cut v w →
      Rewritten cut (.arr (before ++ v :: after)) (.arr (before ++ w :: after))
  | field (before after : Dict) (key : String) {v w : Json} : Rewritten cut v w →
      Rewritten cut (.obj (before ++ (key, v) :: after)) (.obj (before ++ (key, w) :: after))

variable {cut : Dict → Dict}

theorem rewritten_items {f : Json → Json} (items before : List Json)
    (h : ∀ v ∈ items, Rewritten cut v (f v)) :
    Rewritten cut (.arr (before ++ items)) (.arr (before ++ items.map f)) := by
  induction items generalizing before with
  | nil => exact .refl _
  | cons v items ih =>
    have hhead : Rewritten cut (.arr (before ++ v :: items)) (.arr (before ++ f v :: items)) :=
      .item before items (h v List.mem_cons_self)
    have htail := ih (before ++ [f v]) fun w hw => h w (List.mem_cons_of_mem v hw)
    rw [List.append_assoc, List.append_assoc] at htail
    exact hhead.trans htail

theorem rewritten_fields {f : String × Json → Json} (fields before : Dict)
    (h : ∀ e ∈ fields, Rewritten cut e.2 (f e)) :
    Rewritten cut (.obj (before ++ fields))
      (.obj (before ++ fields.map (fun e => (e.1, f e)))) := by
  induction fields generalizing before with
  | nil => exact .refl _
  | cons e fields ih =>
    have hhead : Rewritten cut (.obj (before ++ (e.1, e.2) :: fields))
        (.obj (before ++ (e.1, f e) :: fields)) :=
      .field before fields e.1 (h e List.mem_cons_self)
    have htail := ih (before ++ [(e.1, f e)]) fun e' he' => h e' (List.mem_cons_of_mem e he')
    rw [List.append_assoc, List.append_assoc] at htail
    exact hhead.trans htail

end Relation

section Depth

mutual

/-- How deep the containers of a value are nested. -/
def depth : Json → ℕ
  | .arr items => depthItems items + 1
  | .obj fields => depthFields fields + 1
  | _ => 0

def depthItems : List Json → ℕ
  | [] => 0
  | v :: items => max (depth v) (depthItems items)

def depthFields : List (String × Json) → ℕ
  | [] => 0
  | (_, v) :: fields => max (depth v) (depthFields fields)

end

end Depth

section Traversals

variable {α : Type} (cut : Dict → Dict) (look : Dict → List α) (key : String)

/-- Every object is rewritten, and then what it holds; the first argument bounds the depth. -/
def everywhere : ℕ → Json → Json
  | n + 1, .arr items => .arr (items.map (everywhere n))
  | n + 1, .obj fields => .obj ((cut fields).map (fun e => (e.1, everywhere n e.2)))
  | _, v => v

/-- What the objects are looked at for before each is rewritten, in the order of the traversal. -/
def visits : ℕ → Json → List α
  | n + 1, .arr items => items.flatMap (visits n)
  | n + 1, .obj fields => look fields ++ (cut fields).flatMap (fun e => visits n e.2)
  | _, _ => []

/-- An object is rewritten, and then the object under the key. -/
def along : ℕ → Dict → Dict
  | n + 1, fields => (cut fields).map (fun e => (e.1, match e.2 with
    | .obj inner => if e.1 = key then .obj (along n inner) else .obj inner
    | v => v))
  | 0, fields => fields

def visitsAlong : ℕ → Dict → List α
  | n + 1, fields => look fields ++ (cut fields).flatMap (fun e => match e.2 with
    | .obj inner => if e.1 = key then visitsAlong n inner else []
    | _ => [])
  | 0, _ => []

variable {cut} {key}

theorem rewritten_everywhere (n : ℕ) (v : Json) : Rewritten cut v (everywhere cut n v) := by
  induction n generalizing v with
  | zero => exact .refl v
  | succ n ih =>
    cases v with
    | arr items => exact rewritten_items items [] fun w _ => ih w
    | obj fields =>
      have hfields := rewritten_fields (cut fields) [] fun e _ => ih e.2
      exact (Rewritten.object fields).trans hfields
    | _ => exact .refl _

theorem rewritten_along (n : ℕ) (d : Dict) : Rewritten cut (.obj d) (.obj (along cut key n d)) := by
  induction n generalizing d with
  | zero => exact .refl _
  | succ n ih =>
    refine (Rewritten.object d).trans (rewritten_fields (cut d) [] fun e _ => ?_)
    cases hvalue : e.2 with
    | obj inner =>
      dsimp only
      split
      · exact ih inner
      · exact .refl _
    | _ => exact .refl _

theorem everywhere_num (n : ℕ) (i : ℤ) : everywhere cut n (.num i) = .num i := by
  cases n <;> rfl

/-- A list keeps its length. -/
theorem everywhere_arr (n : ℕ) (items : List Json) :
    ∃ items', everywhere cut n (.arr items) = .arr items' ∧ items'.length = items.length := by
  cases n with
  | zero => exact ⟨items, rfl, rfl⟩
  | succ n => exact ⟨items.map (everywhere cut n), rfl, List.length_map _⟩

end Traversals

end Rewriting
