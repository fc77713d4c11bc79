import Mathlib.Data.List.Basic
import ProjectControl.Json

/-! Places inside a JSON value: the way there by object keys and list positions, and the value
that stands there. -/

set_option autoImplicit false

namespace JsonPlaces

inductive Step
  | key (name : String)
  | index (i : ℕ)
  deriving DecidableEq

/-- The way from a value to something inside it. -/
abbrev Place := List Step

def child? (v : Json) (step : Step) : Option Json :=
  match v, step with
  | .obj fields, .key name => Dict.get fields name
  | .arr items, .index i => items[i]?
  | _, _ => none

def at? : Json → Place → Option Json
  | v, [] => some v
  | v, step :: place => (child? v step).bind (fun w => at? w place)

/-- What is seen of a value from outside: its keys, its length, that it is a text, or all of it. -/
inductive Outline
  | object (keys : List String)
  | list (length : ℕ)
  | text
  | scalar (v : Json)

def outline : Json → Outline
  | .obj fields => .object (fields.map Prod.fst)
  | .arr items => .list items.length
  | .str _ => .text
  | v => .scalar v

variable {v w x : Json} {step : Step} {place place' : Place}

@[simp] theorem at?_nil (v : Json) : at? v [] = some v := rfl

theorem at?_cons (v : Json) (step : Step) (place : Place) :
    at? v (step :: place) = (child? v step).bind (fun w => at? w place) := rfl

theorem at?_append : at? v (place ++ place') = (at? v place).bind (fun w => at? w place') := by
  induction place generalizing v with
  | nil => rfl
  | cons step place ih =>
    rw [List.cons_append, at?_cons, at?_cons, Option.bind_assoc]
    congr 1
    funext w
    exact ih

theorem at?_cons_of_child (h : child? v step = some w) : at? v (step :: place) = at? w place := by
  rw [at?_cons, h, Option.bind_some]

theorem at?_cons_of_none (h : child? v step = none) : at? v (step :: place) = none := by
  rw [at?_cons, h, Option.bind_none]

section Fields

variable {d : Dict} {key : String}

theorem mem_of_get (h : Dict.get d key = some v) : (key, v) ∈ d := by
  obtain ⟨before, after, hsplit, -⟩ := List.lookup_eq_some_iff.mp h
  exact hsplit ▸ List.mem_append_right before List.mem_cons_self

/-- Where no key stands twice a field is what its key finds. -/
theorem get_of_mem (hkeys : (d.map Prod.fst).Nodup) (h : (key, v) ∈ d) :
    Dict.get d key = some v := by
  obtain ⟨before, after, rfl⟩ := List.append_of_mem h
  rw [List.map_append, List.map_cons] at hkeys
  have hbefore : key ∉ before.map Prod.fst := by
    intro hmem
    exact (List.nodup_append.mp hkeys).2.2 key hmem key List.mem_cons_self rfl
  refine List.lookup_eq_some_iff.mpr ⟨before, after, rfl, fun e he => ?_⟩
  have hne : key ≠ e.1 := fun heq => hbefore (List.mem_map.mpr ⟨e, he, heq.symm⟩)
  exact bne_iff_ne.mpr hne

end Fields

end JsonPlaces
