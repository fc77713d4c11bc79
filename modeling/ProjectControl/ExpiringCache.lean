import Mathlib.Data.Rat.Defs
import Mathlib.Algebra.Order.Ring.Rat

/-! A cache whose entries expire some time after they were put and of which the ones that were
not used for longest are dropped where there are too many. -/

set_option autoImplicit false

structure CacheEntry (α : Type) where
  expiresAt : ℚ
  value : α

/-- The entries, the one that was used last at the end. -/
structure ExpiringCache (K α : Type) where
  ttl : ℚ
  maxItems : ℕ
  items : List (K × CacheEntry α) := []

namespace ExpiringCache

variable {K α : Type} [DecidableEq K] (c : ExpiringCache K α) (key : K) (now : ℚ)

def lookup : Option (CacheEntry α) := (c.items.find? fun e => e.1 = key).map Prod.snd

def without : List (K × CacheEntry α) := c.items.filter fun e => e.1 ≠ key

/-- What is found at a time, and the cache afterwards. -/
def get : Option α × ExpiringCache K α :=
  match c.lookup key with
  | none => (none, c)
  | some entry =>
    if entry.expiresAt < now then (none, { c with items := c.without key })
    else (some entry.value, { c with items := c.without key ++ [(key, entry)] })

def put (value : α) : ExpiringCache K α :=
  let items := c.without key ++ [(key, ⟨now + c.ttl, value⟩)]
  { c with items := items.drop (items.length - c.maxItems) }

variable {c key now} {value : α} {e : K × CacheEntry α}

theorem mem_of_lookup {entry : CacheEntry α} (h : c.lookup key = some entry) :
    (key, entry) ∈ c.items := by
  obtain ⟨e, he, rfl⟩ := Option.map_eq_some_iff.mp h
  have hkey : e.1 = key := by simpa using List.find?_some he
  rw [← hkey]
  exact List.mem_of_find?_eq_some he

/-- What is found was put under the key and has not expired. -/
theorem get_some (h : (c.get key now).1 = some value) :
    ∃ expiresAt, (key, ⟨expiresAt, value⟩) ∈ c.items ∧ now ≤ expiresAt := by
  unfold get at h
  split at h
  · cases h
  · next entry hentry =>
    split at h
    · cases h
    · next hlive =>
      obtain rfl := Option.some.inj h
      exact ⟨entry.expiresAt, mem_of_lookup hentry, not_lt.mp hlive⟩

theorem get_ttl : (c.get key now).2.ttl = c.ttl := by
  unfold get
  split
  · rfl
  · split <;> rfl

theorem mem_get (h : e ∈ (c.get key now).2.items) : e ∈ c.items := by
  unfold get at h
  split at h
  · exact h
  · next entry hentry =>
    split at h
    · exact (List.mem_filter.mp h).1
    · rcases List.mem_append.mp h with h | h
      · exact (List.mem_filter.mp h).1
      · rw [List.mem_singleton.mp h]
        exact mem_of_lookup hentry

theorem mem_put (h : e ∈ (c.put key now value).items) :
    e = (key, ⟨now + c.ttl, value⟩) ∨ e ∈ c.items := by
  rcases List.mem_append.mp (List.mem_of_mem_drop h) with h | h
  · exact .inr (List.mem_filter.mp h).1
  · exact .inl (List.mem_singleton.mp h)

end ExpiringCache
