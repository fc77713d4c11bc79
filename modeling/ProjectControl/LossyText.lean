import Mathlib.Data.List.Basic
import Mathlib.Data.Nat.Notation

/-! Text in UTF-8, and a reader that never fails: what is not well formed is replaced by the
replacement character, as little of it at a time as possible. -/

set_option autoImplicit false

namespace LossyText

section Machine

def encodeChar (c : Char) : List ℕ :=
  if c.toNat < 0x80 then [c.toNat]
  else if c.toNat < 0x800 then [0xC0 + c.toNat / 64, 0x80 + c.toNat % 64]
  else if c.toNat < 0x10000 then
    [0xE0 + c.toNat / 4096, 0x80 + c.toNat / 64 % 64, 0x80 + c.toNat % 64]
  else [0xF0 + c.toNat / 262144, 0x80 + c.toNat / 4096 % 64, 0x80 + c.toNat / 64 % 64,
    0x80 + c.toNat % 64]

def encode (text : List Char) : List ℕ := text.flatMap encodeChar

/-- A character of which `needed + 1` bytes are to come, the next one between `low` and `high`. -/
structure Pending where
  needed : ℕ
  value : ℕ
  low : ℕ
  high : ℕ
  above : 0x80 ≤ low

def replacement : Char := '\ufffd'

/-- The first byte of a character. -/
def first (b : ℕ) : List Char × Option Pending :=
  if b < 0x80 then ([Char.ofNat b], none)
  else if 0xC2 ≤ b ∧ b ≤ 0xDF then ([], some ⟨0, b - 0xC0, 0x80, 0xBF, by decide⟩)
  else if b = 0xE0 then ([], some ⟨1, 0, 0xA0, 0xBF, by decide⟩)
  else if b = 0xED then ([], some ⟨1, 13, 0x80, 0x9F, by decide⟩)
  else if 0xE1 ≤ b ∧ b ≤ 0xEF then ([], some ⟨1, b - 0xE0, 0x80, 0xBF, by decide⟩)
  else if b = 0xF0 then ([], some ⟨2, 0, 0x90, 0xBF, by decide⟩)
  else if b = 0xF4 then ([], some ⟨2, 4, 0x80, 0x8F, by decide⟩)
  else if 0xF1 ≤ b ∧ b ≤ 0xF3 then ([], some ⟨2, b - 0xF0, 0x80, 0xBF, by decide⟩)
  else ([replacement], none)

/-- What a byte writes and what it leaves pending. A byte that does not continue the pending
character ends it and is read as the first byte of the next one. -/
def step : Option Pending → ℕ → List Char × Option Pending
  | none, b => first b
  | some p, b =>
    if p.low ≤ b ∧ b ≤ p.high then
      match p.needed with
      | 0 => ([Char.ofNat (p.value * 64 + (b - 0x80))], none)
      | n + 1 => ([], some ⟨n, p.value * 64 + (b - 0x80), 0x80, 0xBF, Nat.le_refl _⟩)
    else (replacement :: (first b).1, (first b).2)

def decodeFrom : Option Pending → List ℕ → List Char
  | none, [] => []
  | some _, [] => [replacement]
  | p, b :: rest => (step p b).1 ++ decodeFrom (step p b).2 rest

def decode (bytes : List ℕ) : List Char := decodeFrom none bytes

end Machine

section Ascii

variable {b : ℕ} {p : Option Pending}

theorem first_ascii (hb : b < 0x80) : first b = ([Char.ofNat b], none) := if_pos hb

/-- A byte below 128 stands for itself whatever came before it. -/
theorem step_ascii (hb : b < 0x80) :
    step p b = (decodeFrom p [] ++ [Char.ofNat b], none) := by
  cases p with
  | none => exact first_ascii hb
  | some p =>
    have hlow : ¬ (p.low ≤ b ∧ b ≤ p.high) := fun h =>
      Nat.not_lt.mpr (Nat.le_trans p.above h.1) hb
    rw [step, if_neg hlow, first_ascii hb]
    rfl

theorem decodeFrom_append_ascii (hb : b < 0x80) (before after : List ℕ) :
    decodeFrom p (before ++ b :: after) =
      decodeFrom p before ++ Char.ofNat b :: decode after := by
  induction before generalizing p with
  | nil => rw [List.nil_append, decodeFrom, step_ascii hb, List.append_assoc]; rfl
  | cons c before ih => rw [List.cons_append, decodeFrom, ih, decodeFrom, List.append_assoc]

theorem decode_append_ascii (hb : b < 0x80) (before after : List ℕ) :
    decode (before ++ b :: after) = decode before ++ Char.ofNat b :: decode after :=
  decodeFrom_append_ascii hb before after

end Ascii

section RoundTrip

variable {p : Option Pending} {rest : List ℕ}

theorem decodeFrom_cons (b : ℕ) (rest : List ℕ) :
    decodeFrom p (b :: rest) = (step p b).1 ++ decodeFrom (step p b).2 rest := by
  cases p <;> rfl

theorem decodeFrom_last {value low high b : ℕ} {above : 0x80 ≤ low} (hb : low ≤ b ∧ b ≤ high) :
    decodeFrom (some ⟨0, value, low, high, above⟩) (b :: rest) =
      Char.ofNat (value * 64 + (b - 0x80)) :: decode rest := by
  rw [decodeFrom_cons, step, if_pos hb]
  rfl

theorem decodeFrom_next {n value low high b : ℕ} {above : 0x80 ≤ low}
    (hb : low ≤ b ∧ b ≤ high) :
    decodeFrom (some ⟨n + 1, value, low, high, above⟩) (b :: rest) =
      decodeFrom (some ⟨n, value * 64 + (b - 0x80), 0x80, 0xBF, Nat.le_refl _⟩) rest := by
  rw [decodeFrom_cons, step, if_pos hb]
  rfl

/-- The first byte of a character of several bytes only leaves them pending. -/
theorem decode_cons_of_first {b : ℕ} {p : Pending} (hb : first b = ([], some p)) :
    decode (b :: rest) = decodeFrom (some p) rest := by
  rw [decode, decodeFrom_cons, step, hb]
  rfl

theorem first_three {n : ℕ} (hlow : 0x800 ≤ n) (hhigh : n < 0x10000)
    (hvalid : n < 0xd800 ∨ 0xdfff < n) : ∃ low high above,
      first (0xE0 + n / 4096) = ([], some ⟨1, n / 4096, low, high, above⟩) ∧
        low ≤ 0x80 + n / 64 % 64 ∧ 0x80 + n / 64 % 64 ≤ high := by
  by_cases h0 : n / 4096 = 0
  · refine ⟨0xA0, 0xBF, by decide, ?_, by omega, by omega⟩
    rw [h0]
    rfl
  by_cases h13 : n / 4096 = 13
  · refine ⟨0x80, 0x9F, by decide, ?_, by omega, by omega⟩
    rw [h13]
    rfl
  · refine ⟨0x80, 0xBF, by decide, ?_, by omega, by omega⟩
    rw [first, if_neg (by omega), if_neg (by omega), if_neg (by omega), if_neg (by omega),
      if_pos (by omega), Nat.add_sub_cancel_left]

theorem first_four {n : ℕ} (hlow : 0x10000 ≤ n) (hhigh : n < 0x110000) : ∃ low high above,
    first (0xF0 + n / 262144) = ([], some ⟨2, n / 262144, low, high, above⟩) ∧
      low ≤ 0x80 + n / 4096 % 64 ∧ 0x80 + n / 4096 % 64 ≤ high := by
  by_cases h0 : n / 262144 = 0
  · refine ⟨0x90, 0xBF, by decide, ?_, by omega, by omega⟩
    rw [h0]
    rfl
  by_cases h4 : n / 262144 = 4
  · refine ⟨0x80, 0x8F, by decide, ?_, by omega, by omega⟩
    rw [h4]
    rfl
  · refine ⟨0x80, 0xBF, by decide, ?_, by omega, by omega⟩
    rw [first, if_neg (by omega), if_neg (by omega), if_neg (by omega), if_neg (by omega),
      if_neg (by omega), if_neg (by omega), if_neg (by omega), if_pos (by omega),
      Nat.add_sub_cancel_left]

/-- A character is read as it was written. -/
theorem decode_encodeChar (c : Char) (rest : List ℕ) :
    decode (encodeChar c ++ rest) = c :: decode rest := by
  have hvalid : c.toNat < 0xd800 ∨ 0xdfff < c.toNat ∧ c.toNat < 0x110000 := c.valid
  have hc : Char.ofNat c.toNat = c := Char.ofNat_toNat c
  unfold encodeChar
  split
  · next h1 =>
    rw [List.singleton_append, decode, decodeFrom_cons, step, first_ascii h1, hc]
    rfl
  split
  · next h1 h2 =>
    have hfirst : first (0xC0 + c.toNat / 64) =
        ([], some ⟨0, c.toNat / 64, 0x80, 0xBF, by decide⟩) := by
      rw [first, if_neg (by omega), if_pos (by omega), Nat.add_sub_cancel_left]
    have hsum : c.toNat / 64 * 64 + (0x80 + c.toNat % 64 - 0x80) = c.toNat := by omega
    rw [List.cons_append, decode_cons_of_first hfirst, List.singleton_append,
      decodeFrom_last (by omega), hsum, hc]
  split
  · next h1 h2 h3 =>
    obtain ⟨low, high, above, hfirst, hnext⟩ := first_three (Nat.le_of_not_lt h2) h3 (by omega)
    have hsum : (c.toNat / 4096 * 64 + (0x80 + c.toNat / 64 % 64 - 0x80)) * 64 +
        (0x80 + c.toNat % 64 - 0x80) = c.toNat := by omega
    rw [List.cons_append, decode_cons_of_first hfirst, List.cons_append, decodeFrom_next hnext,
      List.singleton_append, decodeFrom_last (by omega), hsum, hc]
  · next h1 h2 h3 =>
    obtain ⟨low, high, above, hfirst, hnext⟩ := first_four (Nat.le_of_not_lt h3) (by omega)
    have hsum : ((c.toNat / 262144 * 64 + (0x80 + c.toNat / 4096 % 64 - 0x80)) * 64 +
        (0x80 + c.toNat / 64 % 64 - 0x80)) * 64 + (0x80 + c.toNat % 64 - 0x80) = c.toNat := by
      omega
    rw [List.cons_append, decode_cons_of_first hfirst, List.cons_append, decodeFrom_next hnext,
      List.cons_append, decodeFrom_next (by omega), List.singleton_append,
      decodeFrom_last (by omega), hsum, hc]

/-- A text is read as it was written. -/
theorem decode_encode (text : List Char) : decode (encode text) = text := by
  induction text with
  | nil => rfl
  | cons c text ih => rw [encode, List.flatMap_cons, decode_encodeChar, ← encode, ih]

theorem encode_injective {text other : List Char} (h : encode text = encode other) :
    text = other := by
  rw [← decode_encode text, h, decode_encode]

end RoundTrip

section Zero

/-- Whatever continues the value completes a character that is not the one with code zero. -/
def Completes : ℕ → ℕ → Prop
  | 0, code => 0 < code ∧ code.isValidChar
  | n + 1, value => ∀ b, 0x80 ≤ b → b ≤ 0xBF → Completes n (value * 64 + (b - 0x80))

def Pending.Good (p : Pending) : Prop :=
  ∀ b, p.low ≤ b → b ≤ p.high → Completes p.needed (p.value * 64 + (b - 0x80))

theorem ofNat_ne_zero {n : ℕ} (hn : 0 < n) (hvalid : n.isValidChar) : Char.ofNat n ≠ '\x00' := by
  intro h
  have hcode : (Char.ofNat n).toNat = n := by rw [Char.ofNat, dif_pos hvalid]; rfl
  rw [h] at hcode
  exact Nat.ne_of_lt hn hcode

theorem first_good {b : ℕ} {p : Pending} (h : (first b).2 = some p) : p.Good := by
  unfold first at h
  split_ifs at h <;> cases h <;> intro c hlow hhigh <;>
    simp only [Completes, Nat.isValidChar] at * <;> intros <;> omega

theorem first_ne_zero {b : ℕ} (hb : b ≠ 0) : '\x00' ∉ (first b).1 := by
  unfold first
  split_ifs with hascii
  · have hvalid : b.isValidChar := Or.inl (Nat.lt_trans hascii (by decide))
    intro h
    exact ofNat_ne_zero (Nat.pos_of_ne_zero hb) hvalid (List.mem_singleton.mp h).symm
  all_goals simp [replacement]

theorem step_good {b : ℕ} {p : Option Pending} (hb : b ≠ 0) (hp : ∀ q, p = some q → q.Good) :
    '\x00' ∉ (step p b).1 ∧ ∀ q, (step p b).2 = some q → q.Good := by
  cases p with
  | none => exact ⟨first_ne_zero hb, fun q => first_good⟩
  | some p =>
    rw [step]
    split
    · next hrange =>
      have hgood := hp p rfl b hrange.1 hrange.2
      split
      · next hneeded =>
        rw [hneeded] at hgood
        refine ⟨fun h => ofNat_ne_zero hgood.1 hgood.2 (List.mem_singleton.mp h).symm, ?_⟩
        exact fun q hq => by cases hq
      · next n hneeded =>
        rw [hneeded] at hgood
        refine ⟨List.not_mem_nil, fun q hq => ?_⟩
        cases hq
        exact hgood
    · refine ⟨fun h => ?_, fun q => first_good⟩
      rcases List.mem_cons.mp h with h | h
      · exact absurd h (by decide)
      · exact first_ne_zero hb h

theorem decodeFrom_ne_zero {bytes : List ℕ} {p : Option Pending} (h0 : 0 ∉ bytes)
    (hp : ∀ q, p = some q → q.Good) : '\x00' ∉ decodeFrom p bytes := by
  induction bytes generalizing p with
  | nil =>
    cases p with
    | none => exact List.not_mem_nil
    | some p => simp [decodeFrom, replacement]
  | cons b bytes ih =>
    obtain ⟨hb, hrest⟩ := List.ne_and_not_mem_of_not_mem_cons h0
    obtain ⟨hout, hnext⟩ := step_good (Ne.symm hb) hp
    rw [decodeFrom_cons]
    intro h
    rcases List.mem_append.mp h with h | h
    · exact hout h
    · exact ih hrest hnext h

/-- Bytes without a zero are read without one. -/
theorem decode_ne_zero {bytes : List ℕ} (h0 : 0 ∉ bytes) : '\x00' ∉ decode bytes :=
  decodeFrom_ne_zero h0 (fun q hq => by cases hq)

/-- A text without the character with code zero is written without a zero. -/
theorem encode_ne_zero {text : List Char} (h0 : '\x00' ∉ text) : 0 ∉ encode text := by
  intro h
  obtain ⟨c, hc, hzero⟩ := List.mem_flatMap.mp h
  have hcode : c.toNat ≠ 0 := by
    intro hcode
    have hchar : c = '\x00' := by rw [← Char.ofNat_toNat c, hcode]
    exact h0 (hchar ▸ hc)
  unfold encodeChar at hzero
  split_ifs at hzero <;> simp only [List.mem_cons, List.not_mem_nil, or_false] at hzero <;> omega

end Zero

end LossyText
