import Mathlib

/-! The unpadded URL-safe base64 of octets, and the lenient reader of Python, which skips what is
no character of the alphabet. -/

set_option autoImplicit false

namespace Base64

section Write

/-- The character of six bits. -/
def digit (n : ℕ) : Char :=
  if n < 26 then Char.ofNat (n + 65)
  else if n < 52 then Char.ofNat (n + 71)
  else if n < 62 then Char.ofNat (n - 4)
  else if n = 62 then '-'
  else '_'

def encode : List ℕ → List Char
  | [] => []
  | [a] => [digit (a / 4), digit (a % 4 * 16)]
  | [a, b] => [digit (a / 4), digit (a % 4 * 16 + b / 16), digit (b % 16 * 4)]
  | a :: b :: c :: rest =>
    digit (a / 4) :: digit (a % 4 * 16 + b / 16) :: digit (b % 16 * 4 + c / 64) ::
      digit (c % 64) :: encode rest

/-- A text with the padding that its length asks for. -/
def padded (text : List Char) : List Char :=
  text ++ List.replicate ((4 - text.length % 4) % 4) '='

end Write

section Read

/-- Six bits of a character, in either of the two alphabets. -/
def bits? (c : Char) : Option ℕ :=
  if 'A' ≤ c ∧ c ≤ 'Z' then some (c.toNat - 65)
  else if 'a' ≤ c ∧ c ≤ 'z' then some (c.toNat - 71)
  else if '0' ≤ c ∧ c ≤ '9' then some (c.toNat + 4)
  else if c = '+' ∨ c = '-' then some 62
  else if c = '/' ∨ c = '_' then some 63
  else none

/-- How many characters of the quad are read, with the bits that are left of the last one. -/
inductive Quad
  | start
  | one (left : ℕ)
  | two (left : ℕ)
  | three (left : ℕ)

/-- The padding characters that still belong to the quad after so many of them. -/
def Quad.closed (pads : ℕ) : Quad → Bool
  | .two _ => 2 ≤ pads
  | .three _ => 1 ≤ pads
  | _ => false

def Quad.pads (pads : ℕ) : Quad → ℕ
  | .two _ => pads + 1
  | .three _ => pads + 1
  | _ => pads

/-- `binascii.a2b_base64` without its strict mode. A quad that is closed by its padding ends the
text; other padding is skipped, as all that is no character of the alphabet. -/
def scan : Quad → ℕ → List Char → Option (List ℕ)
  | .start, _, [] => some []
  | _, _, [] => none
  | quad, pads, c :: rest =>
    if c = '=' then
      if quad.closed (quad.pads pads) then some [] else scan quad (quad.pads pads) rest
    else
      match bits? c with
      | none => scan quad pads rest
      | some n =>
        match quad with
        | .start => scan (.one n) 0 rest
        | .one left => (scan (.two (n % 16)) 0 rest).map ((left * 4 + n / 16) :: ·)
        | .two left => (scan (.three (n % 4)) 0 rest).map ((left * 16 + n / 4) :: ·)
        | .three left => (scan .start 0 rest).map ((left * 64 + n) :: ·)

/-- `base64.urlsafe_b64decode` of a text, which has to be ASCII. -/
def decode (text : List Char) : Option (List ℕ) :=
  if text.all (fun c => c.toNat < 128) then scan .start 0 text else none

end Read

section RoundTrip

theorem digit_bits : ∀ n < 64,
    bits? (digit n) = some n ∧ digit n ≠ '=' ∧ (digit n).toNat < 128 := by
  decide

variable {n : ℕ} {pads : ℕ} {rest : List Char}

theorem scan_start (hn : n < 64) :
    scan .start pads (digit n :: rest) = scan (.one n) 0 rest := by
  obtain ⟨hbits, hpad, _⟩ := digit_bits n hn
  rw [scan, if_neg hpad, hbits]

theorem scan_one {left : ℕ} (hn : n < 64) : scan (.one left) pads (digit n :: rest) =
    (scan (.two (n % 16)) 0 rest).map ((left * 4 + n / 16) :: ·) := by
  obtain ⟨hbits, hpad, _⟩ := digit_bits n hn
  rw [scan, if_neg hpad, hbits]

theorem scan_two {left : ℕ} (hn : n < 64) : scan (.two left) pads (digit n :: rest) =
    (scan (.three (n % 4)) 0 rest).map ((left * 16 + n / 4) :: ·) := by
  obtain ⟨hbits, hpad, _⟩ := digit_bits n hn
  rw [scan, if_neg hpad, hbits]

theorem scan_three {left : ℕ} (hn : n < 64) : scan (.three left) pads (digit n :: rest) =
    (scan .start 0 rest).map ((left * 64 + n) :: ·) := by
  obtain ⟨hbits, hpad, _⟩ := digit_bits n hn
  rw [scan, if_neg hpad, hbits]

/-- One whole quad. -/
theorem scan_quad {a b c : ℕ} (ha : a < 256) (hb : b < 256) (hc : c < 256) :
    scan .start 0 (digit (a / 4) :: digit (a % 4 * 16 + b / 16) :: digit (b % 16 * 4 + c / 64) ::
      digit (c % 64) :: rest) = (scan .start 0 rest).map (fun bytes => a :: b :: c :: bytes) := by
  rw [scan_start (by omega), scan_one (by omega), scan_two (by omega), scan_three (by omega)]
  have h1 : a / 4 * 4 + (a % 4 * 16 + b / 16) / 16 = a := by omega
  have h2 : (a % 4 * 16 + b / 16) % 16 * 16 + (b % 16 * 4 + c / 64) / 4 = b := by omega
  have h3 : (b % 16 * 4 + c / 64) % 4 * 64 + c % 64 = c := by omega
  rw [h1, h2, h3]
  cases scan .start 0 rest <;> rfl

theorem scan_encode (bytes : List ℕ) (h : ∀ b ∈ bytes, b < 256) :
    scan .start 0 (padded (encode bytes)) = some bytes := by
  induction bytes using encode.induct with
  | case1 =>
    have htext : padded (encode []) = [] := rfl
    rw [htext, scan]
  | case2 a =>
    have ha : a < 256 := h a List.mem_cons_self
    have htext : padded (encode [a]) = [digit (a / 4), digit (a % 4 * 16), '=', '='] := rfl
    rw [htext, scan_start (by omega), scan_one (by omega)]
    have h1 : a / 4 * 4 + a % 4 * 16 / 16 = a := by omega
    rw [h1]
    rfl
  | case3 a b =>
    have ha : a < 256 := h a List.mem_cons_self
    have hb : b < 256 := h b (List.mem_cons_of_mem _ List.mem_cons_self)
    have htext : padded (encode [a, b]) =
        [digit (a / 4), digit (a % 4 * 16 + b / 16), digit (b % 16 * 4), '='] := rfl
    rw [htext, scan_start (by omega), scan_one (by omega), scan_two (by omega)]
    have h1 : a / 4 * 4 + (a % 4 * 16 + b / 16) / 16 = a := by omega
    have h2 : (a % 4 * 16 + b / 16) % 16 * 16 + b % 16 * 4 / 4 = b := by omega
    rw [h1, h2]
    rfl
  | case4 a b c rest ih =>
    have ha : a < 256 := h a (by simp)
    have hb : b < 256 := h b (by simp)
    have hc : c < 256 := h c (by simp)
    have htext : padded (encode (a :: b :: c :: rest)) =
        digit (a / 4) :: digit (a % 4 * 16 + b / 16) :: digit (b % 16 * 4 + c / 64) ::
          digit (c % 64) :: padded (encode rest) := by
      have hlength : ((encode rest).length + 1 + 1 + 1 + 1) % 4 = (encode rest).length % 4 := by
        omega
      simp only [padded, encode, List.length_cons, hlength, List.cons_append]
    rw [htext, scan_quad ha hb hc, ih (fun x hx => h x (by simp [hx]))]
    rfl

theorem encode_digits (bytes : List ℕ) (h : ∀ b ∈ bytes, b < 256) :
    ∀ c ∈ encode bytes, ∃ n < 64, c = digit n := by
  induction bytes using encode.induct with
  | case1 => exact nofun
  | case2 a =>
    have ha : a < 256 := h a List.mem_cons_self
    simp only [encode, List.forall_mem_cons]
    exact ⟨⟨_, by omega, rfl⟩, ⟨_, by omega, rfl⟩, nofun⟩
  | case3 a b =>
    have ha : a < 256 := h a List.mem_cons_self
    have hb : b < 256 := h b (List.mem_cons_of_mem _ List.mem_cons_self)
    simp only [encode, List.forall_mem_cons]
    exact ⟨⟨_, by omega, rfl⟩, ⟨_, by omega, rfl⟩, ⟨_, by omega, rfl⟩, nofun⟩
  | case4 a b c rest ih =>
    have ha : a < 256 := h a (by simp)
    have hb : b < 256 := h b (by simp)
    have hc : c < 256 := h c (by simp)
    simp only [encode, List.forall_mem_cons]
    exact ⟨⟨_, by omega, rfl⟩, ⟨_, by omega, rfl⟩, ⟨_, by omega, rfl⟩, ⟨_, by omega, rfl⟩,
      ih fun x hx => h x (by simp [hx])⟩

theorem encode_ascii (bytes : List ℕ) (h : ∀ b ∈ bytes, b < 256) :
    ∀ c ∈ encode bytes, c.toNat < 128 := by
  intro c hc
  obtain ⟨n, hn, rfl⟩ := encode_digits bytes h c hc
  exact (digit_bits n hn).2.2

/-- What was encoded is read back after padding. -/
theorem decode_encode (bytes : List ℕ) (h : ∀ b ∈ bytes, b < 256) :
    decode (padded (encode bytes)) = some bytes := by
  have hascii : (padded (encode bytes)).all (fun c => c.toNat < 128) = true := by
    rw [List.all_eq_true]
    intro c hc
    rcases List.mem_append.mp hc with hc | hc
    · exact decide_eq_true (encode_ascii bytes h c hc)
    · rw [List.eq_of_mem_replicate hc]
      rfl
  rw [decode, if_pos hascii, scan_encode bytes h]

theorem encode_eq_nil {bytes : List ℕ} (h : encode bytes = []) : bytes = [] := by
  cases bytes using encode.fun_cases with
  | case1 => rfl
  | _ => cases h

end RoundTrip

section Standard

/-- The standard alphabet has two other characters. -/
def standard (c : Char) : Char := if c = '-' then '+' else if c = '_' then '/' else c

/-- `base64.b64encode`. -/
def encodeStandard (bytes : List ℕ) : List Char := padded ((encode bytes).map standard)

def alphabet (c : Char) : Bool := c ≠ '-' && c ≠ '_' && (bits? c).isSome

/-- `base64.b64decode` with validation: characters of the alphabet, and the padding that their
number asks for. -/
def decodeStandard (text : List Char) : Option (List ℕ) :=
  let body := text.takeWhile (· ≠ '=')
  if body.all alphabet && body.length % 4 ≠ 1 && text = padded body then scan .start 0 text
  else none

theorem standard_bits (c : Char) : bits? (standard c) = bits? c := by
  unfold standard
  split_ifs with hminus hline
  · subst hminus
    rfl
  · subst hline
    rfl
  · rfl

theorem standard_pad {c : Char} : standard c = '=' ↔ c = '=' := by
  unfold standard
  split_ifs with hminus hline
  · subst hminus
    decide
  · subst hline
    decide
  · exact Iff.rfl

/-- The reader does not tell the alphabets apart. -/
theorem scan_standard (quad : Quad) (pads : ℕ) (text : List Char) :
    scan quad pads (text.map standard) = scan quad pads text := by
  induction text generalizing quad pads with
  | nil => rfl
  | cons c rest ih =>
    cases quad <;>
      (rw [List.map_cons, scan, scan]; simp only [standard_pad, standard_bits, ih])

theorem padded_standard (text : List Char) :
    padded (text.map standard) = (padded text).map standard := by
  rw [padded, padded, List.map_append, List.map_replicate, List.length_map]
  rfl

theorem encode_length (bytes : List ℕ) : (encode bytes).length % 4 ≠ 1 := by
  induction bytes using encode.induct with
  | case1 => decide
  | case2 a => simp [encode]
  | case3 a b => simp [encode]
  | case4 a b c rest ih =>
    simp only [encode, List.length_cons]
    omega

theorem digit_standard : ∀ n < 64,
    alphabet (standard (digit n)) = true ∧ standard (digit n) ≠ '=' := by
  decide

/-- What was encoded with the standard alphabet is read back. -/
theorem decodeStandard_encode (bytes : List ℕ) (h : ∀ b ∈ bytes, b < 256) :
    decodeStandard (encodeStandard bytes) = some bytes := by
  have hchar : ∀ c ∈ (encode bytes).map standard, alphabet c = true ∧ c ≠ '=' := by
    intro c hc
    obtain ⟨d, hd, rfl⟩ := List.mem_map.mp hc
    obtain ⟨n, hn, rfl⟩ := encode_digits bytes h d hd
    exact digit_standard n hn
  have hbody : (encodeStandard bytes).takeWhile (· ≠ '=') = (encode bytes).map standard := by
    rw [encodeStandard, padded, List.takeWhile_append_of_pos fun c hc =>
      decide_eq_true (hchar c hc).2, List.takeWhile_replicate]
    exact List.append_nil _
  have halphabet : ((encode bytes).map standard).all alphabet = true :=
    List.all_eq_true.mpr fun c hc => (hchar c hc).1
  have hlength : ((encode bytes).map standard).length % 4 ≠ 1 := by
    rw [List.length_map]
    exact encode_length bytes
  rw [decodeStandard, hbody]
  simp only [halphabet, hlength, encodeStandard, ne_eq, not_false_eq_true, decide_true,
    Bool.and_self, if_true]
  rw [padded_standard, scan_standard, scan_encode bytes h]

end Standard

end Base64
