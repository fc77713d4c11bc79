import ProjectControl.JsonText

/-! The text of a JSON value over several lines, as it is kept in files. The blanks between its
parts are passed over when it is read. -/

set_option autoImplicit false

namespace JsonText

section Write

/-- The end of a line and the indentation of the next one. -/
def newline (level : ℕ) : List Char := '\n' :: List.replicate (2 * level) ' '

/-- Files are written with ASCII characters only. -/
def lineStyle : Style := ⟨true, true⟩

mutual

/-- `json.dumps(…, indent=2)`, where the value stands `level` deep. -/
def indented (level : ℕ) : Json → List Char
  | .null => ['n', 'u', 'l', 'l']
  | .bool true => ['t', 'r', 'u', 'e']
  | .bool false => ['f', 'a', 'l', 's', 'e']
  | .num n => number n
  | .str s => quote lineStyle s
  | .arr [] => ['[', ']']
  | .arr (v :: items) =>
    '[' :: (newline (level + 1) ++ indented (level + 1) v ++ indentedItems level items)
  | .obj [] => ['{', '}']
  | .obj ((key, v) :: fields) =>
    '{' :: (newline (level + 1) ++ (quote lineStyle key ++ lineStyle.colon ++
      indented (level + 1) v) ++ indentedFields level fields)

def indentedItems (level : ℕ) : List Json → List Char
  | [] => newline level ++ [']']
  | v :: items =>
    ',' :: (newline (level + 1) ++ indented (level + 1) v ++ indentedItems level items)

def indentedFields (level : ℕ) : List (String × Json) → List Char
  | [] => newline level ++ ['}']
  | (key, v) :: fields =>
    ',' :: (newline (level + 1) ++ (quote lineStyle key ++ lineStyle.colon ++
      indented (level + 1) v) ++ indentedFields level fields)

end

end Write

section Read

variable {level n : ℕ} {rest : List Char}

theorem skip_newline (level : ℕ) (text : List Char) : skip (newline level ++ text) = skip text := by
  have hblanks (k : ℕ) : skip (List.replicate k ' ' ++ text) = skip text := by
    induction k with
    | zero => rfl
    | succ k ih => exact ih
  exact hblanks (2 * level)

theorem ends_newline (level : ℕ) (text : List Char) : Ends (newline level ++ text) := by
  refine ⟨rfl, fun c hc => ?_⟩
  obtain rfl := Option.some.inj hc
  rfl

theorem indented_cons (level : ℕ) (v : Json) : ∃ c text, indented level v = c :: text ∧
    blank c = false ∧ c ≠ ']' ∧ c ≠ '}' := by
  obtain ⟨c, text, htext, hc⟩ := render_cons lineStyle v
  -- a value starts as it does on one line
  have hhead : (indented level v).head? = (render lineStyle v).head? := by
    cases v with
    | null | num | str => rfl
    | bool b => cases b <;> rfl
    | arr items => cases items <;> rfl
    | obj fields => cases fields <;> rfl
  rw [htext] at hhead
  obtain ⟨text', htext'⟩ := List.head?_eq_some_iff.mp hhead
  exact ⟨c, text', htext', hc⟩

theorem skip_indented (v : Json) : skip (indented level v ++ rest) = indented level v ++ rest := by
  obtain ⟨c, text, htext, hblank, -, -⟩ := indented_cons level v
  rw [htext, List.cons_append, skip_cons hblank]

theorem ends_indentedItems (items : List Json) : Ends (indentedItems level items ++ rest) := by
  cases items with
  | nil =>
    rw [indentedItems, List.append_assoc]
    exact ends_newline level _
  | cons v items => exact ends_cons (Or.inl rfl)

theorem ends_indentedFields (fields : List (String × Json)) :
    Ends (indentedFields level fields ++ rest) := by
  cases fields with
  | nil =>
    rw [indentedFields, List.append_assoc]
    exact ends_newline level _
  | cons e fields => exact ends_cons (Or.inl rfl)

theorem readField_indented (key : String) {v : Json}
    (hread : readValue n (indented level v ++ rest) = some (v, rest)) :
    readField (n + 1) (quote lineStyle key ++ lineStyle.colon ++ indented level v ++ rest) =
      some ((key, v), rest) := by
  have htext : quote lineStyle key ++ lineStyle.colon ++ indented level v ++ rest =
      '"' :: (key.toList.flatMap (escape true) ++ '"' :: ':' :: ' ' :: (indented level v ++ rest)) := by
    simp [quote, Style.colon, lineStyle]
  have hquoted : readQuoted (key.toList.flatMap (escape true) ++
      '"' :: ':' :: ' ' :: (indented level v ++ rest)) =
        some (key, ':' :: ' ' :: (indented level v ++ rest)) := readQuoted_quote lineStyle key
  have hcolon : skip (':' :: ' ' :: (indented level v ++ rest)) =
      ':' :: ' ' :: (indented level v ++ rest) := skip_cons rfl
  have hskip : skip (' ' :: (indented level v ++ rest)) = indented level v ++ rest :=
    skip_blank.trans (skip_indented v)
  rw [htext, readField, if_pos rfl, hquoted]
  simp only [hcolon, List.head?_cons, if_true, List.drop_succ_cons, List.drop_zero, hskip, hread,
    Option.map_some]

mutual

theorem readValue_indented (v : Json) (hv : Canonical v) (level n : ℕ) (rest : List Char)
    (hn : (indented level v).length ≤ n) (hrest : Ends rest) :
    readValue n (indented level v ++ rest) = some (v, rest) := by
  obtain ⟨c, text, htext, -, -, -⟩ := indented_cons level v
  obtain ⟨k, rfl⟩ : ∃ k, n = k + 1 := by
    rw [htext, List.length_cons] at hn
    exact ⟨n - 1, by omega⟩
  cases v with
  | null => rfl
  | bool b =>
    cases b with
    | false => rfl
    | true => rfl
  | num i => exact @readValue_render lineStyle (.num i) hv (k + 1) rest hn hrest
  | str s => exact @readValue_render lineStyle (.str s) hv (k + 1) rest hn hrest
  | arr items =>
    cases items with
    | nil => rfl
    | cons v items =>
      rw [indented, List.length_cons, List.length_append, List.length_append] at hn
      have hvalue := readValue_indented v hv.1 (level + 1) k (indentedItems level items ++ rest)
        (by omega) (ends_indentedItems items)
      have hitems := readItems_indented items hv.2 level k rest (by omega)
      obtain ⟨c, text, htext, hblank, hclose, -⟩ := indented_cons (level + 1) v
      have hhead : (indented (level + 1) v ++ (indentedItems level items ++ rest)).head? ≠
          some ']' := by
        rw [htext]
        simpa using hclose
      rw [indented, List.cons_append, List.append_assoc, List.append_assoc, readValue,
        if_neg (by decide), if_pos rfl, skip_newline, skip_indented, if_neg hhead, hvalue]
      simp only [hitems, Option.map_some]
  | obj fields =>
    cases fields with
    | nil => rfl
    | cons e fields =>
      obtain ⟨key, v⟩ := e
      rw [indented] at hn
      simp only [List.length_cons, List.length_append] at hn
      have hquote : 0 < (quote lineStyle key).length := Nat.succ_pos _
      obtain ⟨j, rfl⟩ : ∃ j, k = j + 1 := ⟨k - 1, by omega⟩
      have hvalue := readValue_indented v hv.2.1 (level + 1) j (indentedFields level fields ++ rest)
        (by omega) (ends_indentedFields fields)
      have hfields := readFields_indented fields hv.2.2 level (j + 1) rest (by omega)
      have hfield := readField_indented key hvalue
      have hobject : object ((key, v) :: fields) = .obj ((key, v) :: fields) := object_sorted hv.1
      have hskip : skip (quote lineStyle key ++ lineStyle.colon ++ indented (level + 1) v ++
          (indentedFields level fields ++ rest)) = quote lineStyle key ++ lineStyle.colon ++
            indented (level + 1) v ++ (indentedFields level fields ++ rest) := skip_cons rfl
      have hhead : (quote lineStyle key ++ lineStyle.colon ++ indented (level + 1) v ++
          (indentedFields level fields ++ rest)).head? ≠ some '}' := by
        rw [quote]
        simp
      rw [indented, List.cons_append, List.append_assoc, List.append_assoc, readValue,
        if_neg (by decide), if_neg (by decide), if_pos rfl, skip_newline, hskip, if_neg hhead,
        hfield]
      simp only [hfields, Option.map_some, hobject]

theorem readItems_indented (items : List Json) (hitems : CanonicalItems items) (level n : ℕ)
    (rest : List Char) (hn : (indentedItems level items).length ≤ n) :
    readItems n (skip (indentedItems level items ++ rest)) = some (items, rest) := by
  cases items with
  | nil =>
    rw [indentedItems, List.length_append, List.length_singleton] at hn
    obtain ⟨k, rfl⟩ : ∃ k, n = k + 1 := ⟨n - 1, by omega⟩
    rw [indentedItems, List.append_assoc, skip_newline]
    rfl
  | cons v items =>
    rw [indentedItems, List.length_cons, List.length_append, List.length_append] at hn
    obtain ⟨k, rfl⟩ : ∃ k, n = k + 1 := ⟨n - 1, by omega⟩
    have hvalue := readValue_indented v hitems.1 (level + 1) k (indentedItems level items ++ rest)
      (by omega) (ends_indentedItems items)
    have hrest := readItems_indented items hitems.2 level k rest (by omega)
    rw [indentedItems, List.cons_append, List.append_assoc, List.append_assoc, skip_cons rfl,
      readItems, if_neg (by decide), if_pos rfl, skip_newline, skip_indented, hvalue]
    simp only [hrest, Option.map_some]

theorem readFields_indented (fields : List (String × Json)) (hfields : CanonicalFields fields)
    (level n : ℕ) (rest : List Char) (hn : (indentedFields level fields).length ≤ n) :
    readFields n (skip (indentedFields level fields ++ rest)) = some (fields, rest) := by
  cases fields with
  | nil =>
    rw [indentedFields, List.length_append, List.length_singleton] at hn
    obtain ⟨k, rfl⟩ : ∃ k, n = k + 1 := ⟨n - 1, by omega⟩
    rw [indentedFields, List.append_assoc, skip_newline]
    rfl
  | cons e fields =>
    obtain ⟨key, v⟩ := e
    have hquote : 0 < (quote lineStyle key).length := Nat.succ_pos _
    rw [indentedFields] at hn
    simp only [List.length_cons, List.length_append] at hn
    obtain ⟨j, rfl⟩ : ∃ j, n = j + 2 := ⟨n - 2, by omega⟩
    have hvalue := readValue_indented v hfields.1 (level + 1) j (indentedFields level fields ++ rest)
      (by omega) (ends_indentedFields fields)
    have hrest := readFields_indented fields hfields.2 level (j + 1) rest (by omega)
    have hfield := readField_indented key hvalue
    have hstart : skip (quote lineStyle key ++ lineStyle.colon ++ indented (level + 1) v ++
        (indentedFields level fields ++ rest)) = quote lineStyle key ++ lineStyle.colon ++
          indented (level + 1) v ++ (indentedFields level fields ++ rest) := skip_cons rfl
    rw [indentedFields, List.cons_append, List.append_assoc, List.append_assoc, skip_cons rfl,
      readFields, if_neg (by decide), if_pos rfl, skip_newline, hstart, hfield]
    simp only [hrest, Option.map_some]

end

/-- A document over several lines, with the newline at its end, is read as it was written. -/
theorem read_indented (v : Json) (hv : Canonical v) :
    read (indented 0 v ++ ['\n']) = some v := by
  have hread := readValue_indented v hv 0 (indented 0 v ++ ['\n']).length ['\n'] (by simp)
    (ends_newline 0 [])
  rw [read, skip_indented, hread]
  rfl

end Read

section Returns

theorem digitChar_ne_return : ∀ n < 16, n.digitChar ≠ '\r' := by decide

theorem return_not_mem_codeUnit {n : ℕ} (hn : n < 65536) : '\r' ∉ codeUnit n := by
  intro h
  simp only [codeUnit, hex, List.mem_cons, List.not_mem_nil, or_false] at h
  rcases h with h | h | h | h | h | h
  · exact absurd h (by decide)
  · exact absurd h (by decide)
  all_goals exact digitChar_ne_return _ (by omega) h.symm

theorem return_not_mem_unicode (c : Char) : '\r' ∉ unicode c.toNat := by
  have hrange : c.toNat < 0x110000 := by
    rcases c.valid with h | h
    · have : c.toNat < 0xd800 := h
      omega
    · exact h.2
  unfold unicode
  split
  · exact return_not_mem_codeUnit (by omega)
  · rw [List.mem_append, not_or]
    exact ⟨return_not_mem_codeUnit (by omega), return_not_mem_codeUnit (by omega)⟩

theorem return_not_mem_quote (style : Style) (s : String) : '\r' ∉ quote style s := by
  have hescape (c : Char) : '\r' ∉ escape style.ascii c := by
    unfold escape
    split_ifs with h₁ h₂ h₃ hreturn
    all_goals first
      | exact return_not_mem_unicode c
      | decide
      | exact fun h => hreturn (List.mem_singleton.mp h).symm
  intro h
  rcases List.mem_cons.mp h with h | h
  · exact absurd h (by decide)
  · rcases List.mem_append.mp h with h | h
    · obtain ⟨c, -, hc⟩ := List.mem_flatMap.mp h
      exact hescape c hc
    · exact absurd (List.mem_singleton.mp h) (by decide)

theorem return_not_mem_number (i : ℤ) : '\r' ∉ number i := by
  have hdigits (n : ℕ) : '\r' ∉ Nat.toDigits 10 n := fun h =>
    absurd (Nat.isDigit_of_mem_toDigits (by omega) (by omega) h) (by decide)
  cases i with
  | ofNat n => exact hdigits n
  | negSucc n =>
    intro h
    rcases List.mem_cons.mp h with h | h
    · exact absurd h (by decide)
    · exact hdigits (n + 1) h

theorem return_not_mem_newline (level : ℕ) : '\r' ∉ newline level := by
  intro h
  rcases List.mem_cons.mp h with h | h
  · exact absurd h (by decide)
  · exact absurd (List.eq_of_mem_replicate h) (by decide)

theorem return_not_mem_colon : '\r' ∉ lineStyle.colon := by decide

mutual

theorem return_not_mem_indented (level : ℕ) (v : Json) : '\r' ∉ indented level v := by
  cases v with
  | null => rw [indented]; decide
  | bool b => cases b <;> (rw [indented]; decide)
  | num i => exact return_not_mem_number i
  | str s => exact return_not_mem_quote lineStyle s
  | arr items =>
    cases items with
    | nil => rw [indented]; decide
    | cons v items =>
      simp only [indented, List.mem_cons, List.mem_append, not_or]
      exact ⟨by decide, ⟨return_not_mem_newline _, return_not_mem_indented _ v⟩,
        return_not_mem_indentedItems level items⟩
  | obj fields =>
    cases fields with
    | nil => rw [indented]; decide
    | cons e fields =>
      obtain ⟨key, v⟩ := e
      simp only [indented, List.mem_cons, List.mem_append, not_or]
      exact ⟨by decide, ⟨return_not_mem_newline _, ⟨return_not_mem_quote _ key, return_not_mem_colon⟩,
        return_not_mem_indented _ v⟩, return_not_mem_indentedFields level fields⟩

theorem return_not_mem_indentedItems (level : ℕ) (items : List Json) :
    '\r' ∉ indentedItems level items := by
  cases items with
  | nil =>
    simp only [indentedItems, List.mem_append, List.mem_singleton, not_or]
    exact ⟨return_not_mem_newline _, by decide⟩
  | cons v items =>
    simp only [indentedItems, List.mem_cons, List.mem_append, not_or]
    exact ⟨by decide, ⟨return_not_mem_newline _, return_not_mem_indented _ v⟩,
      return_not_mem_indentedItems level items⟩

theorem return_not_mem_indentedFields (level : ℕ) (fields : List (String × Json)) :
    '\r' ∉ indentedFields level fields := by
  cases fields with
  | nil =>
    simp only [indentedFields, List.mem_append, List.mem_singleton, not_or]
    exact ⟨return_not_mem_newline _, by decide⟩
  | cons e fields =>
    obtain ⟨key, v⟩ := e
    simp only [indentedFields, List.mem_cons, List.mem_append, not_or]
    exact ⟨by decide, ⟨return_not_mem_newline _, ⟨return_not_mem_quote _ key, return_not_mem_colon⟩,
      return_not_mem_indented _ v⟩, return_not_mem_indentedFields level fields⟩

end

end Returns

end JsonText
