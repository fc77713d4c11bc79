import Mathlib.Data.Nat.Basic
import ProjectControl.Words

/-! The three readers of the start time of a process, and the texts of `/proc/<pid>/stat`
that they read. -/

set_option autoImplicit false

namespace ProjectControl.Processes

open Words

section Text

/-- `str.isspace` of one character, which separates the words of `str.split`. -/
def isSpace (c : Char) : Bool :=
  let n := c.toNat
  (9 ≤ n && n ≤ 13) || (28 ≤ n && n ≤ 32) || n = 0x85 || n = 0xa0 || n = 0x1680 ||
    (0x2000 ≤ n && n ≤ 0x200a) || n = 0x2028 || n = 0x2029 || n = 0x202f || n = 0x205f ||
    n = 0x3000

/-- What `read_text` can raise. -/
inductive ReadError where
  | fileNotFound
  /-- Another `OSError`. -/
  | os
  | unicode
  deriving DecidableEq, Repr

/-- The file of a process. -/
inductive StatFile where
  | missing
  | unreadable
  | text (bytes : List UInt8)

def char (b : UInt8) : Char := Char.ofUInt8 b

def decodeAscii (bytes : List UInt8) : Except ReadError (List Char) :=
  if bytes.all (· < 128) then .ok (bytes.map char) else .error .unicode

def decodeUtf8 (bytes : List UInt8) : Except ReadError (List Char) :=
  match (ByteArray.mk bytes.toArray).utf8Decode? with
  | some chars => .ok chars.toList
  | none => .error .unicode

/-- `Path.read_text`, which opens the file with universal newlines. -/
def readText (decode : List UInt8 → Except ReadError (List Char)) :
    StatFile → Except ReadError (List Char)
  | .missing => .error .fileNotFound
  | .unreadable => .error .os
  | .text bytes => (decode bytes).map (newlines '\r' '\n')

theorem readText_text (decode : List UInt8 → Except ReadError (List Char)) (bytes : List UInt8) :
    readText decode (.text bytes) = (decode bytes).map (newlines '\r' '\n') := rfl

/-- `str.split` without an argument. -/
def split (text : List Char) : List (List Char) := words isSpace text

end Text

section Readers

/-- `host_resources.process._process_start`. Only `OSError` and `IndexError` are caught. -/
def Host.processStart (file : StatFile) : Except ReadError (Option String) :=
  match readText decodeUtf8 file with
  | .ok text => .ok ((split text)[21]?.map String.ofList)
  | .error .unicode => .error .unicode
  | .error .fileNotFound | .error .os => .ok none

/-- `native_providers._process_start`: the start time and the state of the process. -/
def Providers.processStart (file : StatFile) : Option String × Option String :=
  match readText decodeAscii file with
  | .error .fileNotFound => (none, some "gone")
  | .error .os | .error .unicode => (none, none)
  | .ok raw =>
    match afterLast ')' raw with
    | none => (none, none)
    | some rest =>
      let fields := split rest
      if fields.length ≤ 19 then (none, none)
      else (fields[19]?.map String.ofList, fields[0]?.map String.ofList)

/-- `device_scheduler._process_start`. -/
def DeviceScheduler.processStart (file : StatFile) : Except ReadError (Option String) :=
  match readText decodeAscii file with
  | .ok text =>
    .ok ((afterLast ')' text).bind (fun rest => (split rest)[19]?.map String.ofList))
  | .error .unicode => .error .unicode
  | .error .fileNotFound | .error .os => .ok none

end Readers

section Stat

/-- A decimal number as the kernel prints it. -/
structure Decimal (t : List UInt8) : Prop where
  nonempty : t ≠ []
  digits : ∀ b ∈ t, b = 45 ∨ 48 ≤ b ∧ b ≤ 57

/-- A process as its stat text shows it. -/
structure Stat where
  pid : List UInt8
  comm : List UInt8
  state : UInt8
  /-- The fields after the state. -/
  numbers : List (List UInt8)
  pid_decimal : Decimal pid
  comm_length : comm.length ≤ 15
  /-- The kernel ends a name at a NUL byte. -/
  comm_nul : 0 ∉ comm
  state_letter : 65 ≤ state ∧ state ≤ 90 ∨ 97 ≤ state ∧ state ≤ 122
  numbers_decimal : ∀ t ∈ numbers, Decimal t
  numbers_length : 19 ≤ numbers.length

variable (s : Stat)

/-- The second field: the name in parentheses. -/
def Stat.name : List UInt8 := 40 :: s.comm ++ [41]

/-- The fields after the name. -/
def Stat.fields : List (List UInt8) := [s.state] :: s.numbers

/-- What follows the name. -/
def Stat.tail : List UInt8 := s.fields.flatMap (fun t => 32 :: t) ++ [10]

def Stat.render : List UInt8 := s.pid ++ 32 :: (s.name ++ s.tail)

/-- Field 22, the start time. -/
def Stat.start : String := String.ofList ((s.numbers.getD 18 []).map char)

/-- The process is neither a zombie nor dead. -/
def Stat.Running : Prop := s.state ≠ 90 ∧ s.state ≠ 88 ∧ s.state ≠ 120

instance : Decidable s.Running := by unfold Stat.Running; infer_instance

def Stat.Ascii : Prop := ∀ b ∈ s.comm, b < 128

instance : Decidable s.Ascii := List.decidableBAll _ _

/-- How many words the name has beyond one. -/
def Stat.extraWords : ℕ := (split (s.name.map char)).length - 1

end Stat

section Bytes

variable {bytes t : List UInt8} {b : UInt8}

theorem char_toNat (b : UInt8) : (char b).toNat = b.toNat := UInt8.toNat_toUInt32 b

theorem char_injective : Function.Injective char := by
  intro a b h
  have hnat := congrArg Char.toNat h
  rw [char_toNat, char_toNat] at hnat
  exact UInt8.toNat_inj.mp hnat

theorem decodeAscii_ascii (h : ∀ b ∈ bytes, b < 128) :
    decodeAscii bytes = .ok (bytes.map char) :=
  if_pos (by simpa using h)

theorem decodeAscii_other (h : ¬ ∀ b ∈ bytes, b < 128) : decodeAscii bytes = .error .unicode :=
  if_neg (by simpa using h)

theorem utf8Encode_char (hb : b < 128) : String.utf8EncodeChar (char b) = [b] := by
  have hnat : (char b).val.toNat = b.toNat := char_toNat b
  have hsize : (char b).utf8Size = 1 := by
    rw [Char.utf8Size_eq_one_iff, UInt32.le_iff_toNat_le, hnat]
    have := UInt8.lt_iff_toNat_lt.mp hb
    simp at this ⊢
    omega
  rw [String.utf8EncodeChar_eq_singleton hsize]
  congr 1
  apply UInt8.toNat_inj.mp
  rw [UInt32.toNat_toUInt8, hnat]
  exact Nat.mod_eq_of_lt b.toNat_lt

/-- On a text of ASCII both decoders agree. -/
theorem decodeUtf8_ascii (h : ∀ b ∈ bytes, b < 128) : decodeUtf8 bytes = .ok (bytes.map char) := by
  have hencode : (bytes.map char).utf8Encode = ByteArray.mk bytes.toArray := by
    induction bytes with
    | nil => rfl
    | cons b rest ih =>
      rw [List.forall_mem_cons] at h
      rw [List.map_cons, List.utf8Encode_cons, ih h.2, List.utf8Encode_singleton,
        utf8Encode_char h.1]
      rfl
  unfold decodeUtf8
  rw [← hencode, List.utf8Decode?_utf8Encode]

/-- The bytes of numbers and letters. -/
theorem plain_of_range (hb : b.toNat = 45 ∨ 48 ≤ b.toNat ∧ b.toNat ≤ 122) :
    b < 128 ∧ isSpace (char b) = false ∧ b ≠ 41 ∧ b ≠ 13 := by
  have hspace : isSpace (char b) = false := by
    unfold isSpace
    rw [char_toNat]
    simp only [Bool.or_eq_false_iff, Bool.and_eq_false_iff, decide_eq_false_iff_not]
    omega
  refine ⟨UInt8.lt_iff_toNat_lt.mpr ?_, hspace, fun h => ?_, fun h => ?_⟩
  · rw [show (128 : UInt8).toNat = 128 from rfl]
    omega
  · rw [h, show (41 : UInt8).toNat = 41 from rfl] at hb
    omega
  · rw [h, show (13 : UInt8).toNat = 13 from rfl] at hb
    omega

theorem Decimal.plain (ht : Decimal t) (hb : b ∈ t) :
    b < 128 ∧ isSpace (char b) = false ∧ b ≠ 41 ∧ b ≠ 13 := by
  refine plain_of_range ?_
  rcases ht.digits b hb with rfl | ⟨hlow, hhigh⟩
  · exact .inl rfl
  · have hlow := UInt8.le_iff_toNat_le.mp hlow
    have hhigh := UInt8.le_iff_toNat_le.mp hhigh
    rw [show (48 : UInt8).toNat = 48 from rfl] at hlow
    rw [show (57 : UInt8).toNat = 57 from rfl] at hhigh
    omega

theorem letter_plain (hb : 65 ≤ b ∧ b ≤ 90 ∨ 97 ≤ b ∧ b ≤ 122) :
    b < 128 ∧ isSpace (char b) = false ∧ b ≠ 41 ∧ b ≠ 13 := by
  refine plain_of_range ?_
  simp only [UInt8.le_iff_toNat_le, show (65 : UInt8).toNat = 65 from rfl,
    show (90 : UInt8).toNat = 90 from rfl, show (97 : UInt8).toNat = 97 from rfl,
    show (122 : UInt8).toNat = 122 from rfl] at hb
  omega

theorem Decimal.token (ht : Decimal t) : Token isSpace (t.map char) where
  nonempty := by simpa using ht.nonempty
  plain := by
    intro c hc
    obtain ⟨b, hb, rfl⟩ := List.mem_map.mp hc
    exact (ht.plain hb).2.1

end Bytes

section Shape

variable (s : Stat)

theorem Stat.field_plain {t : List UInt8} (ht : t ∈ s.fields) :
    t ≠ [] ∧ ∀ b ∈ t, b < 128 ∧ isSpace (char b) = false ∧ b ≠ 41 ∧ b ≠ 13 := by
  rcases List.mem_cons.mp ht with rfl | ht
  · refine ⟨List.cons_ne_nil _ _, fun b hb => ?_⟩
    rw [List.mem_singleton.mp hb]
    exact letter_plain s.state_letter
  · have hdecimal := s.numbers_decimal t ht
    exact ⟨hdecimal.nonempty, fun b hb => hdecimal.plain hb⟩

theorem Stat.tail_plain {b : UInt8} (hb : b ∈ s.tail) : b < 128 ∧ b ≠ 41 ∧ b ≠ 13 := by
  rcases List.mem_append.mp hb with hb | hb
  · obtain ⟨t, ht, hb⟩ := List.mem_flatMap.mp hb
    rcases List.mem_cons.mp hb with rfl | hb
    · decide
    · obtain ⟨hascii, -, hplain⟩ := (s.field_plain ht).2 b hb
      exact ⟨hascii, hplain⟩
  · rw [List.mem_singleton.mp hb]
    decide

/-- The fields after the name are the words of what follows it. -/
theorem Stat.split_tail : split (s.tail.map char) = s.fields.map (List.map char) := by
  have hshape : s.tail.map char =
      (s.fields.map (List.map char)).flatMap (fun t => ' ' :: t) ++ ['\n'] := by
    unfold Stat.tail
    rw [List.map_append, List.map_flatMap, List.flatMap_map]
    rfl
  rw [hshape]
  refine words_line rfl rfl (fun word hword => ?_)
  obtain ⟨t, ht, rfl⟩ := List.mem_map.mp hword
  obtain ⟨hne, hplain⟩ := s.field_plain ht
  refine ⟨by simpa using hne, fun c hc => ?_⟩
  obtain ⟨b, hb, rfl⟩ := List.mem_map.mp hc
  exact (hplain b hb).2.1

theorem Stat.tail_cons : ∃ rest, s.tail = 32 :: rest := ⟨_, rfl⟩

/-- The words of the whole text. -/
theorem Stat.split_render : split (s.render.map char) =
    s.pid.map char :: split (s.name.map char) ++ s.fields.map (List.map char) := by
  obtain ⟨rest, hrest⟩ := s.tail_cons
  have htail : split (rest.map char) = s.fields.map (List.map char) := by
    rw [← s.split_tail, hrest, List.map_cons]
    exact (words_sep_cons rfl _).symm
  have hname : split (s.name.map char ++ ' ' :: rest.map char) =
      split (s.name.map char) ++ split (rest.map char) := words_append_sep rfl _ _
  have hpid : split (s.pid.map char ++ ' ' :: (s.name.map char ++ ' ' :: rest.map char)) =
      split (s.pid.map char) ++ split (s.name.map char ++ ' ' :: rest.map char) :=
    words_append_sep rfl _ _
  have hshape : s.render.map char =
      s.pid.map char ++ ' ' :: (s.name.map char ++ ' ' :: rest.map char) := by
    unfold Stat.render
    rw [hrest, List.map_append, List.map_cons, List.map_append, List.map_cons]
    rfl
  rw [hshape, hpid, hname, htail, ← List.append_assoc]
  exact congrArg (· ++ split (s.name.map char) ++ s.fields.map (List.map char))
    (words_token s.pid_decimal.token)

theorem Stat.render_ascii : (∀ b ∈ s.render, b < 128) ↔ s.Ascii := by
  constructor
  · intro h b hb
    apply h
    simp [Stat.render, Stat.name, hb]
  · intro h b hb
    simp only [Stat.render, Stat.name, List.mem_append, List.mem_cons, List.not_mem_nil,
      or_false] at hb
    rcases hb with hb | rfl | ((rfl | hb) | rfl) | hb
    · exact (s.pid_decimal.plain hb).1
    · decide
    · decide
    · exact h b hb
    · decide
    · exact (s.tail_plain hb).1

/-- A name of 15 bytes has room for nine words. -/
theorem Stat.extraWords_le : s.extraWords ≤ 8 ∧
    (split (s.name.map char)).length = s.extraWords + 1 := by
  have hfew : 2 * (words isSpace (s.name.map char)).length ≤ (s.name.map char).length + 1 :=
    words_length_le _
  have hlength := s.comm_length
  have hname : (s.name.map char).length = s.comm.length + 2 := by simp [Stat.name]
  have hsome : split (s.name.map char) ≠ [] := words_cons_ne_nil rfl _
  have hpos := List.length_pos_iff.mpr hsome
  unfold Stat.extraWords
  unfold split at hpos ⊢
  omega

end Shape

section Agreement

variable {s : Stat}

/-- A reader answers with the start time or with no observation. -/
def Stat.Answers (s : Stat) (answer : Except ReadError (Option String)) : Prop :=
  answer = .ok none ∨ answer = .ok (some s.start)

/-- The three readers agree on a text. -/
structure Stat.Agree (s : Stat) : Prop where
  host : s.Answers (Host.processStart (.text s.render))
  providers : s.Answers (.ok (Providers.processStart (.text s.render)).1)
  deviceScheduler : s.Answers (DeviceScheduler.processStart (.text s.render))

/-- The name is ASCII, and where it has several words the field that they displace reads as
field 22 does. -/
structure Stat.Legible (s : Stat) : Prop where
  ascii : s.Ascii
  sameField : s.numbers.getD (18 - s.extraWords) [] = s.numbers.getD 18 []

/-- The text that a reader gets. -/
theorem readText_render {decode : List UInt8 → Except ReadError (List Char)}
    (hdecode : decode s.render = .ok (s.render.map char)) :
    readText decode (.text s.render) = .ok (newlines '\r' '\n' (s.render.map char)) := by
  rw [readText_text, hdecode]
  rfl

/-- Line ends are within the name. -/
theorem newlines_render (s : Stat) : ∃ front, newlines '\r' '\n' (s.render.map char) =
    front ++ ')' :: s.tail.map char := by
  have hcr : '\r' ∉ ')' :: s.tail.map char := by
    intro hmem
    rcases List.mem_cons.mp hmem with heq | hmem
    · cases heq
    · obtain ⟨b, hb, heq⟩ := List.mem_map.mp hmem
      exact (s.tail_plain hb).2.2 (char_injective heq)
  have hshape : s.render.map char =
      (s.pid ++ 32 :: 40 :: s.comm).map char ++ ')' :: s.tail.map char := by
    simp only [Stat.render, Stat.name, List.map_append, List.map_cons, List.append_assoc,
      List.cons_append, List.nil_append]
    rfl
  refine ⟨newlines '\r' '\n' ((s.pid ++ 32 :: 40 :: s.comm).map char), ?_⟩
  rw [hshape, newlines_append (by decide), newlines_plain hcr]

theorem afterLast_render (s : Stat) :
    afterLast ')' (newlines '\r' '\n' (s.render.map char)) = some (s.tail.map char) := by
  obtain ⟨front, hfront⟩ := newlines_render s
  rw [hfront]
  refine afterLast_append (fun hmem => ?_) front
  obtain ⟨b, hb, heq⟩ := List.mem_map.mp hmem
  exact (s.tail_plain hb).2.1 (char_injective heq)

theorem Stat.number (s : Stat) {n : ℕ} (hn : n ≤ 18) :
    (s.fields.map (List.map char))[n + 1]? = some ((s.numbers.getD n []).map char) := by
  have hlength := s.numbers_length
  have hbound : n < s.numbers.length := by omega
  rw [List.getElem?_map, Stat.fields, List.getElem?_cons_succ, List.getD_eq_getElem?_getD,
    List.getElem?_eq_getElem hbound]
  rfl

/-- The reader of `host_resources` counts words from the front. -/
theorem host_reads (h : s.Ascii) : Host.processStart (.text s.render) =
    .ok (some (String.ofList ((s.numbers.getD (18 - s.extraWords) []).map char))) := by
  obtain ⟨hfew, hwords⟩ := s.extraWords_le
  have hread := readText_render (decodeUtf8_ascii (s.render_ascii.mpr h))
  have hsplit : split (newlines '\r' '\n' (s.render.map char)) = split (s.render.map char) :=
    words_newlines rfl rfl _
  have hindex : (split (s.render.map char))[21]? =
      (s.fields.map (List.map char))[18 - s.extraWords + 1]? := by
    rw [s.split_render, List.getElem?_append_right (by simp; omega)]
    congr 1
    rw [List.length_cons, hwords]
    omega
  unfold Host.processStart
  rw [hread]
  dsimp only
  rw [hsplit, hindex, s.number (by omega)]
  rfl

/-- The other two count from the closing parenthesis. -/
theorem providers_reads (h : s.Ascii) : Providers.processStart (.text s.render) =
    (some s.start, some (String.ofList [char s.state])) := by
  have hread := readText_render (decodeAscii_ascii (s.render_ascii.mpr h))
  have hlength : ¬ (s.fields.map (List.map char)).length ≤ 19 := by
    have := s.numbers_length
    simp [Stat.fields]
    omega
  unfold Providers.processStart
  rw [hread]
  dsimp only
  rw [afterLast_render]
  dsimp only
  rw [s.split_tail, if_neg hlength, s.number le_rfl]
  rfl

theorem deviceScheduler_reads (h : s.Ascii) :
    DeviceScheduler.processStart (.text s.render) = .ok (some s.start) := by
  have hread := readText_render (decodeAscii_ascii (s.render_ascii.mpr h))
  unfold DeviceScheduler.processStart
  rw [hread]
  dsimp only
  rw [afterLast_render, Option.bind_some, s.split_tail, s.number le_rfl]
  rfl

/-- Another name than an ASCII one makes the reader of the device scheduler raise. -/
theorem deviceScheduler_raises (h : ¬ s.Ascii) :
    DeviceScheduler.processStart (.text s.render) = .error .unicode := by
  have hdecode := decodeAscii_other (fun hall => h (s.render_ascii.mp hall))
  unfold DeviceScheduler.processStart
  rw [readText_text, hdecode]
  rfl

theorem host_reads_start (h : s.Legible) :
    Host.processStart (.text s.render) = .ok (some s.start) := by
  rw [host_reads h.ascii, h.sameField]
  rfl

theorem Stat.agree_iff_legible : s.Agree ↔ s.Legible := by
  constructor
  · intro h
    have hascii : s.Ascii := by
      by_contra hother
      have hanswer := h.deviceScheduler
      rw [deviceScheduler_raises hother] at hanswer
      rcases hanswer with hanswer | hanswer <;> cases hanswer
    refine ⟨hascii, ?_⟩
    have hanswer := h.host
    rw [host_reads hascii] at hanswer
    rcases hanswer with hanswer | hanswer
    · cases hanswer
    · have hchars := String.ofList_injective (Option.some.inj (Except.ok.inj hanswer))
      exact List.map_injective_iff.mpr char_injective hchars
  · intro h
    exact ⟨.inr (host_reads_start h), .inr (congrArg (fun r => Except.ok r.1)
      (providers_reads h.ascii)), .inr (deviceScheduler_reads h.ascii)⟩

end Agreement

end ProjectControl.Processes
