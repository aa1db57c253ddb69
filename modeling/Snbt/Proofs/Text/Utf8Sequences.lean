import Snbt.Proofs.Text.CodeUnits
import Snbt.Text.Utf8

namespace Snbt

/-!
# Sequences of UTF-8

The bytes that a character is encoded to are a sequence of one to four bytes,
which is read as that character and leaves whatever follows it.  So a text is
read back from its bytes, one character after the other.
-/

namespace Utf8

variable {lead second byte : UInt8} {rest after : List UInt8} {char : Char}
  {value : Nat}

/-! The ranges in which bytes lie, as ranges of numbers. -/

theorem isContinuation_iff :
    isContinuation byte = true ↔ 0x80 ≤ byte.toNat ∧ byte.toNat ≤ 0xBF := by
  simp only [isContinuation, Bool.and_eq_true, decide_eq_true_eq,
    UInt8.le_iff_toNat_le, UInt8.reduceToNat]

theorem beginsTwo_iff :
    beginsTwo lead second = true ↔
      (0xC2 ≤ lead.toNat ∧ lead.toNat ≤ 0xDF) ∧ 0x80 ≤ second.toNat ∧
        second.toNat ≤ 0xBF := by
  simp only [beginsTwo, isContinuation, Bool.and_eq_true, decide_eq_true_eq,
    UInt8.le_iff_toNat_le, UInt8.reduceToNat]

theorem beginsThree_iff :
    beginsThree lead second = true ↔
      (0xE0 ≤ lead.toNat ∧ lead.toNat ≤ 0xEF) ∧
        (0x80 ≤ second.toNat ∧ second.toNat ≤ 0xBF) ∧
        (lead.toNat = 0xE0 → 0xA0 ≤ second.toNat) ∧
        (lead.toNat = 0xED → second.toNat ≤ 0x9F) := by
  simp only [beginsThree, isContinuation, ← UInt8.toNat_inj,
    UInt8.le_iff_toNat_le, UInt8.reduceToNat]
  split
  · simp only [Bool.and_eq_true, decide_eq_true_eq]
    omega
  · split
    · simp only [Bool.and_eq_true, decide_eq_true_eq]
      omega
    · simp only [Bool.and_eq_true, decide_eq_true_eq]
      omega

theorem beginsFour_iff :
    beginsFour lead second = true ↔
      (0xF0 ≤ lead.toNat ∧ lead.toNat ≤ 0xF4) ∧
        (0x80 ≤ second.toNat ∧ second.toNat ≤ 0xBF) ∧
        (lead.toNat = 0xF0 → 0x90 ≤ second.toNat) ∧
        (lead.toNat = 0xF4 → second.toNat ≤ 0x8F) := by
  simp only [beginsFour, isContinuation, ← UInt8.toNat_inj,
    UInt8.le_iff_toNat_le, UInt8.reduceToNat]
  split
  · simp only [Bool.and_eq_true, decide_eq_true_eq]
    omega
  · split
    · simp only [Bool.and_eq_true, decide_eq_true_eq]
      omega
    · simp only [Bool.and_eq_true, decide_eq_true_eq]
      omega

/-- What begins a longer sequence begins none of two bytes. -/
theorem two?_eq_none
    (rest : List UInt8)
    (past : 0xDF < lead.toNat) :
    two? lead rest = none := by
  cases rest with
  | nil =>
      rfl
  | cons second rest =>
      have notBegun : ¬beginsTwo lead second = true := by
        rw [beginsTwo_iff]
        omega
      rw [two?, if_neg notBegun]

/-- What begins a longer sequence begins none of three bytes. -/
theorem three?_eq_none
    (rest : List UInt8)
    (past : 0xEF < lead.toNat) :
    three? lead rest = none := by
  unfold three?
  split
  case h_1 second third rest =>
    have notBegun :
        ¬(beginsThree lead second && isContinuation third) = true := by
      rw [Bool.and_eq_true, beginsThree_iff]
      omega
    rw [if_neg notBegun]
  case h_2 =>
    rfl

/-- A byte past the ASCII ones begins a sequence of two bytes or of more. -/
theorem front?_of_past
    (rest : List UInt8)
    (past : 0x7F < lead.toNat) :
    front? lead rest =
      (two? lead rest <|> three? lead rest <|> four? lead rest) := by
  have notAscii : ¬lead < 0x80 := by
    simp only [UInt8.lt_iff_toNat_lt, UInt8.reduceToNat]
    omega
  rw [front?, if_neg notAscii]

/-- The number of a byte that is made of a number. -/
theorem toNat_byte
    (fits : value < 0x100) :
    (UInt8.ofNat value).toNat = value :=
  UInt8.toNat_ofNat_of_lt' fits

/-- A byte made of six bits carries them. -/
theorem payload_continuation
    (bits : Nat) :
    payload (UInt8.ofNat (bits % 0x40 + 0x80)) = bits % 0x40 := by
  rw [payload, toNat_byte (by omega)]
  omega

theorem isContinuation_continuation
    (bits : Nat) :
    isContinuation (UInt8.ofNat (bits % 0x40 + 0x80)) = true := by
  rw [isContinuation_iff, toNat_byte (by omega)]
  omega

/-- One byte spells an ASCII character. -/
theorem front?_one
    (rest : List UInt8)
    (fits : value < 0x80) :
    front? (UInt8.ofNat value) rest = some (Char.ofNat value, rest) := by
  have number : (UInt8.ofNat value).toNat = value :=
    toNat_byte (by omega)
  have ascii : UInt8.ofNat value < 0x80 := by
    rw [UInt8.lt_iff_toNat_lt, number]
    exact fits
  rw [front?, if_pos ascii, number]

/-- Two bytes spell a character past the ASCII ones. -/
theorem front?_two
    (rest : List UInt8)
    (past : 0x80 ≤ value)
    (fits : value < 0x800) :
    front? (UInt8.ofNat (value / 0x40 % 0x20 + 0xC0))
        (UInt8.ofNat (value % 0x40 + 0x80) :: rest) =
      some (Char.ofNat value, rest) := by
  have leadNumber :
      (UInt8.ofNat (value / 0x40 % 0x20 + 0xC0)).toNat =
        value / 0x40 % 0x20 + 0xC0 :=
    toNat_byte (by omega)
  have secondNumber :
      (UInt8.ofNat (value % 0x40 + 0x80)).toNat = value % 0x40 + 0x80 :=
    toNat_byte (by omega)
  have begins :
      beginsTwo (UInt8.ofNat (value / 0x40 % 0x20 + 0xC0))
        (UInt8.ofNat (value % 0x40 + 0x80)) =
        true := by
    rw [beginsTwo_iff, leadNumber, secondNumber]
    omega
  have value_eq :
      (value / 0x40 % 0x20 + 0xC0) % 0x20 * 0x40 + value % 0x40 = value := by
    omega
  rw [front?_of_past _ (by omega), two?, if_pos begins, leadNumber,
    payload_continuation, value_eq]
  rfl

/-- Three bytes spell the other characters of the basic plane. -/
theorem front?_three
    (rest : List UInt8)
    (past : 0x800 ≤ value)
    (fits : value < 0x10000)
    (notSurrogate : value < 0xD800 ∨ 0xDFFF < value) :
    front? (UInt8.ofNat (value / 0x1000 % 0x10 + 0xE0))
        (UInt8.ofNat (value / 0x40 % 0x40 + 0x80) ::
          UInt8.ofNat (value % 0x40 + 0x80) :: rest) =
      some (Char.ofNat value, rest) := by
  have leadNumber :
      (UInt8.ofNat (value / 0x1000 % 0x10 + 0xE0)).toNat =
        value / 0x1000 % 0x10 + 0xE0 :=
    toNat_byte (by omega)
  have secondNumber :
      (UInt8.ofNat (value / 0x40 % 0x40 + 0x80)).toNat =
        value / 0x40 % 0x40 + 0x80 :=
    toNat_byte (by omega)
  have begins :
      beginsThree (UInt8.ofNat (value / 0x1000 % 0x10 + 0xE0))
          (UInt8.ofNat (value / 0x40 % 0x40 + 0x80)) =
        true := by
    rw [beginsThree_iff, leadNumber, secondNumber]
    omega
  have value_eq :
      ((value / 0x1000 % 0x10 + 0xE0) % 0x10 * 0x40 + value / 0x40 % 0x40) *
        0x40 +
          value % 0x40 =
        value := by
    omega
  rw [front?_of_past _ (by omega), two?_eq_none _ (by omega), three?, begins,
    isContinuation_continuation, Bool.and_self, if_pos rfl, leadNumber,
    payload_continuation, payload_continuation, value_eq]
  rfl

/-- Four bytes spell the characters past the basic plane. -/
theorem front?_four
    (rest : List UInt8)
    (past : 0x10000 ≤ value)
    (fits : value < 0x110000) :
    front? (UInt8.ofNat (value / 0x40000 % 0x08 + 0xF0))
        (UInt8.ofNat (value / 0x1000 % 0x40 + 0x80) ::
          UInt8.ofNat (value / 0x40 % 0x40 + 0x80) ::
            UInt8.ofNat (value % 0x40 + 0x80) :: rest) =
      some (Char.ofNat value, rest) := by
  have leadNumber :
      (UInt8.ofNat (value / 0x40000 % 0x08 + 0xF0)).toNat =
        value / 0x40000 % 0x08 + 0xF0 :=
    toNat_byte (by omega)
  have secondNumber :
      (UInt8.ofNat (value / 0x1000 % 0x40 + 0x80)).toNat =
        value / 0x1000 % 0x40 + 0x80 :=
    toNat_byte (by omega)
  have begins :
      beginsFour (UInt8.ofNat (value / 0x40000 % 0x08 + 0xF0))
          (UInt8.ofNat (value / 0x1000 % 0x40 + 0x80)) =
        true := by
    rw [beginsFour_iff, leadNumber, secondNumber]
    omega
  have value_eq :
      (((value / 0x40000 % 0x08 + 0xF0) % 0x08 * 0x40 + value / 0x1000 % 0x40) *
        0x40 +
            value / 0x40 % 0x40) * 0x40 + value % 0x40 =
        value := by
    omega
  rw [front?_of_past _ (by omega), two?_eq_none _ (by omega),
    three?_eq_none _ (by omega), four?, begins, isContinuation_continuation,
    isContinuation_continuation, Bool.and_self, Bool.and_self, if_pos rfl,
    leadNumber, payload_continuation, payload_continuation,
    payload_continuation, value_eq]
  rfl

/-- The bytes of a character are read as it, and what follows them is left. -/
theorem front?_encodeChar
    (char : Char)
    (rest : List UInt8) :
    ∃ lead tail,
      String.utf8EncodeChar char = lead :: tail ∧
        front? lead (tail ++ rest) = some (char, rest) := by
  have range := Utf16.toNat_range char
  have value : char.val.toNat = char.toNat := rfl
  have char_eq : Char.ofNat char.toNat = char := Char.ofNat_toNat char
  rw [String.utf8EncodeChar.eq_def, value]
  simp only
  by_cases one : char.toNat ≤ 127
  · rw [if_pos one]
    have read := front?_one rest (Nat.lt_succ_of_le one)
    rw [char_eq] at read
    exact ⟨_, _, rfl, read⟩
  · rw [if_neg one]
    by_cases two : char.toNat ≤ 2047
    · rw [if_pos two]
      have read :=
        front?_two rest (Nat.lt_of_not_le one) (Nat.lt_succ_of_le two)
      rw [char_eq] at read
      exact ⟨_, _, rfl, read⟩
    · rw [if_neg two]
      by_cases three : char.toNat ≤ 65535
      · rw [if_pos three]
        have read :=
          front?_three rest (Nat.lt_of_not_le two)
            (Nat.lt_succ_of_le three) (by omega)
        rw [char_eq] at read
        exact ⟨_, _, rfl, read⟩
      · rw [if_neg three]
        have read := front?_four rest (Nat.lt_of_not_le three) (by omega)
        rw [char_eq] at read
        exact ⟨_, _, rfl, read⟩

/-! What is read as a character begins with its bytes. -/

/-- The bytes of the character that has a value, told by the value. -/
theorem utf8EncodeChar_ofNat
    (isChar : value.isValidChar) :
    String.utf8EncodeChar (Char.ofNat value) =
      if value ≤ 0x7F then
        [UInt8.ofNat value]
      else if value ≤ 0x7FF then
        [UInt8.ofNat (value / 0x40 % 0x20 + 0xC0),
          UInt8.ofNat (value % 0x40 + 0x80)]
      else if value ≤ 0xFFFF then
        [UInt8.ofNat (value / 0x1000 % 0x10 + 0xE0),
          UInt8.ofNat (value / 0x40 % 0x40 + 0x80),
          UInt8.ofNat (value % 0x40 + 0x80)]
      else
        [UInt8.ofNat (value / 0x40000 % 0x08 + 0xF0),
          UInt8.ofNat (value / 0x1000 % 0x40 + 0x80),
          UInt8.ofNat (value / 0x40 % 0x40 + 0x80),
          UInt8.ofNat (value % 0x40 + 0x80)] := by
  have number : (Char.ofNat value).val.toNat = value := Utf16.toNat_ofNat isChar
  rw [String.utf8EncodeChar.eq_def, number]

/-- A byte is known by its number. -/
theorem ofNat_of_toNat
    (number : value = byte.toNat) :
    UInt8.ofNat value = byte := by
  rw [number, UInt8.ofNat_toNat]

theorem eq_utf8EncodeChar_of_two?
    (found : two? lead rest = some (char, after)) :
    lead :: rest = String.utf8EncodeChar char ++ after := by
  unfold two? at found
  split at found
  case h_1 second rest =>
    split at found
    case isTrue begins =>
      cases found
      rw [beginsTwo_iff] at begins
      unfold payload
      generalize value_eq :
        lead.toNat % 0x20 * 0x40 + second.toNat % 0x40 = value
      have isLead : UInt8.ofNat (value / 0x40 % 0x20 + 0xC0) = lead :=
        ofNat_of_toNat (by omega)
      have isSecond : UInt8.ofNat (value % 0x40 + 0x80) = second :=
        ofNat_of_toNat (by omega)
      rw [utf8EncodeChar_ofNat (.inl (by omega)), if_neg (by omega),
        if_pos (by omega), isLead, isSecond]
      rfl
    case isFalse =>
      cases found
  case h_2 =>
    cases found

theorem eq_utf8EncodeChar_of_three?
    (found : three? lead rest = some (char, after)) :
    lead :: rest = String.utf8EncodeChar char ++ after := by
  unfold three? at found
  split at found
  case h_1 second third rest =>
    split at found
    case isTrue begins =>
      cases found
      rw [Bool.and_eq_true, beginsThree_iff, isContinuation_iff] at begins
      unfold payload
      generalize value_eq :
        (lead.toNat % 0x10 * 0x40 + second.toNat % 0x40) * 0x40 +
          third.toNat % 0x40 = value
      have isLead : UInt8.ofNat (value / 0x1000 % 0x10 + 0xE0) = lead :=
        ofNat_of_toNat (by omega)
      have isSecond : UInt8.ofNat (value / 0x40 % 0x40 + 0x80) = second :=
        ofNat_of_toNat (by omega)
      have isThird : UInt8.ofNat (value % 0x40 + 0x80) = third :=
        ofNat_of_toNat (by omega)
      have isChar : value.isValidChar := by
        unfold Nat.isValidChar
        omega
      rw [utf8EncodeChar_ofNat isChar, if_neg (by omega), if_neg (by omega),
        if_pos (by omega), isLead, isSecond, isThird]
      rfl
    case isFalse =>
      cases found
  case h_2 =>
    cases found

theorem eq_utf8EncodeChar_of_four?
    (found : four? lead rest = some (char, after)) :
    lead :: rest = String.utf8EncodeChar char ++ after := by
  unfold four? at found
  split at found
  case h_1 second third fourth rest =>
    split at found
    case isTrue begins =>
      cases found
      rw [Bool.and_eq_true, Bool.and_eq_true, beginsFour_iff,
        isContinuation_iff, isContinuation_iff] at begins
      unfold payload
      generalize value_eq :
        ((lead.toNat % 0x08 * 0x40 + second.toNat % 0x40) * 0x40 +
          third.toNat % 0x40) * 0x40 +
          fourth.toNat % 0x40 = value
      have isLead : UInt8.ofNat (value / 0x40000 % 0x08 + 0xF0) = lead :=
        ofNat_of_toNat (by omega)
      have isSecond : UInt8.ofNat (value / 0x1000 % 0x40 + 0x80) = second :=
        ofNat_of_toNat (by omega)
      have isThird : UInt8.ofNat (value / 0x40 % 0x40 + 0x80) = third :=
        ofNat_of_toNat (by omega)
      have isFourth : UInt8.ofNat (value % 0x40 + 0x80) = fourth :=
        ofNat_of_toNat (by omega)
      rw [utf8EncodeChar_ofNat (.inr ⟨by omega, by omega⟩), if_neg (by omega),
        if_neg (by omega), if_neg (by omega), isLead, isSecond,
        isThird, isFourth]
      rfl
    case isFalse =>
      cases found
  case h_2 =>
    cases found

/-- What is read as a character are its bytes, with what is left behind them. -/
theorem eq_utf8EncodeChar_of_front?
    (found : front? lead rest = some (char, after)) :
    lead :: rest = String.utf8EncodeChar char ++ after := by
  unfold front? at found
  split at found
  case isTrue ascii =>
    cases found
    simp only [UInt8.lt_iff_toNat_lt, UInt8.reduceToNat] at ascii
    have isLead : UInt8.ofNat lead.toNat = lead := ofNat_of_toNat rfl
    rw [utf8EncodeChar_ofNat (.inl (by omega)), if_pos (by omega), isLead]
    rfl
  case isFalse =>
    simp only [Option.orElse_eq_orElse, Option.orElse_eq_or,
      Option.or_eq_some_iff] at found
    rcases found with ofTwo | ⟨_, ofThree | ⟨_, ofFour⟩⟩
    · exact eq_utf8EncodeChar_of_two? ofTwo
    · exact eq_utf8EncodeChar_of_three? ofThree
    · exact eq_utf8EncodeChar_of_four? ofFour

/-- The bytes of a text. -/
def encode (chars : List Char) : List UInt8 :=
  chars.flatMap String.utf8EncodeChar

/-- Encoded characters are read back one after the other. -/
theorem decodeOnto_encode
    (done : Array CodeUnit)
    (chars : List Char) :
    (decodeOnto done (encode chars)).toList =
      done.toList ++ Utf16.encode chars := by
  induction chars generalizing done with
  | nil =>
      rw [encode, List.flatMap_nil, decodeOnto]
      exact (List.append_nil _).symm
  | cons char chars inductionHypothesis =>
      obtain ⟨lead, tail, bytes, read⟩ := front?_encodeChar char (encode chars)
      have encode_eq :
          encode (char :: chars) = lead :: (tail ++ encode chars) := by
        rw [encode, List.flatMap_cons, bytes]
        rfl
      rw [encode_eq, decodeOnto]
      split
      case h_1 readChar after found =>
        rw [read] at found
        cases found
        rw [inductionHypothesis, Array.toList_appendList, List.append_assoc,
          Utf16.encode_cons]
      case h_2 found =>
        rw [read] at found
        cases found

/-- No byte of a text is one of the two that only marks hold. -/
theorem toNat_lt_of_mem_encode
    {chars : List Char}
    (member : byte ∈ encode chars) :
    byte.toNat < 0xFE := by
  obtain ⟨char, _, member⟩ := List.mem_flatMap.mp member
  have range := Utf16.toNat_range char
  have value : char.val.toNat = char.toNat := rfl
  rw [String.utf8EncodeChar.eq_def, value] at member
  simp only at member
  split at member
  case isTrue one =>
    rw [List.mem_singleton.mp member, toNat_byte (by omega)]
    omega
  case isFalse =>
    split at member
    case isTrue =>
      simp only [List.mem_cons, List.not_mem_nil, or_false] at member
      rcases member with rfl | rfl <;> rw [toNat_byte (by omega)] <;> omega
    case isFalse =>
      split at member
      case isTrue =>
        simp only [List.mem_cons, List.not_mem_nil, or_false] at member
        rcases member with
          rfl | rfl | rfl <;> rw [toNat_byte (by omega)] <;> omega
      case isFalse =>
        simp only [List.mem_cons, List.not_mem_nil, or_false] at member
        rcases member with
          rfl | rfl | rfl | rfl <;> rw [toNat_byte (by omega)] <;> omega

/-- A text whose bytes begin with the mark begins with U+FEFF. -/
theorem head?_of_begins_mark
    {chars : List Char}
    (begins : [0xEF, 0xBB, 0xBF] <+: encode chars) :
    chars.head? = some '\uFEFF' := by
  cases chars with
  | nil =>
      cases List.prefix_nil.mp begins
  | cons char chars =>
      obtain ⟨lead, tail, bytes, read⟩ := front?_encodeChar char (encode chars)
      obtain ⟨rest, rest_eq⟩ := begins
      rw [encode, List.flatMap_cons, bytes] at rest_eq
      obtain ⟨rfl, tail_eq⟩ := List.cons.inj rest_eq
      have marked :
          front? 0xEF ([0xBB, 0xBF] ++ rest) = some ('\uFEFF', rest) := rfl
      have char_eq : some ('\uFEFF', rest) = some (char, encode chars) := by
        rw [← marked, ← read]
        exact congrArg (front? 0xEF) tail_eq
      cases char_eq
      rfl

end Utf8

end Snbt
