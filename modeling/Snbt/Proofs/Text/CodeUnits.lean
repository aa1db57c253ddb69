import Snbt.Proofs.Text.PairSeams

namespace Snbt

/-!
# Code units of a character

Every character has one unit that is no surrogate, or a high surrogate and a
low one.  What is decoded from the units of a text is the text, and a buffer
shows a character wherever its units stand.
-/

namespace Utf16

/-- The units that spell a character: its own, or the two halves of its pair. -/
inductive Codes (char : Char) : List CodeUnit → Prop where
  | alone
      {unit : CodeUnit}
      (notHigh : unit.isHigh = false)
      (notLow : unit.isLow = false)
      (char_eq : unit.loneChar = char) :
      Codes char [unit]
  | pair
      {high low : CodeUnit}
      (isHigh : high.isHigh = true)
      (isLow : low.isLow = true)
      (char_eq : high.pairChar low = char) :
      Codes char [high, low]

/-- A character takes at most two units. -/
theorem Codes.length_le
    {char : Char}
    {units : List CodeUnit}
    (codes : Codes char units) :
    units.length ≤ 2 := by
  cases codes with
  | alone =>
      exact Nat.le_succ 1
  | pair =>
      exact Nat.le_refl 2

theorem isHigh_iff
    {unit : CodeUnit} :
    unit.isHigh = true ↔ 0xD800 ≤ unit.toNat ∧ unit.toNat ≤ 0xDBFF := by
  simp only [CodeUnit.isHigh, Bool.and_eq_true, decide_eq_true_eq,
    UInt16.le_iff_toNat_le]
  rfl

theorem isLow_iff
    {unit : CodeUnit} :
    unit.isLow = true ↔ 0xDC00 ≤ unit.toNat ∧ unit.toNat ≤ 0xDFFF := by
  simp only [CodeUnit.isLow, Bool.and_eq_true, decide_eq_true_eq,
    UInt16.le_iff_toNat_le]
  rfl

/-- No character has the value of a surrogate, or one past U+10FFFF. -/
theorem toNat_range
    (char : Char) :
    char.toNat < 0xD800 ∨ 0xDFFF < char.toNat ∧ char.toNat < 0x110000 :=
  char.valid

/-- A value that is a character's is that of its character. -/
theorem toNat_ofNat
    {value : Nat}
    (isChar : value.isValidChar) :
    (Char.ofNat value).toNat = value := by
  rw [Char.ofNat, dif_pos isChar]
  rfl

/-- Every character is spelled by the units that it is encoded by. -/
theorem codes_encodeChar
    (char : Char) :
    Codes char (encodeChar char) := by
  have range := toNat_range char
  unfold encodeChar
  by_cases basic : char.toNat < 0x10000
  · rw [if_pos basic]
    have value : (UInt16.ofNat char.toNat).toNat = char.toNat :=
      UInt16.toNat_ofNat_of_lt' basic
    have notHigh : CodeUnit.isHigh (UInt16.ofNat char.toNat) = false := by
      rw [Bool.eq_false_iff, ne_eq, isHigh_iff, value]
      omega
    have notLow : CodeUnit.isLow (UInt16.ofNat char.toNat) = false := by
      rw [Bool.eq_false_iff, ne_eq, isLow_iff, value]
      omega
    refine .alone notHigh notLow ?_
    rw [CodeUnit.loneChar, notHigh, notLow, value]
    exact Char.ofNat_toNat char
  · rw [if_neg basic]
    have above : char.toNat - 0x10000 < 0x100000 := by
      omega
    have high : (UInt16.ofNat (0xD800 + (char.toNat - 0x10000) / 0x400)).toNat =
        0xD800 + (char.toNat - 0x10000) / 0x400 :=
      UInt16.toNat_ofNat_of_lt' (by simp only [UInt16.size]; omega)
    have low : (UInt16.ofNat (0xDC00 + (char.toNat - 0x10000) % 0x400)).toNat =
        0xDC00 + (char.toNat - 0x10000) % 0x400 :=
      UInt16.toNat_ofNat_of_lt' (by simp only [UInt16.size]; omega)
    refine .pair ?_ ?_ ?_
    · rw [isHigh_iff, high]
      omega
    · rw [isLow_iff, low]
      omega
    · rw [CodeUnit.pairChar, high, low]
      have value :
          0x10000 + (0xD800 + (char.toNat - 0x10000) / 0x400 - 0xD800) * 0x400 +
              (0xDC00 + (char.toNat - 0x10000) % 0x400 - 0xDC00) =
            char.toNat := by
        omega
      rw [value]
      exact Char.ofNat_toNat char

/-- A unit is known by its number. -/
theorem ofNat_of_toNat
    {value : Nat}
    {unit : CodeUnit}
    (number : value = unit.toNat) :
    UInt16.ofNat value = unit := by
  rw [number, UInt16.ofNat_toNat]

/-- A character is encoded by the units that spell it. -/
theorem Codes.encodeChar_eq
    {char : Char}
    {units : List CodeUnit}
    (codes : Codes char units) :
    encodeChar char = units := by
  cases codes with
  | @alone unit notHigh notLow char_eq =>
      have small : unit.toNat < 0x10000 := unit.toNat_lt
      have number : char.toNat = unit.toNat := by
        rw [← char_eq, CodeUnit.loneChar, notHigh, notLow]
        apply toNat_ofNat
        rw [Bool.eq_false_iff, ne_eq, isHigh_iff] at notHigh
        rw [Bool.eq_false_iff, ne_eq, isLow_iff] at notLow
        unfold Nat.isValidChar
        omega
      rw [encodeChar, number, if_pos small, UInt16.ofNat_toNat]
  | @pair high low isHigh isLow char_eq =>
      rw [isHigh_iff] at isHigh
      rw [isLow_iff] at isLow
      have number :
          char.toNat = 0x10000 + (high.toNat - 0xD800) * 0x400 +
            (low.toNat - 0xDC00) := by
        rw [← char_eq]
        exact toNat_ofNat (.inr ⟨by omega, by omega⟩)
      have isFirst :
          UInt16.ofNat (0xD800 + (char.toNat - 0x10000) / 0x400) = high :=
        ofNat_of_toNat (by omega)
      have isSecond :
          UInt16.ofNat (0xDC00 + (char.toNat - 0x10000) % 0x400) = low :=
        ofNat_of_toNat (by omega)
      rw [encodeChar, if_neg (by omega)]
      simp only [isFirst, isSecond]

theorem encode_cons
    (char : Char)
    (chars : List Char) :
    encode (char :: chars) = encodeChar char ++ encode chars :=
  List.flatMap_cons

/-- A unit that opens no pair spells a character alone. -/
theorem decode_cons_of_not_pair
    {unit : CodeUnit}
    {rest : List CodeUnit}
    (notPair : ∀ next ∈ rest.head?, (unit.isHigh && next.isLow) = false) :
    decode (unit :: rest) = unit.loneChar :: decode rest := by
  cases rest with
  | nil =>
      rfl
  | cons next rest =>
      rw [decode, decodeOnto, notPair next rfl, if_neg Bool.false_ne_true,
        decodeOnto_toList]
      rfl

/-- A unit that is no high surrogate spells a character alone. -/
theorem decode_cons
    {unit : CodeUnit}
    (notHigh : unit.isHigh = false)
    (rest : List CodeUnit) :
    decode (unit :: rest) = unit.loneChar :: decode rest :=
  decode_cons_of_not_pair fun _ _ => by rw [notHigh, Bool.false_and]

/-- A character is decoded first from its units and what follows them. -/
theorem decode_append_of_codes
    {char : Char}
    {units : List CodeUnit}
    (codes : Codes char units)
    (rest : List CodeUnit) :
    decode (units ++ rest) = char :: decode rest := by
  cases codes with
  | alone notHigh notLow char_eq =>
      rw [List.singleton_append, decode_cons notHigh, char_eq]
  | pair isHigh isLow char_eq =>
      rw [List.cons_append, List.singleton_append, decode, decodeOnto, isHigh,
        isLow, Bool.and_self, if_pos rfl, decodeOnto_toList, char_eq]
      rfl

/-- What is decoded from the units of a text is the text. -/
theorem decode_encode
    (chars : List Char) :
    decode (encode chars) = chars := by
  induction chars with
  | nil =>
      rfl
  | cons char chars inductionHypothesis =>
      rw [encode_cons, decode_append_of_codes (codes_encodeChar char),
        inductionHypothesis]

/-- A unit of a text that is no surrogate is that of a character of the text. -/
theorem loneChar_mem_of_mem_encode
    {chars : List Char}
    {unit : CodeUnit}
    (member : unit ∈ encode chars)
    (notHigh : unit.isHigh = false)
    (notLow : unit.isLow = false) :
    unit.loneChar ∈ chars := by
  obtain ⟨char, present, inUnits⟩ := List.mem_flatMap.mp member
  have codes := codes_encodeChar char
  generalize encodeChar char = units at codes inUnits
  cases codes with
  | alone _ _ char_eq =>
      rw [List.mem_singleton.mp inUnits, char_eq]
      exact present
  | pair isHigh isLow =>
      simp only [List.mem_cons, List.not_mem_nil, or_false] at inUnits
      rcases inUnits with rfl | rfl
      · rw [notHigh] at isHigh
        cases isHigh
      · rw [notLow] at isLow
        cases isLow

end Utf16

namespace Buffer

/-- Where the units of a character stand, the buffer shows it. -/
theorem char?_of_codes
    {buffer : Buffer}
    {before units after : List CodeUnit}
    {char : Char}
    (codes : Utf16.Codes char units)
    (units_eq : buffer.units.toList = before ++ (units ++ after)) :
    buffer.char? before.length = some (char, units.length) := by
  have unit?_eq :
      ∀ place,
        buffer.unit? (before.length + place) = (units ++ after)[place]? := by
    intro place
    rw [unit?, ← Array.getElem?_toList, units_eq,
      List.getElem?_append_right (Nat.le_add_right ..), Nat.add_sub_cancel_left]
  have first := unit?_eq 0
  have second := unit?_eq 1
  rw [Nat.add_zero] at first
  cases codes with
  | alone notHigh notLow char_eq =>
      rw [char?, first, second, List.singleton_append, List.getElem?_cons_zero,
        List.getElem?_cons_succ]
      cases after with
      | nil =>
          rw [← char_eq]
          rfl
      | cons next after =>
          simp only [List.getElem?_cons_zero, notHigh, Bool.false_and]
          rw [← char_eq]
          rfl
  | pair isHigh isLow char_eq =>
      rw [char?, first, second]
      simp only [List.cons_append, List.getElem?_cons_zero,
        List.getElem?_cons_succ, isHigh, isLow, Bool.and_self, char_eq]
      rfl

end Buffer

end Snbt
