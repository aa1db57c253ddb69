import Mathlib.Algebra.Group.Nat.Defs
import Snbt.Proofs.Text.Utf8Sequences
import Snbt.Text.Decoding

namespace Snbt

/-!
# Encoding and decoding

Bytes that a text is encoded to decode to the code units of the text, in the
charset they are encoded in and behind its mark.  Marks are told apart by the
order in which they are looked for, and one input is still taken for another:
UTF-16LE whose text begins with U+0000 carries the mark of UTF-32LE.
-/

namespace ByteOrder

/-- The lowest bytes of a number, the lowest first. -/
def lowBytes : Nat → Nat → List UInt8
  | 0, _ =>
      []
  | width + 1, value =>
      UInt8.ofNat value :: lowBytes width (value / 0x100)

/-- The bytes that store a number. -/
def store : ByteOrder → Nat → Nat → List UInt8
  | .bigEndian, width, value =>
      (lowBytes width value).reverse
  | .littleEndian, width, value =>
      lowBytes width value

theorem value_lowBytes
    (width value : Nat) :
    littleEndian.value (lowBytes width value) = value % 0x100 ^ width := by
  induction width generalizing value with
  | zero =>
      rw [Nat.pow_zero, Nat.mod_one]
      rfl
  | succ width inductionHypothesis =>
      have later := inductionHypothesis (value / 0x100)
      simp only [ByteOrder.value] at later
      simp only [lowBytes, ByteOrder.value, List.foldr_cons, later]
      rw [Nat.pow_succ', Nat.mod_mul, UInt8.toNat_ofNat']
      omega

/-- A stored number is read back, as far as its bytes hold it. -/
theorem value_store
    (order : ByteOrder)
    (width value : Nat) :
    order.value (order.store width value) = value % 0x100 ^ width := by
  cases order with
  | bigEndian =>
      simp only [store, ByteOrder.value, List.foldl_reverse]
      exact value_lowBytes width value
  | littleEndian =>
      exact value_lowBytes width value

theorem lowBytes_value
    (bytes : List UInt8) :
    lowBytes bytes.length (littleEndian.value bytes) = bytes := by
  induction bytes with
  | nil =>
      rfl
  | cons byte bytes inductionHypothesis =>
      have small : byte.toNat < 0x100 := byte.toNat_lt
      have parts :
          littleEndian.value (byte :: bytes) =
            littleEndian.value bytes * 0x100 + byte.toNat :=
        rfl
      have quotient :
          littleEndian.value (byte :: bytes) / 0x100 =
            littleEndian.value bytes := by
        omega
      have lowest :
          UInt8.ofNat (littleEndian.value (byte :: bytes)) = byte := by
        apply UInt8.toNat_inj.mp
        rw [UInt8.toNat_ofNat']
        omega
      rw [List.length_cons, lowBytes, quotient, inductionHypothesis, lowest]

/--
Most significant byte first, bytes stand
for what they do in reverse the other way.
-/
theorem value_bigEndian
    (bytes : List UInt8) :
    bigEndian.value bytes = littleEndian.value bytes.reverse :=
  List.foldl_eq_foldr_reverse ..

/-- Bytes store the number that they stand for. -/
theorem store_value
    (order : ByteOrder)
    (bytes : List UInt8) :
    order.store bytes.length (order.value bytes) = bytes := by
  cases order with
  | bigEndian =>
      rw [store, value_bigEndian, ← List.length_reverse, lowBytes_value,
        List.reverse_reverse]
  | littleEndian =>
      exact lowBytes_value bytes

/-- Bytes stand for no number that more of them would be needed for. -/
theorem value_lt
    (order : ByteOrder)
    (bytes : List UInt8) :
    order.value bytes < 0x100 ^ bytes.length := by
  have stored := order.value_store bytes.length (order.value bytes)
  rw [store_value] at stored
  rw [stored]
  exact Nat.mod_lt _ (Nat.pow_pos (by decide))

/-- Two bytes store a number and tell it. -/
theorem store_two
    (order : ByteOrder)
    (value : Nat) :
    ∃ first second,
      order.store 2 value = [first, second] ∧
        order.value [first, second] = value % 0x10000 := by
  cases order with
  | bigEndian =>
      exact ⟨_, _, rfl, value_store .bigEndian 2 value⟩
  | littleEndian =>
      exact ⟨_, _, rfl, value_store .littleEndian 2 value⟩

/-- Four bytes store a number and tell it. -/
theorem store_four
    (order : ByteOrder)
    (value : Nat) :
    ∃ first second third fourth,
      order.store 4 value = [first, second, third, fourth] ∧
        order.value [first, second, third, fourth] = value % 0x100000000 := by
  cases order with
  | bigEndian =>
      exact ⟨_, _, _, _, rfl, value_store .bigEndian 4 value⟩
  | littleEndian =>
      exact ⟨_, _, _, _, rfl, value_store .littleEndian 4 value⟩

end ByteOrder

namespace Utf16

/-- The bytes that store code units. -/
def storeUnits (order : ByteOrder) (units : List CodeUnit) : List UInt8 :=
  units.flatMap fun unit => order.store 2 unit.toNat

theorem storeUnits_cons
    (order : ByteOrder)
    (unit : CodeUnit)
    (units : List CodeUnit) :
    storeUnits order (unit :: units) =
      order.store 2 unit.toNat ++ storeUnits order units :=
  List.flatMap_cons

/-- Every unit takes two bytes. -/
theorem length_storeUnits
    (order : ByteOrder)
    (units : List CodeUnit) :
    (storeUnits order units).length = 2 * units.length := by
  induction units with
  | nil =>
      rfl
  | cons unit units inductionHypothesis =>
      obtain ⟨first, second, bytes, _⟩ := order.store_two unit.toNat
      rw [storeUnits_cons, bytes, List.length_append, inductionHypothesis,
        List.length_cons]
      simp only [List.length_cons, List.length_nil]
      omega

/-- Stored units are read back one after the other. -/
theorem unitsOnto_storeUnits
    (order : ByteOrder)
    (done : Array CodeUnit)
    (units : List CodeUnit) :
    (unitsOnto order done (storeUnits order units)).toList =
      done.toList ++ units := by
  induction units generalizing done with
  | nil =>
      exact (List.append_nil _).symm
  | cons unit units inductionHypothesis =>
      obtain ⟨first, second, bytes, value⟩ := order.store_two unit.toNat
      have fits : unit.toNat % 0x10000 = unit.toNat :=
        Nat.mod_eq_of_lt unit.toNat_lt_size
      rw [storeUnits_cons, bytes, List.cons_append, List.cons_append,
        List.nil_append, unitsOnto, value, fits, UInt16.ofNat_toNat,
        inductionHypothesis, Array.toList_push, List.append_assoc,
        List.singleton_append]

/-- Two zero bytes store the unit 0. -/
theorem eq_zero_of_begins_zeros
    {order : ByteOrder}
    {unit : CodeUnit}
    {units : List CodeUnit}
    (zeros : [0x00, 0x00] <+: storeUnits order (unit :: units)) :
    unit = 0 := by
  obtain ⟨first, second, bytes, value⟩ := order.store_two unit.toNat
  obtain ⟨rest, rest_eq⟩ := zeros
  rw [storeUnits_cons, bytes] at rest_eq
  obtain ⟨first_eq, rest_eq⟩ := List.cons.inj rest_eq
  obtain ⟨second_eq, _⟩ := List.cons.inj rest_eq
  have zero : order.value [0x00, 0x00] = 0 := by
    cases order <;> rfl
  rw [← first_eq, ← second_eq, zero,
    Nat.mod_eq_of_lt unit.toNat_lt_size] at value
  exact UInt16.toNat_inj.mp value.symm

/-- What UTF-16 is decoded to is the text that was encoded. -/
theorem ofBytes_storeUnits
    (order : ByteOrder)
    (chars : List Char) :
    ofBytes order (storeUnits order (encode chars)) =
      (encode chars).toArray := by
  have even : (storeUnits order (encode chars)).length % 2 = 0 := by
    rw [length_storeUnits]
    omega
  rw [ofBytes, if_pos even, unitsOnto_storeUnits, List.nil_append,
    decode_encode]

end Utf16

namespace Utf32

/-- The bytes that store the values of characters. -/
def storeChars (order : ByteOrder) (chars : List Char) : List UInt8 :=
  chars.flatMap fun char => order.store 4 char.toNat

theorem storeChars_cons
    (order : ByteOrder)
    (char : Char)
    (chars : List Char) :
    storeChars order (char :: chars) =
      order.store 4 char.toNat ++ storeChars order chars :=
  List.flatMap_cons

/-- The value of a character spells its units. -/
theorem unitsOfValue_toNat
    (char : Char) :
    unitsOfValue char.toNat = Utf16.encodeChar char := by
  have isChar : char.toNat.isValidChar := char.valid
  rw [unitsOfValue, if_pos isChar, Char.ofNat_toNat]

/-- Stored characters are read back one after the other. -/
theorem decodeOnto_storeChars
    (order : ByteOrder)
    (done : Array CodeUnit)
    (chars : List Char) :
    (decodeOnto order done (storeChars order chars)).toList =
      done.toList ++ Utf16.encode chars := by
  induction chars generalizing done with
  | nil =>
      exact (List.append_nil _).symm
  | cons char chars inductionHypothesis =>
      obtain ⟨first, second, third, fourth, bytes, value⟩ :=
        order.store_four char.toNat
      have fits : char.toNat % 0x100000000 = char.toNat := by
        have range := Utf16.toNat_range char
        omega
      rw [storeChars_cons, bytes]
      simp only [List.cons_append, List.nil_append, decodeOnto]
      rw [value, fits, unitsOfValue_toNat, inductionHypothesis,
        Array.toList_appendList, List.append_assoc, Utf16.encode_cons]

/-- A value spells at most two units. -/
theorem length_unitsOfValue_le
    (value : Nat) :
    (unitsOfValue value).length ≤ 2 := by
  unfold unitsOfValue
  split
  · exact (Utf16.codes_encodeChar (Char.ofNat value)).length_le
  · exact Nat.le_succ 1

/--
Decoding makes at most one unit of two bytes, and one of what is left over.
-/
theorem length_decodeOnto_le
    (order : ByteOrder)
    (done : Array CodeUnit)
    (bytes : List UInt8) :
    2 * (decodeOnto order done bytes).toList.length ≤
      2 * done.toList.length + bytes.length + 1 := by
  fun_induction decodeOnto order done bytes with
  | case1 done first second third fourth rest inductionHypothesis =>
      have units :=
        length_unitsOfValue_le (order.value [first, second, third, fourth])
      rw [Array.toList_appendList, List.length_append] at inductionHypothesis
      simp only [List.length_cons]
      omega
  | case2 done =>
      exact Nat.le_succ _
  | case3 rest done short notEmpty =>
      have left := List.length_pos_iff.mpr notEmpty
      rw [Array.toList_push, List.length_append, List.length_singleton]
      omega

end Utf32

namespace Charset

/-- The bytes of a text in a charset. -/
def encode : Charset → List Char → List UInt8
  | .utf8, chars =>
      Utf8.encode chars
  | .utf16 order, chars =>
      Utf16.storeUnits order (Utf16.encode chars)
  | .utf32 order, chars =>
      Utf32.storeChars order chars

/-- What a charset decodes is the text that was encoded in it. -/
theorem decodeAll_encode
    (charset : Charset)
    (chars : List Char) :
    charset.decodeAll (charset.encode chars) =
      (Utf16.encode chars).toArray := by
  cases charset with
  | utf8 =>
      exact Array.ext' (Utf8.decodeOnto_encode #[] chars)
  | utf16 order =>
      exact Utf16.ofBytes_storeUnits order chars
  | utf32 order =>
      exact Array.ext' (Utf32.decodeOnto_storeChars order #[] chars)

/-- Behind a mark two zero bytes turn that of UTF-16LE into the other. -/
theorem sniff?_mark_append
    (charset : Charset)
    (bytes : List UInt8) :
    sniff? (charset.mark ++ bytes) =
      some (if charset = .utf16 .littleEndian ∧ [0x00, 0x00] <+: bytes then
        .utf32 .littleEndian
      else
        charset) := by
  cases charset with
  | utf8 =>
      rfl
  | utf16 order =>
      cases order with
      | bigEndian =>
          rfl
      | littleEndian =>
          by_cases zeros : [0x00, 0x00] <+: bytes
          · simp [sniff?, sniffingOrder, mark, zeros,
              List.isPrefixOf_iff_prefix.mpr zeros]
          · have noZeros : [0x00, 0x00].isPrefixOf bytes = false := by
              rw [Bool.eq_false_iff, ne_eq, List.isPrefixOf_iff_prefix]
              exact zeros
            simp [sniff?, sniffingOrder, mark, zeros, noZeros]
  | utf32 order =>
      cases order <;> rfl

/-- In UTF-16LE two zero bytes are U+0000. -/
theorem zeros_prefix_encode_iff
    (chars : List Char) :
    [0x00, 0x00] <+: encode (.utf16 .littleEndian) chars ↔
      chars.head? = some '\x00' := by
  constructor
  · intro zeros
    cases chars with
    | nil =>
        cases List.prefix_nil.mp zeros
    | cons char chars =>
        have codes := Utf16.codes_encodeChar char
        rw [encode, Utf16.encode_cons] at zeros
        generalize Utf16.encodeChar char = units at codes zeros
        cases codes with
        | alone notHigh notLow char_eq =>
            cases Utf16.eq_zero_of_begins_zeros zeros
            rw [← char_eq]
            rfl
        | pair isHigh isLow char_eq =>
            cases Utf16.eq_zero_of_begins_zeros zeros
            cases isHigh
  · intro begins
    cases chars with
    | nil =>
        cases begins
    | cons char chars =>
        cases begins
        exact ⟨_, rfl⟩

/-- Bytes of UTF-8 begin with a mark only if their text begins with U+FEFF. -/
theorem head?_of_begins_mark
    {charset : Charset}
    {chars : List Char}
    (begins : charset.mark <+: Utf8.encode chars) :
    chars.head? = some '\uFEFF' := by
  by_cases isUtf8 : charset = .utf8
  · subst isUtf8
    exact Utf8.head?_of_begins_mark begins
  · have inMark : 0xFE ∈ charset.mark := by
      cases charset with
      | utf8 =>
          exact absurd rfl isUtf8
      | utf16 order =>
          cases order <;> decide
      | utf32 order =>
          cases order <;> decide
    have small := Utf8.toNat_lt_of_mem_encode (begins.subset inMark)
    exact absurd small (Nat.lt_irrefl _)

/--
UTF-8 without a mark is known as such, unless its text begins with U+FEFF.
-/
theorem sniff?_encode_utf8
    {chars : List Char}
    (unmarked : chars.head? ≠ some '\uFEFF') :
    sniff? (encode .utf8 chars) = none := by
  refine List.find?_eq_none.mpr ?_
  intro charset _ begins
  exact unmarked (head?_of_begins_mark (List.isPrefixOf_iff_prefix.mp begins))

/-- Behind the mark that is found, all bytes are read in its charset. -/
theorem decode_none_of_sniff
    {charset : Charset}
    {bytes : List UInt8}
    (found : sniff? (charset.mark ++ bytes) = some charset) :
    decode none (charset.mark ++ bytes) = charset.decodeAll bytes := by
  rw [decode, found]
  exact congrArg charset.decodeAll (List.drop_left ..)

/-- Taken for UTF-32LE, a text that begins with U+0000 comes out too short. -/
theorem decode_mark_append_zeros_ne
    (chars : List Char) :
    decode none
      (mark (.utf16 .littleEndian) ++
        encode (.utf16 .littleEndian) ('\x00' :: chars)) ≠
      (Utf16.encode ('\x00' :: chars)).toArray := by
  intro same
  have found :
      sniff?
        (mark (.utf32 .littleEndian) ++ encode (.utf16 .littleEndian) chars) =
        some (.utf32 .littleEndian) :=
    rfl
  have taken := (decode_none_of_sniff found).symm.trans same
  have short :=
    Utf32.length_decodeOnto_le .littleEndian #[]
      (encode (.utf16 .littleEndian) chars)
  have bytes :
      (encode (.utf16 .littleEndian) chars).length =
        2 * (Utf16.encode chars).length :=
    Utf16.length_storeUnits .littleEndian (Utf16.encode chars)
  have longer :
      (Utf32.decodeOnto .littleEndian #[]
          (encode (.utf16 .littleEndian) chars)).toList.length =
        (Utf16.encode chars).length + 1 :=
    congrArg (fun units => units.toList.length) taken
  rw [longer, bytes, List.length_nil] at short
  omega

/-- Without its first character, U+FEFF, a text comes out too short. -/
theorem decode_encode_marked_ne
    (chars : List Char) :
    decode none (encode .utf8 ('\uFEFF' :: chars)) ≠
      (Utf16.encode ('\uFEFF' :: chars)).toArray := by
  intro same
  have taken :
      decode none (encode .utf8 ('\uFEFF' :: chars)) =
        (Utf16.encode chars).toArray :=
    (decode_none_of_sniff (sniff?_mark_append .utf8 (encode .utf8 chars))).trans
      (decodeAll_encode .utf8 chars)
  rw [taken] at same
  have sizes := congrArg Array.size same
  rw [List.size_toArray, List.size_toArray, Utf16.encode_cons] at sizes
  have longer : (Utf16.encodeChar '\uFEFF' ++ Utf16.encode chars).length =
      (Utf16.encode chars).length + 1 :=
    rfl
  omega

/--
Only UTF-16LE whose text begins with U+0000 is taken for another
charset behind its mark.
-/
theorem sniff?_mark_append_encode
    (charset : Charset)
    (chars : List Char) :
    sniff? (charset.mark ++ charset.encode chars) =
      some (if charset = .utf16 .littleEndian ∧ chars.head? = some '\x00' then
        .utf32 .littleEndian
      else
        charset) := by
  rw [sniff?_mark_append]
  by_cases isLittle : charset = .utf16 .littleEndian
  · subst isLittle
    simp only [zeros_prefix_encode_iff]
  · simp only [isLittle, false_and, if_false]

/--
Decoding gives back what was encoded: in the charset that is named,
behind its mark if that is not also another's, and in UTF-8 if no mark
seems to stand in front.
-/
theorem decode_inverts_encode
    (charset : Charset)
    (chars : List Char) :
    decode (some charset) (charset.encode chars) =
      (Utf16.encode chars).toArray ∧
      sniff? (charset.mark ++ charset.encode chars) =
        some (if charset = .utf16 .littleEndian ∧ chars.head? = some '\x00' then
          .utf32 .littleEndian
        else
          charset) ∧
      (decode none (charset.mark ++ charset.encode chars) =
        (Utf16.encode chars).toArray ↔
        ¬(charset = .utf16 .littleEndian ∧ chars.head? = some '\x00')) ∧
      (decode none (encode .utf8 chars) = (Utf16.encode chars).toArray ↔
        chars.head? ≠ some '\uFEFF') := by
  have found := sniff?_mark_append_encode charset chars
  refine ⟨decodeAll_encode charset chars, found, ⟨?_, ?_⟩, ?_, ?_⟩
  · rintro same ⟨rfl, begins⟩
    cases chars with
    | nil =>
        cases begins
    | cons char chars =>
        cases begins
        exact decode_mark_append_zeros_ne chars same
  · intro notMistaken
    rw [if_neg notMistaken] at found
    rw [decode_none_of_sniff found, decodeAll_encode]
  · intro same begins
    cases chars with
    | nil =>
        cases begins
    | cons char chars =>
        cases begins
        exact decode_encode_marked_ne chars same
  · intro unmarked
    rw [decode, sniff?_encode_utf8 unmarked]
    exact decodeAll_encode .utf8 chars

end Charset

end Snbt
