import Mathlib.Data.List.Forall2
import Snbt.Proofs.Text.PairedUnits

namespace Snbt

/-!
# Malformed bytes

What is malformed is replaced where it stands, and reading goes on behind it.
Bytes of UTF-8 are rejected in runs, but a run goes on with continuation bytes
only, at which no character starts; so it is as if reading started anew behind
each rejected byte.  Units of UTF-16 and values of UTF-32 are replaced one by
one, and so are bytes left over at the end.
-/

namespace Utf8

/--
The units that bytes are decoded to if at each place the bytes of a character
are read where they start there, and a single byte is replaced where none do.
-/
inductive Resynchronizes : List UInt8 → List CodeUnit → Prop where
  | nil :
      Resynchronizes [] []
  | character
      {char : Char}
      {bytes : List UInt8}
      {units : List CodeUnit}
      (behind : Resynchronizes bytes units) :
      Resynchronizes (String.utf8EncodeChar char ++ bytes)
        (Utf16.encodeChar char ++ units)
  | stray
      {byte : UInt8}
      {bytes : List UInt8}
      {units : List CodeUnit}
      (noCharacter : ∀ char, ¬String.utf8EncodeChar char <+: byte :: bytes)
      (behind : Resynchronizes bytes units) :
      Resynchronizes (byte :: bytes) (CodeUnit.replacement :: units)

variable {lead byte : UInt8} {bytes rest run : List UInt8}
  {units others : List CodeUnit} {char : Char}

/-- No character is read exactly where the bytes of none start. -/
theorem front?_eq_none_iff :
    front? lead rest = none ↔
      ∀ char, ¬String.utf8EncodeChar char <+: lead :: rest := by
  constructor
  · rintro nothing char ⟨after, starts⟩
    obtain ⟨first, tail, bytes, read⟩ := front?_encodeChar char after
    rw [bytes, List.cons_append] at starts
    obtain ⟨rfl, behind⟩ := List.cons.inj starts
    rw [behind, nothing] at read
    cases read
  · intro noCharacter
    apply Option.eq_none_iff_forall_ne_some.mpr
    rintro ⟨char, after⟩ found
    exact noCharacter char ⟨after, (eq_utf8EncodeChar_of_front? found).symm⟩

/-- No character starts with a continuation byte. -/
theorem front?_of_isContinuation
    (continues : isContinuation byte = true)
    (rest : List UInt8) :
    front? byte rest = none := by
  rw [isContinuation_iff] at continues
  have notTwo : two? byte rest = none := by
    unfold two?
    split
    · rw [if_neg (by rw [beginsTwo_iff]; omega)]
    · rfl
  have notThree : three? byte rest = none := by
    unfold three?
    split
    · rw [if_neg (by rw [Bool.and_eq_true, beginsThree_iff]; omega)]
    · rfl
  have notFour : four? byte rest = none := by
    unfold four?
    split
    · rw [if_neg
        (by rw [Bool.and_eq_true, Bool.and_eq_true, beginsFour_iff]; omega)]
    · rfl
  rw [front?_of_past rest (by omega), notTwo, notThree, notFour]
  rfl

/-- Rejected bytes behind the first are continuation bytes. -/
theorem exists_rejected
    (lead : UInt8)
    (rest : List UInt8) :
    ∃ run after, rest = run ++ after ∧ run.length = rejected lead rest ∧
      ∀ byte ∈ run, isContinuation byte = true := by
  have none (rest : List UInt8) :
      ∃ run after, rest = run ++ after ∧ run.length = 0 ∧
      ∀ byte ∈ run, isContinuation byte = true :=
    ⟨[], rest, rfl, rfl, fun _ member => by cases member⟩
  have one (second : UInt8) (rest : List UInt8)
    (continues : isContinuation second = true) :
      ∃ run after, second :: rest = run ++ after ∧ run.length = 1 ∧
        ∀ byte ∈ run, isContinuation byte = true :=
    ⟨[second], rest, rfl, rfl, List.forall_mem_singleton.mpr continues⟩
  cases rest with
  | nil =>
      exact none []
  | cons second rest =>
      rw [rejected]
      split
      case isTrue begins =>
        have continues : isContinuation second = true :=
          isContinuation_iff.mpr (beginsFour_iff.mp begins).2.1
        split
        case isTrue goesOn =>
          cases rest with
          | nil =>
              cases goesOn
          | cons third rest =>
              refine ⟨[second, third], rest, rfl, rfl, ?_⟩
              exact List.forall_mem_cons.mpr
                ⟨continues, List.forall_mem_singleton.mpr goesOn⟩
        case isFalse =>
          exact one second rest continues
      case isFalse =>
        split
        case isTrue begins =>
          exact one second rest
            (isContinuation_iff.mpr (beginsThree_iff.mp begins).2.1)
        case isFalse =>
          exact none _

namespace Resynchronizes

/-- Continuation bytes that come first are replaced one by one. -/
theorem behind_run
    (continues : ∀ byte ∈ run, isContinuation byte = true)
    (behind : Resynchronizes bytes units) :
    Resynchronizes (run ++ bytes)
      (List.replicate run.length CodeUnit.replacement ++ units) := by
  induction run with
  | nil =>
      exact behind
  | cons byte run inductionHypothesis =>
      obtain ⟨first, others⟩ := List.forall_mem_cons.mp continues
      rw [List.length_cons, List.replicate_succ]
      exact .stray (front?_eq_none_iff.mp (front?_of_isContinuation first _))
        (inductionHypothesis others)

/-- Decoding writes what reading anew behind each rejected byte would write. -/
theorem exists_decodeOnto
    (done : Array CodeUnit)
    (bytes : List UInt8) :
    ∃ units, Resynchronizes bytes units ∧
      (decodeOnto done bytes).toList = done.toList ++ units := by
  fun_induction decodeOnto done bytes with
  | case1 done =>
      exact ⟨[], .nil, (List.append_nil _).symm⟩
  | case2 done lead rest char after found inductionHypothesis =>
      obtain ⟨units, spelled, written⟩ := inductionHypothesis
      refine ⟨Utf16.encodeChar char ++ units, ?_, ?_⟩
      · rw [eq_utf8EncodeChar_of_front? found]
        exact .character spelled
      · rw [written, Array.toList_appendList, List.append_assoc]
  | case3 done lead rest nothing more inductionHypothesis =>
      obtain ⟨run, after, rest_eq, length, continues⟩ :=
        exists_rejected lead rest
      have left : rest.drop more = after := by
        conv => lhs; rw [rest_eq]
        exact List.drop_left' length
      obtain ⟨units, spelled, written⟩ := inductionHypothesis
      rw [left] at spelled
      refine ⟨List.replicate (1 + more) CodeUnit.replacement ++ units, ?_, ?_⟩
      · have behind := spelled.behind_run continues
        rw [← rest_eq, length] at behind
        rw [Nat.add_comm, List.replicate_succ]
        exact .stray (front?_eq_none_iff.mp nothing) behind
      · rw [written, Array.toList_appendList, List.append_assoc]

/-- Where bytes start, a character is read or the first of them is replaced. -/
theorem of_cons
    (spelled : Resynchronizes (lead :: rest) units) :
    (∃ char after later, front? lead rest = some (char, after) ∧
        units = Utf16.encodeChar char ++ later ∧ Resynchronizes after later) ∨
      (front? lead rest = none ∧
        ∃ later, units = CodeUnit.replacement :: later ∧
        Resynchronizes rest later) := by
  generalize all_eq : lead :: rest = all at spelled
  cases spelled with
  | nil =>
      cases all_eq
  | @character char bytes units behind =>
      obtain ⟨first, tail, encoded, read⟩ := front?_encodeChar char bytes
      rw [encoded, List.cons_append] at all_eq
      obtain ⟨rfl, rfl⟩ := List.cons.inj all_eq
      exact .inl ⟨char, bytes, units, read, rfl, behind⟩
  | stray noCharacter behind =>
      obtain ⟨rfl, rfl⟩ := List.cons.inj all_eq
      exact .inr ⟨front?_eq_none_iff.mpr noCharacter, _, rfl, behind⟩

theorem of_nil
    (spelled : Resynchronizes [] units) :
    units = [] := by
  generalize all_eq : [] = all at spelled
  cases spelled with
  | nil =>
      rfl
  | @character char bytes units behind =>
      obtain ⟨first, tail, encoded, _⟩ := front?_encodeChar char bytes
      rw [encoded] at all_eq
      cases all_eq
  | stray =>
      cases all_eq

/-- Bytes are decoded in one way only. -/
theorem unique
    (spelled : Resynchronizes bytes units)
    (same : Resynchronizes bytes others) :
    units = others := by
  induction spelled generalizing others with
  | nil =>
      exact same.of_nil.symm
  | @character char bytes units behind inductionHypothesis =>
      obtain ⟨first, tail, encoded, read⟩ := front?_encodeChar char bytes
      rw [encoded, List.cons_append] at same
      rcases same.of_cons with
        ⟨other, after, later, found, rfl, goesOn⟩ | ⟨nothing, _⟩
      · rw [read] at found
        cases found
        rw [inductionHypothesis goesOn]
      · rw [read] at nothing
        cases nothing
  | stray noCharacter behind inductionHypothesis =>
      have nothing := front?_eq_none_iff.mpr noCharacter
      rcases same.of_cons with
        ⟨other, after, later, found, _⟩ | ⟨_, later, rfl, goesOn⟩
      · rw [nothing] at found
        cases found
      · rw [inductionHypothesis goesOn]

/--
What bytes are decoded to by reading anew behind each rejected byte is
what they decode to.
-/
theorem iff_decode :
    Resynchronizes bytes units ↔ units = (decode bytes).toList := by
  obtain ⟨written, spelled, decoded⟩ := exists_decodeOnto #[] bytes
  rw [decode, decoded]
  constructor
  · intro same
    exact same.unique spelled
  · rintro rfl
    exact spelled

end Resynchronizes

end Utf8

/-! ## UTF-16 and UTF-32 -/

/-- What bytes that are left over at the end become. -/
def cutOff (left : List UInt8) : List CodeUnit :=
  if left = [] then [] else [CodeUnit.replacement]

namespace Utf16

/-- A high surrogate with a low one behind it. -/
def IsPair (units : List CodeUnit) (place : Nat) : Prop :=
  ∃ high low, units[place]? = some high ∧ units[place + 1]? = some low ∧
    high.isHigh = true ∧
    low.isLow = true

/-- A surrogate that is no half of a pair. -/
structure IsLone (units : List CodeUnit) (index : Nat) : Prop where
  surrogate :
    ∃ unit, units[index]? = some unit ∧ (unit.isHigh = true ∨ unit.isLow = true)
  notHigh : ¬IsPair units index
  notLow : ∀ place, place + 1 = index → ¬IsPair units place

/-- Units in which each surrogate that is no half of a pair is replaced. -/
structure Mends (units mended : List CodeUnit) : Prop where
  length_eq : mended.length = units.length
  lone :
    ∀ index, IsLone units index → mended[index]? = some CodeUnit.replacement
  other : ∀ index, ¬IsLone units index → mended[index]? = units[index]?

variable {unit high low : CodeUnit} {units rest mended : List CodeUnit}
  {index : Nat}

/--
A unit in front changes nothing for those behind it, if it opens no
pair with the first.
-/
theorem isLone_cons_iff
    (apart : index = 0 → ¬IsPair (unit :: rest) 0) :
    IsLone (unit :: rest) (index + 1) ↔ IsLone rest index := by
  constructor
  · rintro ⟨surrogate, notHigh, notLow⟩
    refine ⟨surrogate, notHigh, ?_⟩
    rintro place rfl isPair
    exact notLow (place + 1) rfl isPair
  · rintro ⟨surrogate, notHigh, notLow⟩
    refine ⟨surrogate, notHigh, ?_⟩
    intro place place_eq isPair
    cases place with
    | zero =>
        exact apart (Nat.succ_inj.mp place_eq).symm isPair
    | succ place =>
        exact notLow place (Nat.succ_inj.mp place_eq) isPair

/-- A unit that opens no pair is replaced if it is a surrogate. -/
theorem Mends.cons
    (notPair : ¬IsPair (unit :: rest) 0)
    (mends : Mends rest mended) :
    Mends (unit :: rest)
      ((if unit.isHigh || unit.isLow then CodeUnit.replacement else unit) ::
        mended) := by
  constructor
  case length_eq =>
    rw [List.length_cons, List.length_cons, mends.length_eq]
  case lone =>
    intro index isLone
    cases index with
    | zero =>
        obtain ⟨other, present, isSurrogate⟩ := isLone.surrogate
        cases present
        rw [List.getElem?_cons_zero,
          if_pos (Bool.or_eq_true_iff.mpr isSurrogate)]
    | succ index =>
        exact mends.lone index ((isLone_cons_iff fun _ => notPair).mp isLone)
  case other =>
    intro index notLone
    cases index with
    | zero =>
        have notSurrogate : ¬(unit.isHigh || unit.isLow) = true := by
          intro isSurrogate
          refine notLone
            ⟨⟨unit, rfl, Bool.or_eq_true_iff.mp isSurrogate⟩, notPair, ?_⟩
          intro place impossible
          cases impossible
        rw [List.getElem?_cons_zero, if_neg notSurrogate,
          List.getElem?_cons_zero]
    | succ index =>
        exact mends.other index
          (mt (isLone_cons_iff fun _ => notPair).mpr notLone)

/-- A pair is kept. -/
theorem Mends.pair
    (isHigh : high.isHigh = true)
    (isLow : low.isLow = true)
    (mends : Mends rest mended) :
    Mends (high :: low :: rest) (high :: low :: mended) := by
  have isPair : IsPair (high :: low :: rest) 0 :=
    ⟨high, low, rfl, rfl, isHigh, isLow⟩
  have notPair : ¬IsPair (low :: rest) 0 := by
    rintro ⟨_, _, present, _, lowIsHigh, _⟩
    cases present
    rw [CodeUnit.isHigh_of_isLow isLow] at lowIsHigh
    cases lowIsHigh
  have behind (index : Nat) :
      IsLone (high :: low :: rest) (index + 2) ↔ IsLone rest index := by
    rw [isLone_cons_iff fun isZero => absurd isZero (Nat.succ_ne_zero _),
      isLone_cons_iff fun _ => notPair]
  constructor
  case length_eq =>
    simp only [List.length_cons, mends.length_eq]
  case lone =>
    intro index isLone
    match index, isLone with
    | 0, isLone =>
        exact absurd isPair isLone.notHigh
    | 1, isLone =>
        exact absurd isPair (isLone.notLow 0 rfl)
    | index + 2, isLone =>
        exact mends.lone index ((behind index).mp isLone)
  case other =>
    intro index notLone
    match index, notLone with
    | 0, _ =>
        rfl
    | 1, _ =>
        rfl
    | index + 2, notLone =>
        exact mends.other index (mt (behind index).mpr notLone)

/-- A unit alone is encoded as itself, or as U+FFFD if it is a surrogate. -/
theorem encodeChar_loneChar
    (unit : CodeUnit) :
    encodeChar unit.loneChar =
      [if unit.isHigh || unit.isLow then CodeUnit.replacement else unit] := by
  split
  case isTrue isSurrogate =>
    rw [CodeUnit.loneChar, if_pos isSurrogate]
    rfl
  case isFalse notSurrogate =>
    rw [Bool.or_eq_true, not_or, Bool.not_eq_true, Bool.not_eq_true]
      at notSurrogate
    exact (Codes.alone notSurrogate.1 notSurrogate.2 rfl).encodeChar_eq

/-- Units that are read as characters and written again are mended. -/
theorem mends_encode_decode :
    (units : List CodeUnit) → Mends units (encode (decode units))
  | [] => by
      refine ⟨rfl, ?_, fun _ _ => rfl⟩
      rintro _ ⟨⟨_, present, _⟩, _, _⟩
      cases present
  | [unit] => by
      have notPair : ¬IsPair [unit] 0 := by
        rintro ⟨_, _, _, absent, _⟩
        cases absent
      rw [decode_cons_of_not_pair (by rintro _ ⟨⟩), encode_cons,
        encodeChar_loneChar]
      exact (mends_encode_decode []).cons notPair
  | unit :: next :: rest => by
      by_cases isPair : (unit.isHigh && next.isLow) = true
      · obtain ⟨isHigh, isLow⟩ := Bool.and_eq_true_iff.mp isPair
        have codes : Codes (unit.pairChar next) [unit, next] :=
          .pair isHigh isLow rfl
        have decoded := decode_append_of_codes codes rest
        rw [List.cons_append, List.singleton_append] at decoded
        rw [decoded, encode_cons, codes.encodeChar_eq]
        exact (mends_encode_decode rest).pair isHigh isLow
      · have notPair : ¬IsPair (unit :: next :: rest) 0 := by
          rintro ⟨_, _, first, second, isHigh, isLow⟩
          cases first
          cases second
          exact isPair (Bool.and_eq_true_iff.mpr ⟨isHigh, isLow⟩)
        rw [decode_cons_of_not_pair
          (by rintro _ ⟨⟩; exact Bool.eq_false_iff.mpr isPair), encode_cons,
            encodeChar_loneChar]
        exact (mends_encode_decode (next :: rest)).cons notPair

/-- Where all surrogates are paired, none is lone. -/
theorem Paired.not_isLone
    (paired : Paired units)
    (index : Nat) :
    ¬IsLone units index := by
  rintro ⟨⟨unit, present, isSurrogate⟩, notHigh, notLow⟩
  rcases isSurrogate with isHigh | isLow
  · obtain ⟨low, behind, isLow⟩ := paired.low_behind present isHigh
    exact notHigh ⟨unit, low, present, behind, isHigh, isLow⟩
  · obtain ⟨place, high, rfl, before, isHigh⟩ :=
      paired.high_before present isLow
    exact notLow place rfl ⟨high, unit, before, present, isHigh, isLow⟩

/-- Bytes are those of stored units, and at most one more. -/
theorem exists_storeUnits
    (order : ByteOrder)
    (done : Array CodeUnit)
    (bytes : List UInt8) :
    ∃ units left, bytes = storeUnits order units ++ left ∧ left.length ≤ 1 ∧
      (unitsOnto order done bytes).toList = done.toList ++ units := by
  fun_induction unitsOnto order done bytes with
  | case1 done first second rest inductionHypothesis =>
      obtain ⟨units, left, rfl, few, read⟩ := inductionHypothesis
      have number : order.value [first, second] < 0x100 ^ 2 :=
        order.value_lt [first, second]
      have unit_eq :
          (UInt16.ofNat (order.value [first, second])).toNat =
            order.value [first, second] :=
        UInt16.toNat_ofNat_of_lt' (Nat.lt_of_lt_of_le number (by decide))
      have bytes :
          order.store 2 (order.value [first, second]) = [first, second] :=
        order.store_value [first, second]
      refine ⟨UInt16.ofNat (order.value [first, second]) :: units, left,
        ?_, few, ?_⟩
      · rw [storeUnits_cons, unit_eq, bytes]
        rfl
      · rw [read, Array.toList_push, List.append_assoc, List.singleton_append]
  | case2 bytes done short =>
      refine ⟨[], bytes, rfl, ?_, (List.append_nil _).symm⟩
      rcases bytes with _ | ⟨first, _ | ⟨second, rest⟩⟩
      case cons.cons =>
        exact absurd rfl (short first second rest)
      all_goals simp

/-- UTF-16 is decoded unit by unit. -/
theorem exists_mends
    (order : ByteOrder)
    (bytes : List UInt8) :
    ∃ units left mended, bytes = storeUnits order units ++ left ∧
      left.length ≤ 1 ∧
      Mends units mended ∧
      (ofBytes order bytes).toList = mended ++ cutOff left := by
  obtain ⟨units, left, bytes_eq, few, read⟩ := exists_storeUnits order #[] bytes
  refine ⟨units, left, encode (decode units), bytes_eq, few,
    mends_encode_decode units, ?_⟩
  have length : bytes.length = 2 * units.length + left.length := by
    rw [bytes_eq, List.length_append, length_storeUnits]
  rw [ofBytes, read, List.nil_append, cutOff]
  by_cases whole : left = []
  · have even : bytes.length % 2 = 0 := by
      rw [length, whole, List.length_nil]
      omega
    rw [if_pos even, if_pos whole, List.append_nil]
  · have odd : ¬bytes.length % 2 = 0 := by
      have some := List.length_pos_iff.mpr whole
      omega
    rw [if_neg odd, if_neg whole, Array.toList_push]

end Utf16

namespace Utf32

/--
The units that a value is decoded to: those of its character, or
U+FFFD if it has none.
-/
inductive SpellsValue : Nat → List CodeUnit → Prop where
  | character (char : Char) :
      SpellsValue char.toNat (Utf16.encodeChar char)
  | stray
      {value : Nat}
      (noCharacter : ∀ char : Char, char.toNat ≠ value) :
      SpellsValue value [CodeUnit.replacement]

theorem spellsValue_unitsOfValue
    (value : Nat) :
    SpellsValue value (unitsOfValue value) := by
  unfold unitsOfValue
  split
  case isTrue isChar =>
    have spells := SpellsValue.character (Char.ofNat value)
    rw [Utf16.toNat_ofNat isChar] at spells
    exact spells
  case isFalse noChar =>
    apply SpellsValue.stray
    rintro char rfl
    exact noChar char.valid

/-- The bytes that store values. -/
def storeValues (order : ByteOrder) (values : List Nat) : List UInt8 :=
  values.flatMap (order.store 4)

theorem storeValues_cons
    (order : ByteOrder)
    (value : Nat)
    (values : List Nat) :
    storeValues order (value :: values) =
      order.store 4 value ++ storeValues order values :=
  List.flatMap_cons

/-- UTF-32 is decoded value by value. -/
theorem exists_spellsValue
    (order : ByteOrder)
    (done : Array CodeUnit)
    (bytes : List UInt8) :
    ∃ values left pieces, bytes = storeValues order values ++ left ∧
      (∀ value ∈ values, value < 0x100000000) ∧ left.length ≤ 3 ∧
      List.Forall₂ SpellsValue values pieces ∧
      (decodeOnto order done bytes).toList =
        done.toList ++ (pieces.flatten ++ cutOff left) := by
  fun_induction decodeOnto order done bytes with
  | case1 done first second third fourth rest inductionHypothesis =>
      obtain ⟨values, left, pieces, rfl, bounded, few, spell, written⟩ :=
        inductionHypothesis
      have number : order.value [first, second, third, fourth] < 0x100 ^ 4 :=
        order.value_lt [first, second, third, fourth]
      have bytes :
          order.store 4 (order.value [first, second, third, fourth]) =
            [first, second, third, fourth] :=
        order.store_value [first, second, third, fourth]
      refine ⟨order.value [first, second, third, fourth] :: values, left,
        unitsOfValue (order.value [first, second, third, fourth]) :: pieces,
        ?_, ?_, few, .cons (spellsValue_unitsOfValue _) spell, ?_⟩
      · rw [storeValues_cons, bytes]
        rfl
      · exact List.forall_mem_cons.mpr ⟨number, bounded⟩
      · rw [written, Array.toList_appendList, List.flatten_cons,
          List.append_assoc, List.append_assoc]
  | case2 done =>
      exact ⟨[], [], [], rfl, List.forall_mem_nil _, Nat.zero_le 3, .nil,
        (List.append_nil _).symm⟩
  | case3 bytes done short notEmpty =>
      have left : cutOff bytes = [CodeUnit.replacement] := if_neg notEmpty
      refine ⟨[], bytes, [], rfl, List.forall_mem_nil _, ?_, .nil, ?_⟩
      · rcases bytes with
          _ | ⟨first, _ | ⟨second, _ | ⟨third, _ | ⟨fourth, rest⟩⟩⟩⟩
        case cons.cons.cons.cons =>
          exact absurd rfl (short first second third fourth rest)
        all_goals simp
      · rw [left, Array.toList_push]
        rfl

end Utf32

namespace Charset

/--
Malformed input is replaced where it stands.  UTF-8 is decoded as if reading
started anew behind each byte at which no character starts; UTF-16 unit by
unit, each surrogate that is no half of a pair being replaced; and UTF-32 value
by value, each that is no character's being replaced.  Bytes left over behind
the last unit or value are replaced together.  So nothing that is decoded holds
a surrogate that is no half of a pair.
-/
theorem decode_replaces_malformed :
    (∀ bytes units, Utf8.Resynchronizes bytes units ↔
      units = (decode (some .utf8) bytes).toList) ∧
      (∀ order bytes, ∃ units left mended,
        bytes = Utf16.storeUnits order units ++ left ∧
        left.length ≤ 1 ∧ Utf16.Mends units mended ∧
        (decode (some (.utf16 order)) bytes).toList = mended ++ cutOff left) ∧
      (∀ order bytes, ∃ values left pieces,
        bytes = Utf32.storeValues order values ++ left ∧
        (∀ value ∈ values, value < 0x100000000) ∧ left.length ≤ 3 ∧
        List.Forall₂ Utf32.SpellsValue values pieces ∧
        (decode (some (.utf32 order)) bytes).toList =
          pieces.flatten ++ cutOff left) ∧
      ∀ charset? bytes index,
        ¬Utf16.IsLone (decode charset? bytes).toList index := by
  refine ⟨fun _ _ => Utf8.Resynchronizes.iff_decode, Utf16.exists_mends,
    ?utf32, ?paired⟩
  case utf32 =>
    intro order bytes
    exact Utf32.exists_spellsValue order #[] bytes
  case paired =>
    intro charset? bytes index
    exact (paired_decode charset? bytes).not_isLone index

end Charset

end Snbt
