namespace Snbt

/-!
# Sets of offsets

A set of offsets has a word for every 64 of them and a bit for each.  The next
member and the last one before an offset are found a word at a time: bits on
the wrong side of the offset are masked in its own word, and words without a
bit are passed over.  Each operation that changes a set is described by what it
does to membership.
-/

/-- A set of offsets, 64 in a word. -/
structure OffsetSet where
  words : Array (BitVec 64)
  deriving DecidableEq, Repr

namespace OffsetSet

/-- The word at an index; past the last one no bit is set. -/
def word (set : OffsetSet) (index : Nat) : BitVec 64 :=
  set.words[index]?.getD 0

/-- The bit of an offset in its word. -/
def bitOf (offset : Nat) : BitVec 64 :=
  BitVec.twoPow 64 (offset % 64)

/--
The lowest bits of a word, as many as
`count`; a shift cannot make all 64 of them.
-/
def lowBits (count : Nat) : BitVec 64 :=
  if count < 64 then BitVec.twoPow 64 count - 1 else BitVec.allOnes 64

/-- Whether an offset is a member. -/
def contains (set : OffsetSet) (offset : Nat) : Bool :=
  set.word (offset / 64) &&& bitOf offset != 0

/-- No offset, with words for those below a size. -/
def ofSize (size : Nat) : OffsetSet :=
  ⟨Array.replicate ((size + 63) / 64) 0⟩

/-- Add an offset that has a word. -/
def insert (set : OffsetSet) (offset : Nat) : OffsetSet :=
  ⟨set.words.modify (offset / 64) (· ||| bitOf offset)⟩

/-- Take an offset out. -/
def erase (set : OffsetSet) (offset : Nat) : OffsetSet :=
  ⟨set.words.modify (offset / 64) (· &&& ~~~bitOf offset)⟩

/-- Take out every offset from one on. -/
def eraseFrom (set : OffsetSet) (offset : Nat) : OffsetSet :=
  ⟨set.words.mapIdx fun index word =>
    if index < offset / 64 then
      word
    else if index = offset / 64 then
      word &&& lowBits (offset % 64)
    else
      0⟩

/--
The lowest of the bits left of the word at an index, or else of the
first word behind it.
-/
def lowestFrom?
    (set : OffsetSet)
    (index : Nat)
    (bits : BitVec 64) :
    Option Nat :=
  if bits ≠ 0 then
    some (64 * index + bits.ctz.toNat)
  else
    match _present : set.words[index + 1]? with
    | some word => set.lowestFrom? (index + 1) word
    | none => none
termination_by set.words.size - index
decreasing_by
  have inside := (Array.getElem?_eq_some_iff.mp _present).1
  omega

/-- The first member from an offset on. -/
def next? (set : OffsetSet) (offset : Nat) : Option Nat :=
  match set.words[offset / 64]? with
  | some word =>
      set.lowestFrom? (offset / 64) (word &&& ~~~lowBits (offset % 64))
  | none => none

/--
The highest of the bits left of the word at an index, or else of the
last word before it.
-/
def highestTo?
    (set : OffsetSet)
    (index : Nat)
    (bits : BitVec 64) :
    Option Nat :=
  if bits ≠ 0 then
    some (64 * index + (63 - bits.clz.toNat))
  else
    match index with
    | 0 => none
    | before + 1 => set.highestTo? before (set.word before)

/-- The last member before an offset. -/
def previous? (set : OffsetSet) (offset : Nat) : Option Nat :=
  match offset with
  | 0 => none
  | last + 1 =>
      set.highestTo? (last / 64)
        (set.word (last / 64) &&& lowBits (last % 64 + 1))

/-- A new set has words for all offsets below its size. -/
theorem le_size_ofSize
    (size : Nat) :
    size ≤ 64 * (ofSize size).words.size := by
  rw [ofSize, Array.size_replicate]
  omega

@[simp] theorem size_insert
    (set : OffsetSet)
    (offset : Nat) :
    (set.insert offset).words.size = set.words.size :=
  Array.size_modify

@[simp] theorem size_erase
    (set : OffsetSet)
    (offset : Nat) :
    (set.erase offset).words.size = set.words.size :=
  Array.size_modify

@[simp] theorem size_eraseFrom
    (set : OffsetSet)
    (offset : Nat) :
    (set.eraseFrom offset).words.size = set.words.size :=
  Array.size_mapIdx

/-- The bit of an offset is set at its place in the word, and nowhere else. -/
theorem getLsbD_bitOf
    (offset other : Nat) :
    (bitOf offset).getLsbD (other % 64) =
      decide (other % 64 = offset % 64) := by
  rw [bitOf, BitVec.getLsbD_twoPow,
    decide_eq_true (Nat.mod_lt offset (by decide)), Bool.true_and]
  exact decide_eq_decide.mpr eq_comm

/-- The lowest bits are those below their number. -/
theorem getLsbD_lowBits
    (count : Nat)
    {place : Nat}
    (inWord : place < 64) :
    (lowBits count).getLsbD place = decide (place < count) := by
  unfold lowBits
  split
  case isTrue fewer =>
    have isNumber :
        BitVec.twoPow 64 count - 1 = BitVec.ofNat 64 (2 ^ count - 1) := by
      apply BitVec.eq_of_toNat_eq
      have bound : 2 ^ count < 2 ^ 64 := Nat.pow_lt_pow_right (by decide) fewer
      have positive : 0 < 2 ^ count := Nat.two_pow_pos count
      have isOne : BitVec.toNat (1 : BitVec 64) = 1 := rfl
      rw [BitVec.toNat_sub, BitVec.toNat_twoPow, BitVec.toNat_ofNat, isOne]
      omega
    rw [isNumber, BitVec.getLsbD_ofNat, Nat.testBit_two_pow_sub_one,
      decide_eq_true inWord, Bool.true_and]
  case isFalse all =>
    rw [BitVec.getLsbD_allOnes, decide_eq_true inWord]
    exact (decide_eq_true (by omega)).symm

/-- An offset is a member exactly if its bit is set. -/
theorem contains_eq_getLsbD
    (set : OffsetSet)
    (offset : Nat) :
    set.contains offset = (set.word (offset / 64)).getLsbD (offset % 64) := by
  have isBit : bitOf offset ≠ 0 := by
    intro isZero
    have atPlace := getLsbD_bitOf offset offset
    rw [isZero, decide_eq_true rfl] at atPlace
    simp at atPlace
  rw [contains]
  rw [bitOf] at isBit ⊢
  rw [BitVec.and_twoPow]
  cases (set.word (offset / 64)).getLsbD (offset % 64) with
  | true =>
      exact bne_iff_ne.mpr isBit
  | false =>
      rfl

/-- A word is changed only where its index is that of the offset. -/
private theorem word_modify
    (set : OffsetSet)
    (change : BitVec 64 → BitVec 64)
    (changed index : Nat) :
    word ⟨set.words.modify changed change⟩ index =
      if changed = index ∧ index < set.words.size then
        change (set.word index)
      else
        set.word index := by
  rw [word, word, Array.getElem?_modify]
  by_cases inside : index < set.words.size
  · by_cases here : changed = index
    · rw [if_pos here, if_pos ⟨here, inside⟩, Array.getElem?_eq_getElem inside]
      rfl
    · rw [if_neg here, if_neg (not_and_of_not_left _ here)]
  · rw [if_neg (not_and_of_not_right _ inside),
      Array.getElem?_eq_none (Nat.le_of_not_lt inside),
      Option.map_none, ite_self]

/-- Adding an offset that has a word makes it a member. -/
theorem contains_insert
    {offset : Nat}
    (set : OffsetSet)
    (other : Nat)
    (hasWord : offset < 64 * set.words.size) :
    (set.insert offset).contains other =
      (set.contains other || decide (other = offset)) := by
  rw [contains_eq_getLsbD, contains_eq_getLsbD, insert, word_modify]
  split
  case isTrue sameWord =>
    have sameBit :
        decide (other % 64 = offset % 64) = decide (other = offset) :=
      decide_eq_decide.mpr (by omega)
    rw [BitVec.getLsbD_or, getLsbD_bitOf, sameBit]
  case isFalse apart =>
    rw [decide_eq_false (by rintro rfl; omega), Bool.or_false]

/-- Taking an offset out leaves the others. -/
theorem contains_erase
    (set : OffsetSet)
    (offset other : Nat) :
    (set.erase offset).contains other =
      (set.contains other && !decide (other = offset)) := by
  rw [contains_eq_getLsbD, contains_eq_getLsbD, erase, word_modify]
  split
  case isTrue sameWord =>
    have sameBit :
        decide (other % 64 = offset % 64) = decide (other = offset) :=
      decide_eq_decide.mpr (by omega)
    rw [BitVec.getLsbD_and, BitVec.getLsbD_not, getLsbD_bitOf,
      decide_eq_true (Nat.mod_lt other (by decide)), Bool.true_and, sameBit]
  case isFalse apart =>
    by_cases here : other = offset
    · subst here
      have noWord : set.word (other / 64) = 0 := by
        rw [word, Array.getElem?_eq_none (by omega)]
        rfl
      rw [noWord]
      simp
    · rw [decide_eq_false here, Bool.not_false, Bool.and_true]

/-- Sets with as many words and the same members are equal. -/
theorem ext_contains
    {first second : OffsetSet}
    (sameSize : first.words.size = second.words.size)
    (same : ∀ offset, first.contains offset = second.contains offset) :
    first = second := by
  obtain ⟨firstWords⟩ := first
  obtain ⟨secondWords⟩ := second
  refine congrArg mk (Array.ext sameSize fun index inFirst inSecond => ?_)
  refine BitVec.eq_of_getLsbD_eq fun place inWord => ?_
  have bits := same (64 * index + place)
  have isIndex : (64 * index + place) / 64 = index := by
    omega
  have isPlace : (64 * index + place) % 64 = place := by
    omega
  rw [contains_eq_getLsbD, contains_eq_getLsbD, isIndex, isPlace, word, word,
    Array.getElem?_eq_getElem inFirst,
    Array.getElem?_eq_getElem inSecond] at bits
  exact bits

/-- Taking out an offset that is no member changes nothing. -/
theorem erase_of_not_contains
    {set : OffsetSet}
    {offset : Nat}
    (absent : set.contains offset = false) :
    set.erase offset = set := by
  refine ext_contains (set.size_erase offset) fun other => ?_
  rw [contains_erase]
  by_cases here : other = offset
  · rw [here, absent, Bool.false_and]
  · rw [decide_eq_false here, Bool.not_false, Bool.and_true]

/-- Taking out all from an offset on leaves those before it. -/
theorem contains_eraseFrom
    (set : OffsetSet)
    (offset other : Nat) :
    (set.eraseFrom offset).contains other =
      (set.contains other && decide (other < offset)) := by
  rw [contains_eq_getLsbD, contains_eq_getLsbD, word, word, eraseFrom,
    Array.getElem?_mapIdx]
  cases set.words[other / 64]? with
  | none =>
      simp
  | some word =>
      rw [Option.map_some, Option.getD_some, Option.getD_some]
      split
      case isTrue earlier =>
        rw [decide_eq_true (by omega), Bool.and_true]
      case isFalse notEarlier =>
        split
        case isTrue sameWord =>
          have sameOrder :
              decide (other % 64 < offset % 64) = decide (other < offset) :=
            decide_eq_decide.mpr (by omega)
          rw [BitVec.getLsbD_and,
            getLsbD_lowBits _ (Nat.mod_lt other (by decide)), sameOrder]
        case isFalse later =>
          rw [decide_eq_false (by omega), Bool.and_false]
          exact BitVec.getLsbD_zero

/-- A new set has no member. -/
@[simp] theorem contains_ofSize
    (size offset : Nat) :
    (ofSize size).contains offset = false := by
  rw [contains_eq_getLsbD, word, ofSize, Array.getElem?_replicate]
  split <;> simp

end OffsetSet

end Snbt
