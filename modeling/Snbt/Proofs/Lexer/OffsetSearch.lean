import Mathlib.Order.Bounds.Basic
import Snbt.Lexer.OffsetSet

namespace Snbt.OffsetSet

/-!
# Searching sets of offsets

Going up word by word finds the least member from an offset on, and going down
the greatest before it.  On the way what is still looked for are the bits left
of one word and the members in all words beyond it.
-/

/--
An answer is the least of what is looked
for, and there is none if that is nothing.
-/
def IsLowest (answer? : Option Nat) (sought : Set Nat) : Prop :=
  match answer? with
  | some found => IsLeast sought found
  | none => ∀ offset, offset ∉ sought

/--
An answer is the greatest of what is looked for, and there is none
if that is nothing.
-/
def IsHighest (answer? : Option Nat) (sought : Set Nat) : Prop :=
  match answer? with
  | some found => IsGreatest sought found
  | none => ∀ offset, offset ∉ sought

variable {set : OffsetSet} {answer? : Option Nat} {sought : Set Nat}
  {bits : BitVec 64} {index offset found : Nat}

theorem IsLowest.eq_some_iff
    (isLowest : IsLowest answer? sought) :
    answer? = some found ↔ IsLeast sought found := by
  cases answer? with
  | none =>
      refine ⟨fun impossible => ?_,
        fun isLeast => absurd isLeast.1 (isLowest found)⟩
      cases impossible
  | some lowest =>
      rw [Option.some.injEq]
      refine ⟨fun same => same ▸ isLowest,
        fun isLeast => isLowest.unique isLeast⟩

theorem IsLowest.eq_none_iff
    (isLowest : IsLowest answer? sought) :
    answer? = none ↔ ∀ offset, offset ∉ sought := by
  cases answer? with
  | none =>
      exact iff_of_true rfl isLowest
  | some lowest =>
      exact iff_of_false (Option.some_ne_none _) fun nothing =>
        nothing lowest isLowest.1

theorem IsHighest.eq_some_iff
    (isHighest : IsHighest answer? sought) :
    answer? = some found ↔ IsGreatest sought found := by
  cases answer? with
  | none =>
      refine ⟨fun impossible => ?_,
        fun isGreatest => absurd isGreatest.1 (isHighest found)⟩
      cases impossible
  | some highest =>
      rw [Option.some.injEq]
      refine ⟨fun same => same ▸ isHighest,
        fun isGreatest => isHighest.unique isGreatest⟩

theorem IsHighest.eq_none_iff
    (isHighest : IsHighest answer? sought) :
    answer? = none ↔ ∀ offset, offset ∉ sought := by
  cases answer? with
  | none =>
      exact iff_of_true rfl isHighest
  | some highest =>
      exact iff_of_false (Option.some_ne_none _) fun nothing =>
        nothing highest isHighest.1

/-- What lies in a word that the set has not is no member. -/
theorem not_contains_of_size_le
    (past : set.words.size ≤ offset / 64) :
    set.contains offset = false := by
  rw [contains_eq_getLsbD, word, Array.getElem?_eq_none past]
  exact BitVec.getLsbD_zero

/--
What going up looks for: bits left of a
word, and members in the words behind it.
-/
def SoughtUp (set : OffsetSet) (index : Nat) (bits : BitVec 64) : Set Nat :=
  { offset |
    offset / 64 = index ∧ bits.getLsbD (offset % 64) = true ∨
      index < offset / 64 ∧ set.contains offset = true }

/--
What going down looks for: bits left of a
word, and members in the words before it.
-/
def SoughtDown (set : OffsetSet) (index : Nat) (bits : BitVec 64) : Set Nat :=
  { offset |
    offset / 64 = index ∧ bits.getLsbD (offset % 64) = true ∨
      offset / 64 < index ∧ set.contains offset = true }

/-- The lowest bit of a word is the least that going up looks for. -/
theorem isLeast_soughtUp
    (index : Nat)
    (nonzero : bits ≠ 0) :
    IsLeast (set.SoughtUp index bits) (64 * index + bits.ctz.toNat) := by
  have inWord : bits.ctz.toNat < 64 :=
    BitVec.lt_def.mp (BitVec.ctz_lt_iff_ne_zero.mpr nonzero)
  have isIndex : (64 * index + bits.ctz.toNat) / 64 = index := by
    omega
  have isPlace : (64 * index + bits.ctz.toNat) % 64 = bits.ctz.toNat := by
    omega
  constructor
  · refine .inl ⟨isIndex, ?_⟩
    rw [isPlace]
    exact BitVec.getLsbD_true_ctz_of_ne_zero nonzero
  · rintro other (⟨here, isSet⟩ | ⟨behind, _⟩)
    · by_contra isLower
      have lower : other % 64 < bits.ctz.toNat := by
        omega
      rw [BitVec.getLsbD_false_of_lt_ctz lower] at isSet
      cases isSet
    · omega

/-- The highest bit of a word is the greatest that going down looks for. -/
theorem isGreatest_soughtDown
    (index : Nat)
    (nonzero : bits ≠ 0) :
    IsGreatest (set.SoughtDown index bits)
      (64 * index + (63 - bits.clz.toNat)) := by
  have isIndex : (64 * index + (63 - bits.clz.toNat)) / 64 = index := by
    omega
  have isPlace :
      (64 * index + (63 - bits.clz.toNat)) % 64 = 63 - bits.clz.toNat := by
    omega
  constructor
  · refine .inl ⟨isIndex, ?_⟩
    rw [isPlace]
    exact BitVec.getLsbD_true_clz_of_ne_zero (by decide) nonzero
  · rintro other (⟨here, isSet⟩ | ⟨before, _⟩)
    · by_contra isHigher
      have higher : 64 - bits.clz.toNat ≤ other % 64 := by
        omega
      have isBelow := Nat.lt_of_lt_of_le BitVec.toNat_lt_two_pow_sub_clz
        (Nat.pow_le_pow_right (by decide) higher)
      rw [BitVec.getLsbD, Nat.testBit_lt_two_pow isBelow] at isSet
      cases isSet
    · omega

/-- Going up word by word finds the least that is looked for. -/
theorem isLowest_lowestFrom?
    (set : OffsetSet)
    (index : Nat)
    (bits : BitVec 64) :
    IsLowest (set.lowestFrom? index bits) (set.SoughtUp index bits) := by
  fun_induction set.lowestFrom? index bits with
  | case1 index bits nonzero =>
      exact isLeast_soughtUp index nonzero
  | case2 index bits isZero word present inductionHypothesis =>
      have isWord : set.word (index + 1) = word := by
        rw [OffsetSet.word, present, Option.getD_some]
      have sameSought :
          set.SoughtUp index bits = set.SoughtUp (index + 1) word := by
        ext offset
        rw [not_not.mp isZero]
        constructor
        · rintro (⟨_, isSet⟩ | ⟨behind, isMember⟩)
          · simp at isSet
          · rcases Nat.eq_or_lt_of_le behind with isNext | later
            · rw [contains_eq_getLsbD, ← isNext, isWord] at isMember
              exact .inl ⟨isNext.symm, isMember⟩
            · exact .inr ⟨later, isMember⟩
        · rintro (⟨isNext, isSet⟩ | ⟨later, isMember⟩)
          · rw [← isWord, ← isNext, ← contains_eq_getLsbD] at isSet
            exact .inr ⟨by omega, isSet⟩
          · exact .inr ⟨by omega, isMember⟩
      rw [sameSought]
      exact inductionHypothesis
  | case3 index bits isZero absent =>
      rw [not_not.mp isZero]
      rintro offset (⟨_, isSet⟩ | ⟨behind, isMember⟩)
      · simp at isSet
      · have past := (Array.getElem?_eq_none_iff.mp absent).trans behind
        rw [not_contains_of_size_le past] at isMember
        cases isMember

/-- Going down word by word finds the greatest that is looked for. -/
theorem isHighest_highestTo?
    (set : OffsetSet)
    (index : Nat)
    (bits : BitVec 64) :
    IsHighest (set.highestTo? index bits) (set.SoughtDown index bits) := by
  fun_induction set.highestTo? index bits with
  | case1 index bits nonzero =>
      exact isGreatest_soughtDown index nonzero
  | case2 bits isZero =>
      rw [not_not.mp isZero]
      rintro offset (⟨_, isSet⟩ | ⟨before, _⟩)
      · simp at isSet
      · exact Nat.not_lt_zero _ before
  | case3 bits isZero before inductionHypothesis =>
      have sameSought :
          set.SoughtDown (before + 1) bits =
            set.SoughtDown before (set.word before) := by
        ext offset
        rw [not_not.mp isZero]
        constructor
        · rintro (⟨_, isSet⟩ | ⟨earlier, isMember⟩)
          · simp at isSet
          · rcases Nat.lt_succ_iff_lt_or_eq.mp earlier with earlier | isLast
            · exact .inr ⟨earlier, isMember⟩
            · rw [contains_eq_getLsbD, isLast] at isMember
              exact .inl ⟨isLast, isMember⟩
        · rintro (⟨isLast, isSet⟩ | ⟨earlier, isMember⟩)
          · rw [← isLast, ← contains_eq_getLsbD] at isSet
            exact .inr ⟨by omega, isSet⟩
          · exact .inr ⟨by omega, isMember⟩
      rw [sameSought]
      exact inductionHypothesis

/-- The next member is the least from an offset on. -/
theorem isLowest_next?
    (set : OffsetSet)
    (offset : Nat) :
    IsLowest (set.next? offset)
      { place | offset ≤ place ∧ set.contains place = true } := by
  unfold next?
  split
  case h_1 word present =>
    have isWord : set.word (offset / 64) = word := by
      rw [OffsetSet.word, present, Option.getD_some]
    have sameSought :
        set.SoughtUp (offset / 64) (word &&& ~~~lowBits (offset % 64)) =
          { place | offset ≤ place ∧ set.contains place = true } := by
      ext place
      have inWord : place % 64 < 64 := Nat.mod_lt place (by decide)
      have isLeft :
          (word &&& ~~~lowBits (offset % 64)).getLsbD (place % 64) =
            (word.getLsbD (place % 64) &&
              !decide (place % 64 < offset % 64)) := by
        rw [BitVec.getLsbD_and, BitVec.getLsbD_not, getLsbD_lowBits _ inWord,
          decide_eq_true inWord, Bool.true_and]
      simp only [SoughtUp, Set.mem_ofPred_eq, isLeft, Bool.and_eq_true,
        Bool.not_eq_true', decide_eq_false_iff_not]
      constructor
      · rintro (⟨sameWord, isSet, notBefore⟩ | ⟨behind, isMember⟩)
        · rw [contains_eq_getLsbD, sameWord, isWord]
          exact ⟨by omega, isSet⟩
        · exact ⟨by omega, isMember⟩
      · rintro ⟨notBefore, isMember⟩
        by_cases sameWord : place / 64 = offset / 64
        · rw [contains_eq_getLsbD, sameWord, isWord] at isMember
          exact .inl ⟨sameWord, isMember, by omega⟩
        · exact .inr ⟨by omega, isMember⟩
    rw [← sameSought]
    exact set.isLowest_lowestFrom? _ _
  case h_2 absent =>
    rintro place ⟨notBefore, isMember⟩
    have past :=
      (Array.getElem?_eq_none_iff.mp absent).trans
        (Nat.div_le_div_right notBefore)
    rw [not_contains_of_size_le past] at isMember
    cases isMember

/-- The last member is the greatest before an offset. -/
theorem isHighest_previous?
    (set : OffsetSet)
    (offset : Nat) :
    IsHighest (set.previous? offset)
      { place | place < offset ∧ set.contains place = true } := by
  unfold previous?
  split
  case h_1 =>
    rintro place ⟨before, _⟩
    exact Nat.not_lt_zero _ before
  case h_2 last =>
    have sameSought :
        set.SoughtDown (last / 64)
          (set.word (last / 64) &&& lowBits (last % 64 + 1)) =
          { place | place < last + 1 ∧ set.contains place = true } := by
      ext place
      have inWord : place % 64 < 64 := Nat.mod_lt place (by decide)
      simp only [SoughtDown, Set.mem_ofPred_eq, BitVec.getLsbD_and,
        getLsbD_lowBits _ inWord, Bool.and_eq_true, decide_eq_true_eq]
      constructor
      · rintro (⟨sameWord, isSet, notBehind⟩ | ⟨before, isMember⟩)
        · rw [contains_eq_getLsbD, sameWord]
          exact ⟨by omega, isSet⟩
        · exact ⟨by omega, isMember⟩
      · rintro ⟨before, isMember⟩
        by_cases sameWord : place / 64 = last / 64
        · rw [contains_eq_getLsbD, sameWord] at isMember
          exact .inl ⟨sameWord, isMember, by omega⟩
        · exact .inr ⟨by omega, isMember⟩
    rw [← sameSought]
    exact set.isHighest_highestTo? _ _

end Snbt.OffsetSet
