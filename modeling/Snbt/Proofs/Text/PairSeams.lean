import Snbt.Text.View

namespace Snbt

/-!
# Seams between code units

Texts of adjacent stretches put together are the text of both, unless a
surrogate pair is cut in two between them.  Reading never stops inside a pair.
-/

/-- The second half of a pair is not the first half of another. -/
theorem CodeUnit.isHigh_of_isLow
    {unit : CodeUnit}
    (isLow : unit.isLow = true) :
    unit.isHigh = false := by
  simp only [CodeUnit.isLow, Bool.and_eq_true, decide_eq_true_eq,
    UInt16.le_iff_toNat_le] at isLow
  simp only [CodeUnit.isHigh, Bool.and_eq_false_iff, decide_eq_false_iff_not,
    UInt16.le_iff_toNat_le]
  right
  have low : 0xDC00 ≤ unit.toNat := isLow.1
  intro high
  have high : unit.toNat ≤ 0xDBFF := high
  omega

/-- Between two runs of units no surrogate pair is cut. -/
def Utf16.IsSeam (first second : List CodeUnit) : Prop :=
  ∀ high low, first.getLast? = some high → second.head? = some low →
    (high.isHigh && low.isLow) = false

namespace Utf16

/-- Decoding goes on behind a seam as it would begin there. -/
theorem decodeOnto_append
    (chars : Array Char)
    (first : List CodeUnit) :
    ∀ second, IsSeam first second →
      decodeOnto chars (first ++ second) =
        decodeOnto (decodeOnto chars first) second := by
  fun_induction decodeOnto chars first with
  | case1 chars =>
      intro second _
      rfl
  | case2 chars unit =>
      intro second seam
      cases second with
      | nil =>
          rfl
      | cons next rest =>
          have notPair := seam unit next rfl rfl
          rw [List.singleton_append, decodeOnto,
            if_neg (by rw [notPair]; exact Bool.false_ne_true)]
  | case3 chars unit next rest isPair inductionHypothesis =>
      intro second seam
      rw [List.cons_append, List.cons_append, decodeOnto, if_pos isPair]
      refine inductionHypothesis second ?_
      intro high low isLast isHead
      refine seam high low ?_ isHead
      cases rest with
      | nil =>
          cases isLast
      | cons =>
          exact isLast
  | case4 chars unit next rest notPair inductionHypothesis =>
      intro second seam
      rw [List.cons_append, List.cons_append, decodeOnto, if_neg notPair]
      refine inductionHypothesis second ?_
      intro high low isLast isHead
      exact seam high low isLast isHead

/-- What is decoded first has no part in what comes behind it. -/
theorem decodeOnto_toList :
    ∀ (units : List CodeUnit) (chars : Array Char),
      (decodeOnto chars units).toList = chars.toList ++ decode units
  | [], chars => by
      simp [decodeOnto, decode]
  | [unit], chars => by
      simp [decodeOnto, decode]
  | unit :: next :: rest, chars => by
      by_cases isPair : (unit.isHigh && next.isLow) = true
      · rw [decode, decodeOnto, decodeOnto, if_pos isPair, if_pos isPair,
          decodeOnto_toList rest, decodeOnto_toList rest]
        simp
      · rw [decode, decodeOnto, decodeOnto, if_neg isPair, if_neg isPair,
          decodeOnto_toList (next :: rest), decodeOnto_toList (next :: rest)]
        simp

/-- Across a seam texts are put together. -/
theorem toString_append
    {first second : List CodeUnit}
    (seam : IsSeam first second) :
    toString (first ++ second) = toString first ++ toString second := by
  rw [toString, decode, decodeOnto_append #[] first second seam,
    decodeOnto_toList, String.ofList_append]
  rfl

end Utf16

namespace Buffer

/-- An offset between the two halves of a surrogate pair. -/
def SplitsPair (buffer : Buffer) (offset : Nat) : Prop :=
  ∃ high low, 0 < offset ∧ buffer.unit? (offset - 1) = some high ∧
    buffer.unit? offset = some low ∧ (high.isHigh && low.isLow) = true

variable {buffer : Buffer} {offset : Nat}

/-- The end of the buffer is inside no pair. -/
theorem not_splitsPair_of_size_le
    (past : buffer.size ≤ offset) :
    ¬buffer.SplitsPair offset := by
  rintro ⟨_, low, _, _, isLow, _⟩
  have inside := (Array.getElem?_eq_some_iff.mp isLow).1
  exact absurd past (Nat.not_le.mpr inside)

/-- Behind a unit that is no high surrogate no pair is split. -/
theorem not_splitsPair_of_unit
    {unit : CodeUnit}
    (present : buffer.unit? (offset - 1) = some unit)
    (notHigh : unit.isHigh = false) :
    ¬buffer.SplitsPair offset := by
  rintro ⟨high, low, _, isHigh, _, isPair⟩
  rw [present] at isHigh
  cases isHigh
  rw [notHigh] at isPair
  cases isPair

/-- Where the buffer begins no pair is split. -/
theorem not_splitsPair_zero :
    ¬buffer.SplitsPair 0 := by
  rintro ⟨_, _, positive, _⟩
  exact Nat.lt_irrefl 0 positive

/-- A character is read with the whole of its pair. -/
theorem not_splitsPair_of_char?
    {char : Char}
    {width : Nat}
    (present : buffer.char? offset = some (char, width)) :
    ¬buffer.SplitsPair (offset + width) := by
  unfold char? at present
  split at present
  case h_1 =>
    cases present
  case h_2 beyond =>
    obtain ⟨_, rfl⟩ := Prod.mk.inj (Option.some.inj present)
    exact not_splitsPair_of_size_le (Array.getElem?_eq_none_iff.mp beyond)
  case h_3 unit next here behind =>
    by_cases isPair : (unit.isHigh && next.isLow) = true
    · rw [if_pos isPair] at present
      obtain ⟨_, rfl⟩ := Prod.mk.inj (Option.some.inj present)
      exact not_splitsPair_of_unit behind
        (CodeUnit.isHigh_of_isLow (Bool.and_eq_true_iff.mp isPair).2)
    · rw [if_neg isPair] at present
      obtain ⟨_, rfl⟩ := Prod.mk.inj (Option.some.inj present)
      rintro ⟨high, low, _, isHigh, isLow, split⟩
      rw [show buffer.unit? offset = some high from isHigh] at here
      rw [isLow] at behind
      cases here
      cases behind
      exact isPair split

end Buffer

namespace View

/-- Reading stops inside no pair. -/
theorem not_splitsPair_of_read?
    {view : View}
    {offset next : Nat}
    {char : Char}
    (read : view.read? offset = some (char, next)) :
    ¬view.buffer.SplitsPair next := by
  simp only [read?] at read
  split at read
  case h_1 present =>
    cases read
    exact Buffer.not_splitsPair_of_char? present
  case h_2 =>
    cases read

end View

end Snbt
