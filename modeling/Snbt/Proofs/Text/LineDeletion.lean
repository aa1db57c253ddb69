import Snbt.Proofs.Text.LineMasks

namespace Snbt

/-!
# Deleting lines

A buffer from which lines are deleted, with their `\n`, holds the units that
masks on the same lines leave visible.
-/

namespace Normalization

/-- Verbatim text is copied. -/
theorem apply_verbatim
    (tabSize : Nat)
    (raw : List CodeUnit) :
    verbatim.apply tabSize raw = raw.toArray :=
  rfl

end Normalization

namespace LineMask

/--
The units without those of the lines that
masks take out; the first is in `line`.
-/
def deleteFrom
    (masks : List LineMask)
    (line : Nat) :
    List CodeUnit → List CodeUnit
  | [] =>
      []
  | unit :: rest =>
      let later :=
        deleteFrom masks
          (if unit = CodeUnit.lineFeed then line + 1 else line) rest
      if anyTakesOut masks line then later else unit :: later

end LineMask

namespace Buffer

/-- How many offsets before one lie in lines that masks leave. -/
def unmaskedBefore
    (buffer : Buffer)
    (masks : List LineMask)
    (offset : Nat) :
    Nat :=
  (List.range offset).countP fun place => !buffer.isMasked masks place

/-- The buffer of the lines that masks leave, with nothing else changed. -/
def deleteLines (buffer : Buffer) (masks : List LineMask) : Buffer :=
  .ofUnits
    { rules := .verbatim
      tabSize := buffer.tabSize
      startingLine := buffer.startingLine
      startingColumn := buffer.startingColumn }
    (LineMask.deleteFrom masks 1 buffer.units.toList)

variable {buffer : Buffer} {masks : List LineMask} {offset : Nat}

/-- One offset more is counted if it is visible. -/
theorem unmaskedBefore_succ
    (masks : List LineMask)
    (inside : offset < buffer.size) :
    buffer.unmaskedBefore masks (offset + 1) =
      buffer.unmaskedBefore masks offset +
        ((buffer.without masks).shown? offset).toList.length := by
  have present : buffer.unit? offset = some buffer.units[offset] :=
    Array.getElem?_eq_getElem inside
  rw [unmaskedBefore, unmaskedBefore, List.range_succ, List.countP_append,
    List.countP_singleton, ← hidden_without_eq masks inside]
  cases isHidden : (buffer.without masks).hidden offset with
  | true =>
      rw [View.shown?, isHidden]
      rfl
  | false =>
      rw [View.shown?_eq_some_iff.mpr ⟨isHidden, present⟩]
      rfl

/-- Before an offset as many units are visible as offsets are unmasked. -/
theorem length_visible
    (masks : List LineMask)
    (inside : offset ≤ buffer.size) :
    ((buffer.without masks).visible 0 offset).length =
      buffer.unmaskedBefore masks offset := by
  induction offset with
  | zero =>
      rfl
  | succ offset inductionHypothesis =>
      rw [View.visible_succ _ (Nat.zero_le offset), List.length_append,
        inductionHypothesis (Nat.le_of_succ_le inside),
        unmaskedBefore_succ masks inside]

/-- What is left of the lines from an offset on is what is visible of them. -/
theorem deleteFrom_eq_visible
    (masks : List LineMask)
    (units : List CodeUnit)
    (offset : Nat)
    (rest : buffer.units.toList.drop offset = units) :
    LineMask.deleteFrom masks (buffer.lineOf offset) units =
      (buffer.without masks).visible offset (offset + units.length) := by
  induction units generalizing offset with
  | nil =>
      rw [LineMask.deleteFrom, View.visible, List.length_nil,
        Nat.add_sub_cancel_left]
      rfl
  | cons unit units inductionHypothesis =>
      have inside : offset < buffer.units.toList.length := by
        have length := congrArg List.length rest
        rw [List.length_drop, List.length_cons] at length
        omega
      rw [List.drop_eq_getElem_cons inside, List.cons.injEq] at rest
      obtain ⟨rfl, rest⟩ := rest
      have later := inductionHypothesis (offset + 1) rest
      have present :
          buffer.unit? offset = some buffer.units.toList[offset] := by
        rw [unit?, ← Array.getElem?_toList, List.getElem?_eq_getElem inside]
      rw [lineOf_succ present] at later
      rw [Array.length_toList] at inside
      have reaches :
          offset + 1 + units.length = offset + (units.length + 1) := by
        omega
      rw [LineMask.deleteFrom, later, List.length_cons, ← reaches,
        View.visible_cons _
          (Nat.lt_of_lt_of_le (Nat.lt_succ_self offset) (Nat.le_add_right ..)),
        View.shown?, hidden_without_eq masks inside, isMasked,
        show (buffer.without masks).buffer.unit? offset = _ from present]
      by_cases takenOut :
        LineMask.anyTakesOut masks (buffer.lineOf offset) = true
      · rw [if_pos takenOut, if_pos takenOut]
        rfl
      · rw [if_neg takenOut, if_neg takenOut]
        rfl

/--
Without the deleted lines, a buffer holds what is visible of it under masks.
-/
theorem deleteLines_units
    (buffer : Buffer)
    (masks : List LineMask) :
    (buffer.deleteLines masks).units.toList =
      (buffer.without masks).visible 0 buffer.size := by
  have visible :=
    deleteFrom_eq_visible masks buffer.units.toList 0 (List.drop_zero ..)
  rw [Array.length_toList, Nat.zero_add] at visible
  exact (congrArg Array.toList
    (Normalization.apply_verbatim buffer.tabSize _)).trans visible

theorem deleteLines_size
    (buffer : Buffer)
    (masks : List LineMask) :
    (buffer.deleteLines masks).size =
      buffer.unmaskedBefore masks buffer.size := by
  rw [size, ← Array.length_toList, deleteLines_units,
    length_visible masks (Nat.le_refl _)]

theorem unmaskedBefore_mono
    {start stop : Nat}
    (masks : List LineMask)
    (ordered : start ≤ stop) :
    buffer.unmaskedBefore masks start ≤ buffer.unmaskedBefore masks stop :=
  List.Sublist.countP_le (List.range_sublist.mpr ordered)

/-- What is left reaches over all that is unmasked before an offset. -/
theorem unmaskedBefore_le_size
    (masks : List LineMask)
    (inside : offset ≤ buffer.size) :
    buffer.unmaskedBefore masks offset ≤ (buffer.deleteLines masks).size := by
  rw [deleteLines_size]
  exact unmaskedBefore_mono masks inside

/-- A stretch shows what is left of it. -/
theorem deleteLines_visible
    {start stop : Nat}
    (masks : List LineMask)
    (ordered : start ≤ stop)
    (inside : stop ≤ buffer.size) :
    (View.whole (buffer.deleteLines masks)).visible
      (buffer.unmaskedBefore masks start)
        (buffer.unmaskedBefore masks stop) =
      (buffer.without masks).visible start stop := by
  have startInside := Nat.le_trans ordered inside
  have all :
      (View.whole (buffer.deleteLines masks)).visible 0
        (buffer.deleteLines masks).size =
        (buffer.without masks).visible 0 buffer.size := by
    rw [View.visible_whole, size, ← Array.length_toList, List.take_length,
      deleteLines_units]
  have before : ∀ offset, offset ≤ buffer.size →
      ((View.whole (buffer.deleteLines masks)).visible 0
          (buffer.unmaskedBefore masks offset)).length =
        ((buffer.without masks).visible 0 offset).length := by
    intro offset inside
    rw [View.visible_whole, List.length_take_of_le, length_visible masks inside]
    rw [Array.length_toList]
    exact unmaskedBefore_le_size masks inside
  rw [View.visible_eq_drop_take _ (unmaskedBefore_mono masks ordered)
      (unmaskedBefore_le_size masks inside), all, before start startInside,
      before stop inside,
    ← View.visible_eq_drop_take _ ordered inside]

/-- A visible unit stands behind as many units as are unmasked before it. -/
theorem deleteLines_unit?
    (masks : List LineMask)
    (inside : offset ≤ buffer.size)
    (shown :
      offset < buffer.size → (buffer.without masks).hidden offset = false) :
    (buffer.deleteLines masks).unit? (buffer.unmaskedBefore masks offset) =
      buffer.unit? offset := by
  rw [unit?, ← Array.getElem?_toList, deleteLines_units,
    ← View.visible_append _ (Nat.zero_le offset) inside,
    List.getElem?_append_right (Nat.le_of_eq (length_visible masks inside)),
    length_visible masks inside, Nat.sub_self]
  rcases Nat.lt_or_eq_of_le inside with before | rfl
  · have present : buffer.unit? offset = some buffer.units[offset] :=
      Array.getElem?_eq_getElem before
    rw [View.visible_cons _ before,
      View.shown?_eq_some_iff.mpr ⟨shown before, present⟩, present]
    rfl
  · rw [View.visible, Nat.sub_self]
    exact (Array.getElem?_eq_none (Nat.le_refl _)).symm

/-- Before a visible offset fewer are unmasked than before the one behind it. -/
theorem unmaskedBefore_succ_of_shown
    (inside : offset < buffer.size)
    (shown : (buffer.without masks).hidden offset = false) :
    buffer.unmaskedBefore masks (offset + 1) =
      buffer.unmaskedBefore masks offset + 1 := by
  have present : buffer.unit? offset = some buffer.units[offset] :=
    Array.getElem?_eq_getElem inside
  rw [unmaskedBefore_succ masks inside,
    View.shown?_eq_some_iff.mpr ⟨shown, present⟩]
  rfl

/--
Between two offsets with nothing visible between them no more are unmasked.
-/
theorem unmaskedBefore_of_hidden
    {stop : Nat}
    (masks : List LineMask)
    (forward : offset ≤ stop)
    (inside : stop ≤ buffer.size)
    (hidden : ∀ place, offset ≤ place → place < stop →
      (buffer.without masks).hidden place = true) :
    buffer.unmaskedBefore masks stop = buffer.unmaskedBefore masks offset := by
  rw [← length_visible masks inside,
    ← length_visible masks (Nat.le_trans forward inside),
    ← View.visible_append _ (Nat.zero_le offset) forward,
    View.visible_of_hidden hidden, List.append_nil]

/--
Only behind a high surrogate the unit
behind the first has a part in a character.
-/
theorem char?_congr
    {first second : Buffer}
    {other : Nat}
    (here : first.unit? offset = second.unit? other)
    (behind : ∀ unit, second.unit? other = some unit → unit.isHigh = true →
      first.unit? (offset + 1) = second.unit? (other + 1)) :
    first.char? offset = second.char? other := by
  unfold char?
  rw [here]
  cases present : second.unit? other with
  | none =>
      rfl
  | some unit =>
      by_cases isHigh : unit.isHigh = true
      · rw [behind unit present isHigh]
      · rw [Bool.not_eq_true] at isHigh
        cases first.unit? (offset + 1) <;> cases second.unit? (other + 1) <;>
          simp [isHigh]

/-- Behind a visible high surrogate the next unit is visible too. -/
theorem shown_succ_of_isHigh
    {unit : CodeUnit}
    (shown : (buffer.without masks).hidden offset = false)
    (present : buffer.unit? offset = some unit)
    (isHigh : unit.isHigh = true) :
    offset + 1 < buffer.size →
      (buffer.without masks).hidden (offset + 1) = false := by
  intro inside
  refine (buffer.without_hidesLines masks).next_shown shown inside ?_
  intro isFeed
  cases present.symm.trans isFeed
  cases isHigh

/-- A visible character is read where as many units are left before it. -/
theorem deleteLines_char?
    (masks : List LineMask)
    (inside : offset ≤ buffer.size)
    (shown :
      offset < buffer.size → (buffer.without masks).hidden offset = false) :
    (buffer.deleteLines masks).char? (buffer.unmaskedBefore masks offset) =
      buffer.char? offset := by
  refine char?_congr (deleteLines_unit? masks inside shown) ?_
  -- reading looks one unit ahead without asking whether it is hidden: behind
  -- a high surrogate it never is, for what is hidden begins behind a `\n`
  intro unit present isHigh
  have before : offset < buffer.size :=
    (Array.getElem?_eq_some_iff.mp present).1
  rw [← unmaskedBefore_succ_of_shown before (shown before)]
  exact deleteLines_unit? masks before
    (shown_succ_of_isHigh (shown before) present isHigh)

/-- Behind a visible character as many more are unmasked as it takes units. -/
theorem unmaskedBefore_of_char?
    {char : Char}
    {width : Nat}
    (shown : (buffer.without masks).hidden offset = false)
    (read : buffer.char? offset = some (char, width)) :
    buffer.unmaskedBefore masks (offset + width) =
      buffer.unmaskedBefore masks offset + width := by
  have bounds := char?_bounds read
  have next := unmaskedBefore_succ_of_shown (by omega) shown
  unfold char? at read
  split at read
  case h_1 =>
    cases read
  case h_2 =>
    cases read
    exact next
  case h_3 unit low here behind =>
    split at read
    case isFalse =>
      cases read
      exact next
    case isTrue isPair =>
      obtain ⟨_, rfl⟩ := Prod.mk.inj (Option.some.inj read)
      have isHigh := (Bool.and_eq_true_iff.mp isPair).1
      have lowInside : offset + 1 < buffer.size := bounds.2
      have lowShown := shown_succ_of_isHigh shown here isHigh lowInside
      exact (unmaskedBefore_succ_of_shown lowInside lowShown).trans
        (congrArg (· + 1) next)

end Buffer

end Snbt
