import Snbt.Proofs.Text.ColumnWalks
import Snbt.Proofs.Text.LineLookup
import Snbt.Proofs.Text.PairedUnits

namespace Snbt

/-!
# Columns

The column of an offset is told by the characters before it in its line.  The
table marks the lines with a tab or a high surrogate; in other lines there are
as many characters as units, so that differences of offsets will do.
-/

namespace LineTable

/--
Which lines hold a tab or a high surrogate, the open one being
marked by `uneven`.
-/
def unevenFrom (uneven : Bool) : List CodeUnit → List Bool
  | [] =>
      [uneven]
  | unit :: rest =>
      if unit = CodeUnit.lineFeed && !rest.isEmpty then
        (uneven || isUneven unit) :: unevenFrom false rest
      else
        unevenFrom (uneven || isUneven unit) rest

theorem map_uneven_linesOnto
    (done : Array Line)
    (current : Line)
    (offset : Nat)
    (units : List CodeUnit) :
    (linesOnto done current offset units).toList.map Line.uneven =
      done.toList.map Line.uneven ++ unevenFrom current.uneven units := by
  fun_induction linesOnto done current offset units with
  | case1 done current offset =>
      rw [Array.toList_push, List.map_append]
      rfl
  | case2 done current offset unit rest grown ends inductionHypothesis =>
      rw [inductionHypothesis, unevenFrom, if_pos ends, Array.toList_push,
        List.map_append, List.append_assoc]
      rfl
  | case3 done current offset unit rest grown goesOn inductionHypothesis =>
      rw [inductionHypothesis, unevenFrom, if_neg goesOn]

/-- A tab or a high surrogate stands behind so many `\n`. -/
def HoldsUneven (units : List CodeUnit) (index : Nat) : Prop :=
  ∃ place unit, units[place]? = some unit ∧ isUneven unit = true ∧
    (units.take place).count CodeUnit.lineFeed = index

theorem holdsUneven_cons_iff
    {unit : CodeUnit}
    {rest : List CodeUnit}
    {index : Nat} :
    HoldsUneven (unit :: rest) index ↔
      (index = 0 ∧ isUneven unit = true) ∨
        ∃ later, HoldsUneven rest later ∧
          index = later + if unit = CodeUnit.lineFeed then 1 else 0 := by
  constructor
  · rintro ⟨place, found, present, isFound, rfl⟩
    cases place with
    | zero =>
        cases present
        exact .inl ⟨rfl, isFound⟩
    | succ place =>
        refine .inr ⟨_, ⟨place, found, present, isFound, rfl⟩, ?_⟩
        rw [List.take_succ_cons, List.count_cons]
        simp only [beq_iff_eq]
  · rintro (⟨rfl, isFound⟩ | ⟨_, ⟨place, found, present, isFound, rfl⟩, rfl⟩)
    · exact ⟨0, unit, rfl, isFound, rfl⟩
    · refine ⟨place + 1, found, present, isFound, ?_⟩
      rw [List.take_succ_cons, List.count_cons]
      simp only [beq_iff_eq]

theorem not_holdsUneven_nil
    {index : Nat} :
    ¬HoldsUneven [] index := by
  rintro ⟨_, _, present, _⟩
  cases present

/--
A line is marked when it is so far, or when a tab or a high
surrogate follows in it.
-/
theorem unevenFrom_iff
    {uneven : Bool}
    {index : Nat}
    {units : List CodeUnit} :
    (unevenFrom uneven units)[index]? = some true ↔
      (index = 0 ∧ uneven = true) ∨ HoldsUneven units index := by
  fun_induction unevenFrom uneven units generalizing index with
  | case1 uneven =>
      cases index <;> simp [not_holdsUneven_nil]
  | case2 uneven unit rest ends inductionHypothesis =>
      have isFeed : unit = CodeUnit.lineFeed :=
        of_decide_eq_true (Bool.and_eq_true_iff.mp ends).1
      have notUneven : isUneven CodeUnit.lineFeed = false := by
        decide
      rw [holdsUneven_cons_iff, isFeed, notUneven]
      cases index with
      | zero =>
          simp
      | succ index =>
          simp [inductionHypothesis]
  | case3 uneven unit rest goesOn inductionHypothesis =>
      rw [inductionHypothesis, holdsUneven_cons_iff, Bool.or_eq_true]
      -- a `\n` that opens no line is the last unit, with nothing behind it
      have sameLine :
          (∃ later, HoldsUneven rest later ∧
              index = later + if unit = CodeUnit.lineFeed then 1 else 0) ↔
            HoldsUneven rest index := by
        by_cases isFeed : unit = CodeUnit.lineFeed
        · have ended : rest = [] := by
            simpa [isFeed] using goesOn
          simp [ended, not_holdsUneven_nil]
        · simp [isFeed]
      rw [sameLine, and_or_left, or_assoc]

/-- The table marks the lines with a tab or a high surrogate. -/
theorem isUnevenAt_ofUnits_iff
    {units : Array CodeUnit}
    {index : Nat} :
    (ofUnits units).isUnevenAt index = true ↔
      HoldsUneven units.toList index := by
  have marked :
      (ofUnits units).isUnevenAt index = true ↔
        ((ofUnits units).lines.toList.map Line.uneven)[index]? = some true := by
    rw [isUnevenAt, List.getElem?_map, Array.getElem?_toList]
    cases (ofUnits units).lines[index]? <;> simp
  rw [marked, ofUnits]
  by_cases empty : units.isEmpty = true
  · have noUnits : units.toList = [] :=
      Array.toList_eq_nil_iff.mpr (Array.isEmpty_iff.mp empty)
    simp only [empty, if_true, noUnits]
    exact iff_of_false (fun marks => by cases marks) not_holdsUneven_nil
  · simp only [empty, Bool.false_eq_true, if_false]
    have flags := map_uneven_linesOnto #[] ⟨0, false⟩ 0 units.toList
    rw [List.map_nil, List.nil_append] at flags
    rw [flags, unevenFrom_iff]
    simp

end LineTable

namespace Buffer

/-- Where the line of an offset starts: behind the last `\n` before it. -/
def lineStart (buffer : Buffer) : Nat → Nat
  | 0 =>
      0
  | offset + 1 =>
      if buffer.unit? offset = some CodeUnit.lineFeed then
        offset + 1
      else
        buffer.lineStart offset

/-- Where the character starts that an offset lies in. -/
def charStart (buffer : Buffer) (offset : Nat) : Nat :=
  if (buffer.char? (offset - 1)).map Prod.snd = some 2 then
    offset - 1
  else
    offset

/-- The column at which the line of an offset starts. -/
def firstColumn (buffer : Buffer) (offset : Nat) : Nat :=
  if buffer.lineStart offset = 0 then buffer.startingColumn else 1

/--
The column of an offset, told by the characters before its own in its line.
-/
def columnOf (buffer : Buffer) (offset : Nat) : Nat :=
  (buffer.slice (buffer.lineStart offset)
    (buffer.charStart offset)).toList.foldl
    (columnBehind (max buffer.tabSize 1))
    (buffer.firstColumn offset)

variable {buffer : Buffer} {offset place : Nat}

theorem lineStart_le
    (buffer : Buffer)
    (offset : Nat) :
    buffer.lineStart offset ≤ offset := by
  fun_induction buffer.lineStart offset with
  | case1 =>
      exact Nat.le_refl _
  | case2 =>
      exact Nat.le_refl _
  | case3 offset notFeed inductionHypothesis =>
      exact Nat.le_succ_of_le inductionHypothesis

/-- The number of the line does not go down. -/
theorem lineOf_mono
    (behind : place ≤ offset) :
    buffer.lineOf place ≤ buffer.lineOf offset := by
  have fewer :
      (buffer.units.toList.take place).Sublist
        (buffer.units.toList.take offset) :=
    List.take_sublist_take_left behind
  exact Nat.succ_le_succ (fewer.count_le CodeUnit.lineFeed)

/-- An offset lies in the line that starts at the start of its line. -/
theorem lineOf_lineStart
    (inside : offset ≤ buffer.size) :
    buffer.lineOf (buffer.lineStart offset) = buffer.lineOf offset := by
  fun_induction buffer.lineStart offset with
  | case1 =>
      rfl
  | case2 =>
      rfl
  | case3 offset notFeed inductionHypothesis =>
      have present : buffer.unit? offset = some buffer.units[offset] :=
        Array.getElem?_eq_getElem inside
      rw [present, Option.some.injEq] at notFeed
      rw [inductionHypothesis (Nat.le_of_succ_le inside), lineOf_succ present,
        if_neg notFeed]

/-- From the start of its line on offsets lie in the line of an offset. -/
theorem lineOf_eq_of_lineStart_le
    (inside : offset ≤ buffer.size)
    (behind : buffer.lineStart offset ≤ place)
    (before : place ≤ offset) :
    buffer.lineOf place = buffer.lineOf offset := by
  apply Nat.le_antisymm (lineOf_mono before)
  rw [← lineOf_lineStart inside]
  exact lineOf_mono behind

/-- Before the start of its line other lines lie. -/
theorem lineOf_lt_of_lt_lineStart
    (before : place < buffer.lineStart offset) :
    buffer.lineOf place < buffer.lineOf offset := by
  fun_induction buffer.lineStart offset with
  | case1 =>
      exact absurd before (Nat.not_lt_zero place)
  | case2 offset isFeed =>
      rw [lineOf_succ isFeed, if_pos rfl]
      exact Nat.lt_succ_of_le (lineOf_mono (Nat.le_of_lt_succ before))
  | case3 offset notFeed inductionHypothesis =>
      exact Nat.lt_of_lt_of_le (inductionHypothesis before)
        (lineOf_mono (Nat.le_succ offset))

/-- Offsets of one line share its start. -/
theorem lineStart_congr
    (behind : place ≤ offset)
    (inside : offset ≤ buffer.size)
    (same : buffer.lineOf place = buffer.lineOf offset) :
    buffer.lineStart place = buffer.lineStart offset := by
  have placeStart := lineOf_lineStart (Nat.le_trans behind inside)
  have offsetStart := lineOf_lineStart inside
  apply Nat.le_antisymm
  · apply Nat.le_of_not_lt
    intro before
    have := lineOf_lt_of_lt_lineStart before
    omega
  · apply Nat.le_of_not_lt
    intro before
    have := lineOf_lt_of_lt_lineStart before
    omega

/-- The table has the start of the line of an offset. -/
theorem start?_indexOf
    (inside : offset < buffer.size) :
    buffer.lines.start? (buffer.lines.indexOf offset) =
      some (buffer.lineStart offset) := by
  have isLine := lineOf_eq_indexOf inside
  have startInside : buffer.lineStart offset < buffer.size :=
    Nat.lt_of_le_of_lt (buffer.lineStart_le offset) inside
  obtain ⟨stretch, line, behind, before⟩ :=
    (exists_range?_iff inside).mpr isLine
  have line : buffer.HasLine (buffer.lines.indexOf offset) stretch := line
  obtain ⟨isStart, _⟩ := hasLine_iff.mp line
  have ownStart : buffer.lineStart offset ≤ stretch.1 := by
    apply Nat.le_of_not_lt
    intro earlier
    have := lineOf_lt_of_lt_lineStart earlier
    have := line.lineOf_eq (Nat.le_refl _) line.nonempty
    omega
  have tableStart : stretch.1 ≤ buffer.lineStart offset := by
    have sameLine := (lineOf_lineStart (Nat.le_of_lt inside)).trans isLine
    obtain ⟨other, isOther, reached, _⟩ :=
      (exists_range?_iff startInside).mpr sameLine
    have same : some other = some stretch := isOther.symm.trans line
    cases same
    exact reached
  rw [isStart, Nat.le_antisymm tableStart ownStart]

/-- The first line is the one that starts where the buffer does. -/
theorem indexOf_eq_zero_iff
    (inside : offset < buffer.size) :
    buffer.lines.indexOf offset = 0 ↔ buffer.lineStart offset = 0 := by
  have first := start?_zero (Nat.zero_lt_of_lt inside)
  have own := start?_indexOf inside
  constructor
  · intro isFirst
    rw [isFirst, first] at own
    exact (Option.some.inj own).symm
  · intro isZero
    apply Nat.eq_zero_of_not_pos
    intro later
    have := start?_increasing later first own
    omega

/-- The column of an offset of the buffer, by walking or by difference. -/
theorem columnNumber_of_lt
    (inside : offset < buffer.size) :
    buffer.columnNumber offset =
      if buffer.lines.isUnevenAt (buffer.lines.indexOf offset) then
        LineTable.walk buffer.units (max buffer.tabSize 1)
          (LineTable.walkEnd buffer.units offset) (buffer.lineStart offset)
          (buffer.firstColumn offset)
      else
        offset - buffer.lineStart offset + buffer.firstColumn offset := by
  have inUnits : offset < buffer.units.size := inside
  rw [columnNumber, LineTable.columnNumber, if_pos inUnits]
  simp only [start?_indexOf inside, indexOf_eq_zero_iff inside,
    Option.getD_some]
  rfl

/-- A line is marked when a tab or a high surrogate has its number. -/
theorem isUnevenAt_iff_lineOf
    {index : Nat} :
    buffer.lines.isUnevenAt index = true ↔
      ∃ place unit, buffer.unit? place = some unit ∧
        LineTable.isUneven unit = true ∧
        buffer.lineOf place = index + 1 := by
  rw [buffer.lines_eq, LineTable.isUnevenAt_ofUnits_iff]
  simp only [LineTable.HoldsUneven, Array.getElem?_toList, lineOf, Nat.succ_inj]
  rfl

/-- A line is marked exactly when it holds a tab or a high surrogate. -/
theorem isUnevenAt_iff
    {index : Nat} :
    buffer.lines.isUnevenAt index = true ↔
      ∃ stretch, buffer.HasLine index stretch ∧
        ∃ place unit, stretch.1 ≤ place ∧
        place < stretch.2 ∧ buffer.unit? place = some unit ∧
        (unit = CodeUnit.tab ∨ unit.isHigh = true) := by
  rw [isUnevenAt_iff_lineOf]
  simp only [LineTable.isUneven, Bool.or_eq_true, decide_eq_true_eq]
  constructor
  · rintro ⟨place, unit, present, isFound, isLine⟩
    have inside : place < buffer.size :=
      (Array.getElem?_eq_some_iff.mp present).1
    obtain ⟨stretch, line, behind, before⟩ :=
      (exists_range?_iff inside).mpr isLine
    exact ⟨stretch, line, place, unit, behind, before, present, isFound⟩
  · rintro ⟨stretch, line, place, unit, behind, before, present, isFound⟩
    exact ⟨place, unit, present, isFound, line.lineOf_eq behind before⟩

/-- In a line that is not marked there is no tab and no high surrogate. -/
theorem even_of_not_isUnevenAt
    {unit : CodeUnit}
    (inside : offset < buffer.size)
    (even : ¬buffer.lines.isUnevenAt (buffer.lines.indexOf offset) = true)
    (behind : buffer.lineStart offset ≤ place)
    (before : place ≤ offset)
    (present : buffer.unit? place = some unit) :
    LineTable.isUneven unit = false := by
  apply Bool.eq_false_iff.mpr
  intro isUneven
  apply even
  refine isUnevenAt_iff_lineOf.mpr ⟨place, unit, present, isUneven, ?_⟩
  rw [lineOf_eq_of_lineStart_le (Nat.le_of_lt inside) behind before,
    lineOf_eq_indexOf inside]

/-- A pair is read at the offset before its second half. -/
theorem char?_width_eq_two_iff :
    (buffer.char? offset).map Prod.snd = some 2 ↔
      buffer.SplitsPair (offset + 1) := by
  rw [char?, SplitsPair, Nat.add_sub_cancel]
  cases buffer.unit? offset with
  | none =>
      simp
  | some unit =>
      cases buffer.unit? (offset + 1) with
      | none =>
          simp
      | some next =>
          by_cases isPair : (unit.isHigh && next.isLow) = true
          · simp only [if_pos isPair, Option.map_some, true_iff]
            exact ⟨unit, next, Nat.succ_pos offset, rfl, rfl, isPair⟩
          · simp only [if_neg isPair, Option.map_some, Option.some.injEq]
            refine iff_of_false (by decide) ?_
            rintro ⟨_, _, _, rfl, rfl, split⟩
            exact isPair split

/-- Inside a pair the character starts at the offset before. -/
theorem charStart_of_splitsPair
    (split : buffer.SplitsPair offset) :
    buffer.charStart offset = offset - 1 := by
  obtain ⟨high, low, positive, _⟩ := id split
  rw [charStart, if_pos]
  rw [char?_width_eq_two_iff, Nat.sub_add_cancel positive]
  exact split

/-- Inside no pair a character starts at the offset itself. -/
theorem charStart_of_not_splitsPair
    (whole : ¬buffer.SplitsPair offset) :
    buffer.charStart offset = offset := by
  unfold charStart
  split
  case isTrue twoUnits =>
    rcases Nat.eq_zero_or_pos offset with rfl | positive
    · rfl
    · rw [char?_width_eq_two_iff, Nat.sub_add_cancel positive] at twoUnits
      exact absurd twoUnits whole
  case isFalse =>
    rfl

/-- No character starts inside a pair. -/
theorem not_splitsPair_charStart
    (buffer : Buffer)
    (offset : Nat) :
    ¬buffer.SplitsPair (buffer.charStart offset) := by
  by_cases split : buffer.SplitsPair offset
  · rw [charStart_of_splitsPair split]
    obtain ⟨high, low, _, isHigh, _, isPair⟩ := split
    rintro ⟨_, other, _, _, isLow, otherPair⟩
    rw [isHigh] at isLow
    cases isLow
    simp only [Bool.and_eq_true] at isPair otherPair
    rw [CodeUnit.isHigh_of_isLow otherPair.2] at isPair
    cases isPair.1
  · rw [charStart_of_not_splitsPair split]
    exact split

/-- The character of an offset lies in the line of the offset. -/
theorem lineStart_le_charStart
    (buffer : Buffer)
    (offset : Nat) :
    buffer.lineStart offset ≤ buffer.charStart offset := by
  by_cases split : buffer.SplitsPair offset
  · rw [charStart_of_splitsPair split]
    obtain ⟨high, low, positive, isHigh, _, isPair⟩ := split
    obtain ⟨before, rfl⟩ :=
      Nat.exists_eq_succ_of_ne_zero (Nat.pos_iff_ne_zero.mp positive)
    have notFeed : buffer.unit? before ≠ some CodeUnit.lineFeed := by
      intro isFeed
      have same : some high = some CodeUnit.lineFeed := isHigh.symm.trans isFeed
      cases same
      cases isPair
    rw [lineStart, if_neg notFeed]
    exact buffer.lineStart_le before
  · rw [charStart_of_not_splitsPair split]
    exact buffer.lineStart_le offset

theorem charStart_le
    (buffer : Buffer)
    (offset : Nat) :
    buffer.charStart offset ≤ offset := by
  unfold charStart
  split
  · exact Nat.sub_le offset 1
  · exact Nat.le_refl offset

/-- No high surrogate stands alone in the line of an offset before it. -/
def HighsBefore (buffer : Buffer) (offset : Nat) : Prop :=
  ∀ place, buffer.lineStart offset ≤ place → place < offset →
    ¬buffer.IsLoneHigh place

/--
Up to a place that splits no pair, the high surrogates before it
have their low ones.
-/
theorem HighsBefore.highsPaired
    {stop : Nat}
    (highs : buffer.HighsBefore offset)
    (before : stop ≤ offset)
    (whole : ¬buffer.SplitsPair stop) :
    LineTable.HighsPaired buffer.units (buffer.lineStart offset) stop := by
  intro place unit behind inside present isHigh
  have split : buffer.SplitsPair (place + 1) := by
    apply Classical.byContradiction
    intro alone
    exact highs place behind (Nat.lt_of_lt_of_le inside before)
      ⟨⟨unit, present, isHigh⟩, alone⟩
  constructor
  · apply Nat.lt_of_le_of_ne inside
    rintro rfl
    exact whole split
  · obtain ⟨_, low, _, _, follows, isPair⟩ := split
    exact ⟨low, follows, (Bool.and_eq_true_iff.mp isPair).2⟩

/-- Walking to the character of an offset counts the characters before it. -/
theorem walk_eq_columnOf
    (inside : offset < buffer.size)
    (highs : buffer.HighsBefore offset) :
    LineTable.walk buffer.units (max buffer.tabSize 1) (buffer.charStart offset)
        (buffer.lineStart offset) (buffer.firstColumn offset) =
      buffer.columnOf offset := by
  have before := buffer.charStart_le offset
  have stopInside : buffer.charStart offset ≤ buffer.units.size :=
    Nat.le_trans before (Nat.le_of_lt inside)
  rw [LineTable.walk_eq_foldl stopInside
    (highs.highsPaired before (buffer.not_splitsPair_charStart offset))]
  rw [columnOf, slice, Utf16.toString, String.toList_ofList]

/--
Unless a low surrogate stands alone at an
offset, walking ends at its character.
-/
theorem walkEnd_eq_charStart
    (paired : ¬buffer.IsLoneLow offset) :
    LineTable.walkEnd buffer.units offset = buffer.charStart offset := by
  by_cases split : buffer.SplitsPair offset
  · rw [charStart_of_splitsPair split]
    obtain ⟨_, low, _, _, present, isPair⟩ := split
    have here : buffer.units[offset]? = some low := present
    rw [LineTable.walkEnd, here]
    exact if_pos (Bool.and_eq_true_iff.mp isPair).2
  · rw [charStart_of_not_splitsPair split, LineTable.walkEnd]
    cases here : buffer.units[offset]? with
    | none =>
        rfl
    | some unit =>
        apply if_neg
        intro isLow
        exact paired ⟨⟨unit, here, isLow⟩, split⟩

/-- In a line that is not marked no pair is split. -/
theorem not_splitsPair_of_even
    (inside : offset < buffer.size)
    (even : ¬buffer.lines.isUnevenAt (buffer.lines.indexOf offset) = true) :
    ¬buffer.SplitsPair offset := by
  intro split
  have behind := buffer.lineStart_le_charStart offset
  rw [charStart_of_splitsPair split] at behind
  obtain ⟨high, low, _, present, _, isPair⟩ := split
  have isEven :=
    even_of_not_isUnevenAt inside even behind (Nat.sub_le offset 1) present
  rw [LineTable.isUneven, (Bool.and_eq_true_iff.mp isPair).1,
    Bool.or_true] at isEven
  cases isEven

/-- In a line that is not marked no high surrogate stands alone. -/
theorem highsBefore_of_even
    (inside : offset < buffer.size)
    (even : ¬buffer.lines.isUnevenAt (buffer.lines.indexOf offset) = true) :
    buffer.HighsBefore offset := by
  rintro place behind before ⟨⟨unit, present, isHigh⟩, _⟩
  have isEven :=
    even_of_not_isUnevenAt inside even behind (Nat.le_of_lt before) present
  rw [LineTable.isUneven, isHigh, Bool.or_true] at isEven
  cases isEven

/--
The column of an offset is told by the characters before its own in its line,
unless the line is marked and a surrogate stands alone in it where it is taken
for half of a pair.
-/
theorem columnNumber_eq_columnOf
    (inside : offset < buffer.size)
    (paired :
      buffer.lines.isUnevenAt (buffer.lines.indexOf offset) = true →
        buffer.HighsBefore offset ∧ ¬buffer.IsLoneLow offset) :
    buffer.columnNumber offset = buffer.columnOf offset := by
  rw [columnNumber_of_lt inside]
  split
  case isTrue uneven =>
    obtain ⟨highs, low⟩ := paired uneven
    rw [walkEnd_eq_charStart low]
    exact walk_eq_columnOf inside highs
  case isFalse even =>
    have whole := not_splitsPair_of_even inside even
    rw [← walk_eq_columnOf inside (highsBefore_of_even inside even),
      charStart_of_not_splitsPair whole,
      LineTable.walk_of_even (buffer.lineStart_le offset)
        (Nat.le_of_lt inside)]
    intro place unit behind before present
    exact even_of_not_isUnevenAt inside even behind
      (Nat.le_of_lt before) present

/--
Columns count characters.  A buffer that is read without replacing escapes
holds no lone surrogate; at each of its offsets the column is told by the
characters before it in its line, whether or not the line has to be walked; and
those lines have to be walked that hold a tab or a high surrogate.
-/
theorem columns_count_characters
    {settings : BufferSettings}
    (noEscapes : settings.rules.expandEscapes = false)
    (read : IsRead settings buffer) :
    (∀ offset, ¬buffer.IsLoneHigh offset ∧ ¬buffer.IsLoneLow offset) ∧
      (∀ offset < buffer.size,
        buffer.columnNumber offset = buffer.columnOf offset) ∧
      ∀ index, buffer.lines.isUnevenAt index = true ↔
        ∃ stretch, buffer.HasLine index stretch ∧
          ∃ place unit, stretch.1 ≤ place ∧
          place < stretch.2 ∧ buffer.unit? place = some unit ∧
          (unit = CodeUnit.tab ∨ unit.isHigh = true) := by
  have paired := read.paired noEscapes
  refine ⟨?_, ?_, ?_⟩
  · intro offset
    exact ⟨not_isLoneHigh paired offset, not_isLoneLow paired offset⟩
  · intro offset inside
    apply columnNumber_eq_columnOf inside
    intro _
    exact ⟨fun place _ _ => not_isLoneHigh paired place,
      not_isLoneLow paired offset⟩
  · intro index
    exact isUnevenAt_iff

/--
Tab stops four columns apart, and a first line that starts at the third column.
-/
def tabStops : BufferSettings :=
  { BufferSettings.standard with tabSize := 4, startingColumn := 3 }

/-- Two lines with a tab in each and a pair in the first. -/
def tabbedLines : Buffer :=
  ofString tabStops "\t😀a\nb\tc"

/--
In the first line columns count on from
the third, in the second from the first.
-/
theorem columns_count_characters_tabbedLines :
    tabStops.rules.expandEscapes = false ∧ IsRead tabStops tabbedLines ∧
      [1, 2, 3, 5, 6, 7].map tabbedLines.columnNumber = [5, 5, 6, 1, 2, 5] := by
  have read : IsRead tabStops tabbedLines := .text _
  obtain ⟨_, counted, _⟩ := columns_count_characters rfl read
  have columns :
      [1, 2, 3, 5, 6, 7].map tabbedLines.columnOf = [5, 5, 6, 1, 2, 5] := by
    decide +kernel
  have inside : ∀ offset ∈ [1, 2, 3, 5, 6, 7], offset < tabbedLines.size := by
    decide +kernel
  refine ⟨rfl, read, ?_⟩
  rw [← columns]
  exact List.map_congr_left fun offset member =>
    counted offset (inside offset member)

end Buffer

end Snbt
