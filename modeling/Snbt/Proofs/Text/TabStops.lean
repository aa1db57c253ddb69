import Snbt.Proofs.Text.Columns
import Snbt.Proofs.Text.NormalizedPrefixes

namespace Snbt.Buffer

/-!
# Tab stops

Columns are counted twice: while raw text is normalized, to tell how many
spaces a tab is written as, and in the finished buffer.  Both count the
characters of the line up to an offset, unless a surrogate stands alone before
it.  So the spaces written for a tab lead to a tab stop of the buffer.
-/

open Normalization (openLine writtenColumn)

variable {buffer : Buffer} {offset place : Nat}

/-- No surrogate stands alone up to an offset in its line. -/
structure PairedUpTo (buffer : Buffer) (offset : Nat) : Prop where
  highs : buffer.HighsBefore offset
  lows :
    ∀ place, buffer.lineStart offset ≤ place → place ≤ offset →
      ¬buffer.IsLoneLow place

/-- Where all surrogates are paired, none stands alone. -/
theorem pairedUpTo_of_paired
    (paired : Utf16.Paired buffer.units.toList)
    (offset : Nat) :
    buffer.PairedUpTo offset :=
  ⟨fun place _ _ => not_isLoneHigh paired place,
    fun place _ _ => not_isLoneLow paired place⟩

theorem take_succ_units
    {unit : CodeUnit}
    (present : buffer.unit? offset = some unit) :
    buffer.units.toList.take (offset + 1) =
      buffer.units.toList.take offset ++ [unit] := by
  rw [List.take_add_one, Array.getElem?_toList]
  exact congrArg (_ ++ Option.toList ·) present

theorem extract_succ_units
    {unit : CodeUnit}
    (present : buffer.unit? offset = some unit)
    (behind : place ≤ offset) :
    (buffer.units.extract place (offset + 1)).toList =
      (buffer.units.extract place offset).toList ++ [unit] := by
  obtain ⟨inUnits, rfl⟩ := Array.getElem?_eq_some_iff.mp present
  rw [← Array.toList_push, Array.push_extract_getElem, Nat.min_eq_left behind]

/--
The line that is open at an offset is what
stands between its start and the offset.
-/
theorem openLine_take
    (inside : offset ≤ buffer.size) :
    openLine (buffer.units.toList.take offset) =
      (buffer.units.extract (buffer.lineStart offset)
        offset).toList.reverse := by
  fun_induction buffer.lineStart offset with
  | case1 =>
      rw [List.take_zero, Array.extract_eq_empty_of_le (Nat.min_le_left ..)]
      rfl
  | case2 offset isFeed =>
      have nothing :
          buffer.units.extract (offset + 1) (offset + 1) = #[] :=
        Array.extract_eq_empty_of_le (Nat.min_le_left ..)
      rw [take_succ_units isFeed, Normalization.openLine_concat_lineFeed,
        nothing]
      rfl
  | case3 offset notFeed inductionHypothesis =>
      obtain ⟨unit, present⟩ : ∃ unit, buffer.unit? offset = some unit :=
        ⟨_, Array.getElem?_eq_getElem inside⟩
      rw [present, Option.some.injEq] at notFeed
      rw [take_succ_units present, Normalization.openLine_concat _ notFeed,
        inductionHypothesis (Nat.le_of_succ_le inside),
        extract_succ_units present (buffer.lineStart_le offset),
        List.reverse_append]
      rfl

/--
Walking from where no pair is split counts the units that are no low
surrogates, where there are no tabs and no surrogate stands alone.
-/
theorem walk_eq_countP
    {tabSize start stop column : Nat}
    (ordered : start ≤ stop)
    (inside : stop ≤ buffer.size)
    (noTab : CodeUnit.tab ∉ (buffer.units.extract start stop).toList)
    (highs : LineTable.HighsPaired buffer.units start stop)
    (lows : ∀ place, start ≤ place → place < stop → ¬buffer.IsLoneLow place)
    (whole : ¬buffer.SplitsPair start) :
    LineTable.walk buffer.units tabSize stop start column =
      column + (buffer.units.extract start stop).toList.countP fun unit =>
        !unit.isLow := by
  fun_induction LineTable.walk buffer.units tabSize stop start column with
  | case1 start column before isTab inductionHypothesis =>
      rw [LineTable.toList_extract_cons isTab before] at noTab
      exact absurd List.mem_cons_self noTab
  | case2 start column before unit present notTab isHigh inductionHypothesis =>
      obtain ⟨goesOn, low, follows, isLow⟩ :=
        highs start unit (Nat.le_refl _) before present isHigh
      have notLow : unit.isLow = false := by
        apply Bool.eq_false_iff.mpr
        intro isLow
        rw [CodeUnit.isHigh_of_isLow isLow] at isHigh
        cases isHigh
      have pair :
          (buffer.units.extract start stop).toList =
            unit :: low :: (buffer.units.extract (start + 2) stop).toList := by
        rw [LineTable.toList_extract_cons present before,
          LineTable.toList_extract_cons follows goesOn]
      rw [pair, List.mem_cons, List.mem_cons, not_or, not_or] at noTab
      rw [inductionHypothesis goesOn noTab.2.2 (highs.mono (by omega))
        (fun place behind => lows place (by omega))
        (not_splitsPair_of_unit follows (CodeUnit.isHigh_of_isLow isLow)), pair]
      simp only [List.countP_cons, isLow, notLow, Bool.not_true, Bool.not_false,
        if_true, Bool.false_eq_true, if_false]
      omega
  | case3 start column before unit present notTab notHigh inductionHypothesis =>
      have notLow : unit.isLow = false := by
        apply Bool.eq_false_iff.mpr
        intro isLow
        exact lows start (Nat.le_refl _) before ⟨⟨unit, present, isLow⟩, whole⟩
      rw [LineTable.toList_extract_cons present before, List.mem_cons,
        not_or] at noTab
      rw [inductionHypothesis before noTab.2 (highs.mono (Nat.le_succ _))
        (fun place behind => lows place (by omega))
        (not_splitsPair_of_unit present (Bool.eq_false_iff.mpr notHigh)),
        LineTable.toList_extract_cons present before]
      simp only [List.countP_cons, notLow, Bool.not_false, if_true]
      omega
  | case4 start column before nothing =>
      have beyond : buffer.size ≤ start := Array.getElem?_eq_none_iff.mp nothing
      omega
  | case5 start column reached =>
      have nothing : (buffer.units.extract start stop).toList = [] := by
        rw [Array.toList_eq_nil_iff, Array.extract_eq_empty_iff]
        omega
      rw [nothing]
      rfl

/-- No line starts inside a pair. -/
theorem not_splitsPair_lineStart
    (buffer : Buffer)
    (offset : Nat) :
    ¬buffer.SplitsPair (buffer.lineStart offset) := by
  fun_induction buffer.lineStart offset with
  | case1 =>
      exact not_splitsPair_zero
  | case2 offset isFeed =>
      exact not_splitsPair_of_unit isFeed (by decide)
  | case3 offset notFeed inductionHypothesis =>
      exact inductionHypothesis

/--
The column of an offset is one more than that of the text before it,
counted in writing.
-/
theorem columnNumber_eq_writtenColumn
    (inside : offset < buffer.size)
    (firstColumn : buffer.startingColumn = 1)
    (paired : buffer.PairedUpTo offset)
    (whole : ¬buffer.SplitsPair offset)
    (noTab : CodeUnit.tab ∉ openLine (buffer.units.toList.take offset)) :
    buffer.columnNumber offset =
      1 + writtenColumn (buffer.units.toList.take offset) := by
  have ordered := buffer.lineStart_le offset
  have line := openLine_take (Nat.le_of_lt inside)
  have startsAtOne : buffer.firstColumn offset = 1 := by
    rw [Buffer.firstColumn, firstColumn, ite_self]
  rw [line, List.mem_reverse] at noTab
  rw [columnNumber_eq_columnOf inside fun _ =>
      ⟨paired.highs, paired.lows offset ordered (Nat.le_refl _)⟩,
    ← walk_eq_columnOf inside paired.highs, charStart_of_not_splitsPair whole,
    startsAtOne, walk_eq_countP ordered (Nat.le_of_lt inside) noTab
      (paired.highs.highsPaired (Nat.le_refl _) whole)
      (fun place behind before =>
        paired.lows place behind (Nat.le_of_lt before))
      (buffer.not_splitsPair_lineStart offset),
    writtenColumn, line, List.countP_reverse]

/-- Behind a space the column is that of the text written so far. -/
theorem columnNumber_behind_space
    {text more : List CodeUnit}
    (units : text ++ more = buffer.units.toList)
    (last : text.getLast? = some CodeUnit.space)
    (noTab : CodeUnit.tab ∉ openLine text)
    (inside : text.length < buffer.size)
    (firstColumn : buffer.startingColumn = 1)
    (paired : buffer.PairedUpTo text.length) :
    buffer.columnNumber text.length = 1 + writtenColumn text := by
  have taken : buffer.units.toList.take text.length = text := by
    rw [← units, List.take_left]
  have nonempty : 0 < text.length :=
    List.length_pos_of_mem (List.mem_of_getLast? last)
  have isSpace : buffer.unit? (text.length - 1) = some CodeUnit.space := by
    rw [unit?, ← Array.getElem?_toList, ← units,
      List.getElem?_append_left (Nat.sub_lt nonempty Nat.zero_lt_one),
      ← List.getLast?_eq_getElem?, last]
  have whole : ¬buffer.SplitsPair text.length :=
    not_splitsPair_of_unit isSpace (by decide)
  rw [columnNumber_eq_writtenColumn inside firstColumn paired whole
    (by rwa [taken]), taken]

/-- Where the text goes on behind the spaces that are written for a tab. -/
def behindTab (settings : BufferSettings) (before : List CodeUnit) : Nat :=
  (settings.rules.written settings.tabSize (before ++ [CodeUnit.tab])).length

/--
The spaces written for a tab lead to a tab stop.  Behind the end of a raw line
let every escape before the tab name a unit that takes one column.  The tab is
written as one space at least and as many as the tab size at most; and the unit
behind them has a column that is one more than a multiple of the tab size, if
no surrogate stands alone up to it in its line.  None does where no escapes are
replaced and the raw text has every surrogate in a pair.
-/
theorem tabs_reach_stops
    {settings : BufferSettings}
    {earlier line rest : List CodeUnit}
    (expands : settings.rules.keepTabs = false)
    (firstColumn : settings.startingColumn = 1)
    (ends : settings.rules.EndsLine earlier (line ++ CodeUnit.tab :: rest))
    (harmless : settings.rules.EscapesTakeColumns line)
    (normalized :
      buffer = ofUnits settings (earlier ++ line ++ CodeUnit.tab :: rest)) :
    (∃ width more, 0 < width ∧ width ≤ max settings.tabSize 1 ∧
        settings.rules.written settings.tabSize
          (earlier ++ line ++ [CodeUnit.tab]) =
          settings.rules.written settings.tabSize (earlier ++ line) ++
            List.replicate width CodeUnit.space ∧
        buffer.units.toList =
          settings.rules.written settings.tabSize
            (earlier ++ line ++ [CodeUnit.tab]) ++ more) ∧
      (behindTab settings (earlier ++ line) < buffer.size →
        buffer.PairedUpTo (behindTab settings (earlier ++ line)) →
        buffer.columnNumber (behindTab settings (earlier ++ line)) %
          max settings.tabSize 1 =
          1 % max settings.tabSize 1) ∧
      (settings.rules.expandEscapes = false →
        Utf16.Paired (earlier ++ line ++ CodeUnit.tab :: rest) →
        ∀ offset, buffer.PairedUpTo offset) := by
  obtain ⟨width, column, out, positive, small, divides, counted, out_eq, spaces,
    more, units⟩ :=
    Normalization.written_tab expands ends harmless settings.tabSize
  have units : out.toList ++ more = buffer.units.toList := by
    rw [normalized]
    exact units
  refine ⟨⟨width, more, positive, small, ?_, ?_⟩, ?column, ?paired⟩
  · rw [← out_eq, spaces]
  · rw [← out_eq, units]
  case column =>
    intro inside paired
    have stop : behindTab settings (earlier ++ line) = out.toList.length := by
      rw [behindTab, ← out_eq]
    rw [stop] at inside paired ⊢
    have last : out.toList.getLast? = some CodeUnit.space := by
      rw [spaces, List.getLast?_append, List.getLast?_replicate,
        if_neg (Nat.ne_of_gt positive)]
      rfl
    have startsAtOne : buffer.startingColumn = 1 := by
      rw [normalized]
      exact firstColumn
    rw [columnNumber_behind_space units last counted.noTab inside startsAtOne
      paired, ← counted.column_eq]
    obtain ⟨stops, rfl⟩ := divides
    exact Nat.add_mul_mod_self_left ..
  case paired =>
    intro noEscapes paired
    apply pairedUpTo_of_paired
    rw [normalized]
    exact Normalization.paired_apply noEscapes _ paired

/--
Line ends are folded, escapes replaced,
and tabs expanded to every fourth column.
-/
def wideTabs : BufferSettings :=
  { BufferSettings.standard with
    rules := Normalization.foldingEscapes
    tabSize := 4 }

/-- A letter that is spelled by an escape, and a pair. -/
def escapedLine : List CodeUnit :=
  Normalization.spell 0x41 ++ Utf16.ofString "😀"

theorem escapesTakeColumns_escapedLine :
    wideTabs.rules.EscapesTakeColumns escapedLine := by
  intro _ start stop named escape
  obtain ⟨first, spelled⟩ :
      ∃ first, Normalization.IsEscape escapedLine 0 first 0x41 := by
    rw [escapedLine]
    cases Normalization.spells_spell 0x41 with
    | escape names =>
        exact ⟨_, rfl, _, _, rfl, names, rfl⟩
  cases start with
  | zero =>
      rw [(escape.unique spelled).2]
      exact ⟨by decide, by decide, rfl⟩
  | succ start =>
      have member :=
        List.mem_of_getElem? (l := escapedLine.tail) (i := start)
          escape.backslash
      exact absurd member (by decide)

/--
A line with an escape and a pair begins behind a `\r`, and a tab leads
to its fifth column.
-/
theorem tabs_reach_stops_escapedLine :
    wideTabs.rules.EndsLine (Utf16.ofString "ab\r")
      (escapedLine ++ CodeUnit.tab :: [0x78]) ∧
      wideTabs.rules.EscapesTakeColumns escapedLine ∧
      behindTab wideTabs (Utf16.ofString "ab\r" ++ escapedLine) = 8 ∧
      (ofUnits wideTabs
        (Utf16.ofString "ab\r" ++ escapedLine ++
          CodeUnit.tab :: [0x78])).columnNumber 8 % 4 =
          1 := by
  have ends :
      wideTabs.rules.EndsLine (Utf16.ofString "ab\r")
        (escapedLine ++ CodeUnit.tab :: [0x78]) :=
    .inr (.inr ⟨rfl, by decide, by decide⟩)
  have harmless := escapesTakeColumns_escapedLine
  have place :
      behindTab wideTabs (Utf16.ofString "ab\r" ++ escapedLine) = 8 := by
    decide +kernel
  obtain ⟨_, column, _⟩ := tabs_reach_stops rfl rfl ends harmless rfl
  rw [place] at column
  have units :
      (ofUnits wideTabs
        (Utf16.ofString "ab\r" ++ escapedLine ++
          CodeUnit.tab :: [0x78])).units.toList =
          Utf16.ofString "ab\nA😀  x" := by
    decide +kernel
  refine ⟨ends, harmless, place,
    column (by decide +kernel) (pairedUpTo_of_paired ?_ 8)⟩
  rw [units]
  exact .encode _

/--
The two counts part behind an escape that names a `\n`, which opens a line of
the buffer but takes a column of the raw text, and behind a low surrogate that
stands alone, which takes a column of the buffer but none of the raw text.  A
tab there leads to no tab stop.
-/
theorem miscounted_tabs_miss_stops :
    ((ofUnits wideTabs
          (Normalization.spell CodeUnit.lineFeed ++
            CodeUnit.tab :: [0x78])).units.toList =
        CodeUnit.lineFeed :: (List.replicate 3 CodeUnit.space ++ [0x78]) ∧
      behindTab wideTabs (Normalization.spell CodeUnit.lineFeed) = 4 ∧
      (ofUnits wideTabs
          (Normalization.spell CodeUnit.lineFeed ++
            CodeUnit.tab :: [0x78])).columnNumber 4 % 4 ≠ 1) ∧
    ((ofUnits wideTabs [0xDC00, CodeUnit.tab, 0x78]).units.toList =
        0xDC00 :: (List.replicate 4 CodeUnit.space ++ [0x78]) ∧
      behindTab wideTabs [0xDC00] = 5 ∧
      (ofUnits wideTabs
          [0xDC00, CodeUnit.tab, 0x78]).columnNumber 5 % 4 ≠ 1) := by
  decide +kernel

end Snbt.Buffer
