import Snbt.Proofs.Text.Columns

namespace Snbt.Buffer

/-!
# Positions in order

A character that starts behind another one is reported behind it: on a later
line, or on the same line in a later column.  Lines are told apart by their
numbers except the first two when lines count from 0, because no line inside a
buffer has the number 0.  Columns of a line that is walked are told apart
exactly if walking rests between the two, which it does unless it takes one of
them for half of a pair with its neighbour.
-/

/-- The offsets that reading one character after the other comes to. -/
inductive IsCharStart (buffer : Buffer) : Nat → Prop where
  | first :
      IsCharStart buffer 0
  | next
      {offset width : Nat}
      {char : Char}
      (start : IsCharStart buffer offset)
      (read : buffer.char? offset = some (char, width)) :
      IsCharStart buffer (offset + width)

/--
One offset is reported before another, on
an earlier line or in an earlier column.
-/
def ReportedBefore (buffer : Buffer) (first second : Nat) : Prop :=
  buffer.lineNumber first < buffer.lineNumber second ∨
    (buffer.lineNumber first = buffer.lineNumber second ∧
      buffer.columnNumber first < buffer.columnNumber second)

variable {buffer : Buffer} {offset first second : Nat}

/-- Characters start inside no pair. -/
theorem IsCharStart.not_splitsPair
    (start : buffer.IsCharStart offset) :
    ¬buffer.SplitsPair offset := by
  cases start with
  | first =>
      exact not_splitsPair_zero
  | next _ read =>
      exact not_splitsPair_of_char? read

/-- The walk to an offset does not lead past it. -/
theorem walkEnd_le
    (buffer : Buffer)
    (offset : Nat) :
    LineTable.walkEnd buffer.units offset ≤ offset := by
  unfold LineTable.walkEnd
  split
  · split
    · exact Nat.sub_le offset 1
    · exact Nat.le_refl offset
  · exact Nat.le_refl offset

/-- The walk to an offset ends there or one offset before. -/
theorem le_walkEnd_succ
    (buffer : Buffer)
    (offset : Nat) :
    offset ≤ LineTable.walkEnd buffer.units offset + 1 := by
  unfold LineTable.walkEnd
  split
  · split <;> omega
  · omega

/--
Walking rests at the start of a line,
because no high surrogate stands before it.
-/
theorem restsAt_lineStart
    (buffer : Buffer)
    (offset : Nat) :
    LineTable.RestsAt buffer.units (buffer.lineStart offset) := by
  induction offset with
  | zero =>
      rfl
  | succ offset inductionHypothesis =>
      rw [lineStart]
      split
      case isTrue isFeed =>
        exact LineTable.restsAt_succ_of_not_high isFeed (by decide)
      case isFalse =>
        exact inductionHypothesis

/--
Walking along the line rests between two offsets, which tells them apart.  It
takes a high surrogate for half of a pair with the unit behind it, and does not
rest there; and it takes a low surrogate for half of one with the unit before
it, and goes no further than there.
-/
def ToldApart (buffer : Buffer) (first second : Nat) : Prop :=
  ∃ place, buffer.lineStart second ≤ place ∧
    LineTable.walkEnd buffer.units first ≤ place ∧
    place < LineTable.walkEnd buffer.units second ∧
    LineTable.RestsAt buffer.units place

/--
Characters are told apart unless a low surrogate alone is the second of them,
or a high one alone stands before the first.
-/
theorem IsCharStart.toldApart
    (firstStart : buffer.IsCharStart first)
    (secondStart : buffer.IsCharStart second)
    (before : first < second)
    (inside : second < buffer.size)
    (sameLine : buffer.lineOf first = buffer.lineOf second)
    (low : ¬buffer.IsLoneLow second)
    (high : ∀ place, place + 1 = first → ¬buffer.IsLoneHigh place) :
    buffer.ToldApart first second := by
  have sameStart :=
    lineStart_congr (Nat.le_of_lt before) (Nat.le_of_lt inside) sameLine
  have behind : buffer.lineStart second ≤ first := by
    rw [← sameStart]
    exact buffer.lineStart_le first
  have rests : LineTable.RestsAt buffer.units first := by
    cases first with
    | zero =>
        rfl
    | succ place =>
        have here : place < buffer.units.size :=
          Nat.lt_of_succ_lt (Nat.lt_trans before inside)
        have present := Array.getElem?_eq_getElem here
        apply LineTable.restsAt_succ_of_not_high present
        intro isHigh
        exact high place rfl ⟨⟨_, present, isHigh⟩, firstStart.not_splitsPair⟩
  have ended : LineTable.walkEnd buffer.units second = second :=
    (walkEnd_eq_charStart low).trans
      (charStart_of_not_splitsPair secondStart.not_splitsPair)
  exact ⟨first, behind, buffer.walkEnd_le first,
    Nat.lt_of_lt_of_eq before ended.symm, rests⟩

/--
Of two offsets of one line the later one has the later column, exactly if the
line is not walked or they are told apart.
-/
theorem columnNumber_lt_iff
    (before : first < second)
    (inside : second < buffer.size)
    (sameLine : buffer.lineOf first = buffer.lineOf second) :
    buffer.columnNumber first < buffer.columnNumber second ↔
      (buffer.lines.isUnevenAt (buffer.lines.indexOf second) = true →
        buffer.ToldApart first second) := by
  have firstInside : first < buffer.size := Nat.lt_trans before inside
  have sameStart :=
    lineStart_congr (Nat.le_of_lt before) (Nat.le_of_lt inside) sameLine
  have sameIndex :
      buffer.lines.indexOf first = buffer.lines.indexOf second := by
    have firstIndex := lineOf_eq_indexOf firstInside
    have secondIndex := lineOf_eq_indexOf inside
    omega
  rw [columnNumber_of_lt firstInside, columnNumber_of_lt inside, sameIndex,
    firstColumn, firstColumn, sameStart]
  split
  case isTrue uneven =>
    have tabs : 0 < max buffer.tabSize 1 :=
      Nat.lt_of_lt_of_le Nat.one_pos (Nat.le_max_right ..)
    have ordered :
        LineTable.walkEnd buffer.units first ≤
          LineTable.walkEnd buffer.units second := by
      have firstEnd := buffer.walkEnd_le first
      have secondEnd := buffer.le_walkEnd_succ second
      omega
    have endsInside :
        LineTable.walkEnd buffer.units second ≤ buffer.units.size :=
      Nat.le_trans (buffer.walkEnd_le second) (Nat.le_of_lt inside)
    have rests := buffer.restsAt_lineStart second
    rw [LineTable.walk_lt_walk_iff tabs ordered endsInside rests]
    exact ⟨fun told _ => told, fun told => told uneven⟩
  case isFalse even =>
    have behind : buffer.lineStart second ≤ first := by
      rw [← sameStart]
      exact buffer.lineStart_le first
    refine ⟨fun _ uneven => absurd uneven even, fun _ => ?_⟩
    omega

/-- The number of the line does not go down in a buffer. -/
theorem lineNumber_mono
    (behind : first ≤ second)
    (inside : second < buffer.size) :
    buffer.lineNumber first ≤ buffer.lineNumber second := by
  have : buffer.lineOf first ≤ buffer.lineOf second := lineOf_mono behind
  rw [lineNumber_of_lt inside,
    lineNumber_of_lt (Nat.lt_of_le_of_lt behind inside)]
  omega

/--
A later line has a later number, but for the first two lines counted from 0.
-/
theorem lineNumber_lt
    (inside : second < buffer.size)
    (before : first < second)
    (laterLine : buffer.lineOf first < buffer.lineOf second)
    (apart :
      buffer.startingLine = 0 → buffer.lineOf first = 1 →
        buffer.lineOf second ≠ 2) :
    buffer.lineNumber first < buffer.lineNumber second := by
  have firstLine : 1 ≤ buffer.lineOf first := Nat.succ_pos _
  rw [lineNumber_of_lt inside, lineNumber_of_lt (Nat.lt_trans before inside)]
  omega

/-- Counted from 0, the first two lines have one number. -/
theorem lineNumber_of_zero
    (fromZero : buffer.startingLine = 0)
    (inside : offset < buffer.size)
    (early : buffer.lineOf offset ≤ 2) :
    buffer.lineNumber offset = 1 := by
  rw [lineNumber_of_lt inside, fromZero]
  omega

/--
Positions are reported in the order of their characters.  Line numbers never
go down, and counting from 0 gives the number 1 to the first two lines.
Unless one of two characters lies on the first and the other on the second
of these, the earlier one is reported before the later one, if the two are
told apart where they lie on one line that has to be walked.  They are,
unless a low surrogate alone is the later one or a high one alone stands
before the earlier one.
-/
theorem positions_in_order
    (firstStart : buffer.IsCharStart first)
    (secondStart : buffer.IsCharStart second)
    (before : first < second)
    (inside : second < buffer.size) :
    buffer.lineNumber first ≤ buffer.lineNumber second ∧
      (buffer.startingLine = 0 → buffer.lineOf second ≤ 2 →
        buffer.lineNumber first = 1 ∧ buffer.lineNumber second = 1) ∧
      ((buffer.startingLine = 0 → buffer.lineOf first = 1 →
        buffer.lineOf second ≠ 2) →
        (buffer.lineOf first = buffer.lineOf second →
          buffer.lines.isUnevenAt (buffer.lines.indexOf second) = true →
            buffer.ToldApart first second) →
        buffer.ReportedBefore first second) ∧
      (buffer.lineOf first = buffer.lineOf second →
        ¬buffer.IsLoneLow second →
        (∀ place, place + 1 = first → ¬buffer.IsLoneHigh place) →
        buffer.ToldApart first second) := by
  have behind : buffer.lineOf first ≤ buffer.lineOf second :=
    lineOf_mono (Nat.le_of_lt before)
  have firstInside : first < buffer.size := Nat.lt_trans before inside
  refine ⟨lineNumber_mono (Nat.le_of_lt before) inside, ?clamped,
    ?ordered, ?apart⟩
  case clamped =>
    intro fromZero early
    exact ⟨lineNumber_of_zero fromZero firstInside (Nat.le_trans behind early),
      lineNumber_of_zero fromZero inside early⟩
  case ordered =>
    intro lines apart
    rcases Nat.lt_or_eq_of_le behind with laterLine | sameLine
    · exact .inl (lineNumber_lt inside before laterLine lines)
    · have sameNumber : buffer.lineNumber first = buffer.lineNumber second := by
        rw [lineNumber_of_lt inside, lineNumber_of_lt firstInside, sameLine]
      have laterColumn :=
        (columnNumber_lt_iff before inside sameLine).mpr (apart sameLine)
      exact .inr ⟨sameNumber, laterColumn⟩
  case apart =>
    exact firstStart.toldApart secondStart before inside

/-- A line with a tab, begun by a high surrogate that stands alone. -/
def strayedLine : Buffer :=
  ofUnits .standard [0xD800, 0x61, 0x62, 0x09, 0x63]

/-- The letter behind the stray surrogate is reported before the tab. -/
theorem positions_in_order_strayedLine :
    strayedLine.IsCharStart 1 ∧ strayedLine.IsCharStart 3 ∧ 1 < 3 ∧
      3 < strayedLine.size ∧
      strayedLine.lines.isUnevenAt (strayedLine.lines.indexOf 3) = true ∧
      strayedLine.ToldApart 1 3 ∧ strayedLine.ReportedBefore 1 3 := by
  have reads :
      ∀ offset < 3, ∃ char, strayedLine.char? offset = some (char, 1) := by
    have widths :
        ∀ offset < 3, (strayedLine.char? offset).map Prod.snd = some 1 := by
      decide +kernel
    intro offset few
    obtain ⟨⟨char, width⟩, read, rfl⟩ :=
      Option.map_eq_some_iff.mp (widths offset few)
    exact ⟨char, read⟩
  have starts : ∀ offset ≤ 3, strayedLine.IsCharStart offset := by
    intro offset
    induction offset with
    | zero =>
        intro _
        exact .first
    | succ offset inductionHypothesis =>
        intro few
        obtain ⟨char, read⟩ := reads offset few
        exact (inductionHypothesis (Nat.le_of_succ_le few)).next read
  have inside : 3 < strayedLine.size := by
    decide +kernel
  have apart : strayedLine.ToldApart 1 3 := by
    refine ⟨2, ?_, ?_, ?_, ?_⟩
    · decide +kernel
    · decide +kernel
    · decide +kernel
    · rw [LineTable.RestsAt]
      decide +kernel
  have counted : strayedLine.startingLine ≠ 0 := by
    decide +kernel
  obtain ⟨_, _, reported, _⟩ :=
    positions_in_order (starts 1 (by omega)) (starts 3 (by omega))
      (by omega) inside
  exact ⟨starts 1 (by omega), starts 3 (by omega),
    by omega, inside, by decide +kernel, apart,
    reported (fun zero => absurd zero counted) fun _ _ => apart⟩

/-- Two lines that are counted from 0. -/
def linesFromZero : Buffer :=
  ofString { BufferSettings.standard with startingLine := 0 } "a\nb"

/--
Counted from 0, the first two lines have one number, and their
characters one position.
-/
theorem first_lines_share_positions :
    ¬∀ (buffer : Buffer) (first second : Nat),
      buffer.IsCharStart first → buffer.IsCharStart second →
      first < second → second < buffer.size →
      buffer.ReportedBefore first second := by
  intro always
  have letter : linesFromZero.char? 0 = some ('a', 1) := by
    decide +kernel
  have lineEnd : linesFromZero.char? 1 = some ('\n', 1) := by
    decide +kernel
  have inside : 2 < linesFromZero.size := by
    decide +kernel
  have sameLine : linesFromZero.lineNumber 0 = linesFromZero.lineNumber 2 := by
    decide +kernel
  have sameColumn :
      linesFromZero.columnNumber 0 = linesFromZero.columnNumber 2 := by
    decide +kernel
  have secondStart : linesFromZero.IsCharStart 2 :=
    (IsCharStart.first.next letter).next lineEnd
  rcases always linesFromZero 0 2 .first secondStart (by omega) inside with
    earlierLine | ⟨_, earlierColumn⟩
  · omega
  · omega

end Snbt.Buffer
