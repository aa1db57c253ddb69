import Mathlib.Logic.ExistsUnique
import Snbt.Proofs.Text.LineNumbers

namespace Snbt

/-!
# Looking up lines

Halving the table finds the line that reaches over an offset, and past the end
the table has one line for each `\n`, and one more unless the last unit is a
`\n`.  So the number of a line counts the `\n` before an offset, and the lines
of the table cut the buffer behind each `\n`.
-/

namespace LineTable

variable {table : LineTable} {offset low high : Nat}

/--
An offset lies behind the start of a line and before the start of the next one.
-/
structure Holds (table : LineTable) (offset index : Nat) : Prop where
  behind : ∃ first, table.start? index = some first ∧ first ≤ offset
  before : ∀ next, table.start? (index + 1) = some next → offset < next

/--
Halving ends at the line that holds the offset, if it holds between the limits.
-/
theorem holds_search
    (ordered : low < high)
    (inTable : high ≤ table.count)
    (behind : ∃ first, table.start? low = some first ∧ first ≤ offset)
    (before : ∀ next, table.start? high = some next → offset < next) :
    table.Holds offset (table.search offset low high) := by
  fun_induction table.search offset low high with
  | case1 low high apart middle line present reached inductionHypothesis =>
      have starts : table.start? middle = some line.start := by
        simp only [start?, present, Option.map_some]
      exact inductionHypothesis (by omega) inTable
        ⟨line.start, starts, reached⟩ before
  | case2 low high apart middle line present notReached inductionHypothesis =>
      apply inductionHypothesis (by omega) (by omega) behind
      intro next isNext
      simp only [start?, present, Option.map_some, Option.some.injEq] at isNext
      omega
  | case3 low high apart middle absent =>
      have missing : table.count ≤ middle :=
        Array.getElem?_eq_none_iff.mp absent
      omega
  | case4 low high close =>
      have last : high = low + 1 := by
        omega
      subst last
      exact ⟨behind, before⟩

variable {start : Nat} {units : List CodeUnit}

/-- A line starts before the end of units that are not all read. -/
theorem startsFrom_lt
    {first : Nat}
    (ordered : start ≤ offset)
    (unread : units ≠ [])
    (member : first ∈ startsFrom start offset units) :
    first < offset + units.length := by
  fun_induction startsFrom start offset units with
  | case1 =>
      exact absurd rfl unread
  | case2 start offset unit rest ends inductionHypothesis =>
      have unreadRest : rest ≠ [] := by
        rintro rfl
        simp at ends
      rw [List.length_cons]
      rcases List.mem_cons.mp member with rfl | later
      · omega
      · have := inductionHypothesis (Nat.le_refl _) unreadRest later
        omega
  | case3 start offset unit rest goesOn inductionHypothesis =>
      rw [List.length_cons]
      cases rest with
      | nil =>
          cases List.mem_singleton.mp member
          rw [List.length_nil]
          omega
      | cons =>
          have := inductionHypothesis (by omega) (List.cons_ne_nil _ _) member
          omega

/-- Lines start one behind the other. -/
theorem startsFrom_increasing
    (ordered : start ≤ offset) :
    (startsFrom start offset units).Pairwise (· < ·) := by
  fun_induction startsFrom start offset units with
  | case1 =>
      exact List.pairwise_singleton _ _
  | case2 start offset unit rest ends inductionHypothesis =>
      apply List.Pairwise.cons
      · intro later member
        have := startsFrom_bounds (Nat.le_refl _) member
        omega
      · exact inductionHypothesis (Nat.le_refl _)
  | case3 start offset unit rest goesOn inductionHypothesis =>
      exact inductionHypothesis (by omega)

/--
There is a line for each `\n`, and one more unless the last unit is a `\n`.
-/
theorem length_startsFrom
    (start offset : Nat)
    (units : List CodeUnit) :
    (startsFrom start offset units).length +
        (if units.getLast? = some CodeUnit.lineFeed then 1 else 0) =
      units.count CodeUnit.lineFeed + 1 := by
  fun_induction startsFrom start offset units with
  | case1 =>
      rfl
  | case2 start offset unit rest ends inductionHypothesis =>
      obtain ⟨isFeed, unread⟩ : unit = CodeUnit.lineFeed ∧ rest ≠ [] := by
        simpa using ends
      rw [List.getLast?_cons_of_ne_nil unread, List.length_cons,
        List.count_cons]
      simp only [isFeed, beq_self_eq_true, if_true]
      omega
  | case3 start offset unit rest goesOn inductionHypothesis =>
      cases rest with
      | nil =>
          by_cases isFeed :
            unit = CodeUnit.lineFeed <;> simp [startsFrom, isFeed]
      | cons next rest =>
          have notFeed : unit ≠ CodeUnit.lineFeed := by
            rintro rfl
            exact goesOn rfl
          rw [List.getLast?_cons_cons, inductionHypothesis,
            List.count_cons_of_ne notFeed]

end LineTable

namespace Buffer

variable {buffer : Buffer} {offset index : Nat}

/-- The starts of the lines of a buffer that is not empty. -/
theorem start?_eq
    (nonempty : 0 < buffer.size)
    (index : Nat) :
    buffer.lines.start? index =
      (LineTable.startsFrom 0 0 buffer.units.toList)[index]? := by
  rw [buffer.lines_eq]
  exact LineTable.start?_ofUnits_eq nonempty index

/-- A buffer that is not empty has as many lines as starts. -/
theorem count_eq_length
    (nonempty : 0 < buffer.size) :
    buffer.lines.count =
      (LineTable.startsFrom 0 0 buffer.units.toList).length := by
  rw [← LineTable.map_start_ofUnits nonempty, ← buffer.lines_eq,
    List.length_map]
  rfl

/-- The first line starts where the buffer does. -/
theorem start?_zero
    (nonempty : 0 < buffer.size) :
    buffer.lines.start? 0 = some 0 := by
  rw [start?_eq nonempty]
  exact LineTable.startsFrom_zero 0 0 _

/-- There are starts up to the number of lines. -/
theorem start?_eq_none_iff :
    buffer.lines.start? index = none ↔ buffer.lines.count ≤ index := by
  rw [LineTable.start?, Option.map_eq_none_iff]
  exact Array.getElem?_eq_none_iff

/-- Halving the table finds the line of an offset of the buffer. -/
theorem lineOf_eq_indexOf
    (inside : offset < buffer.size) :
    buffer.lineOf offset = buffer.lines.indexOf offset + 1 := by
  have nonempty : 0 < buffer.size := Nat.zero_lt_of_lt inside
  have someLine : 0 < buffer.lines.count := by
    apply Nat.lt_of_not_le
    intro noLine
    have nothing := start?_eq_none_iff.mpr noLine
    rw [start?_zero nonempty] at nothing
    cases nothing
  have noLater : buffer.lines.start? buffer.lines.count = none :=
    start?_eq_none_iff.mpr (Nat.le_refl _)
  have found : buffer.lines.Holds offset (buffer.lines.indexOf offset) := by
    apply LineTable.holds_search someLine (Nat.le_refl _)
    · exact ⟨0, start?_zero nonempty, Nat.zero_le offset⟩
    · intro next isNext
      rw [noLater] at isNext
      cases isNext
  obtain ⟨first, isFirst, behind⟩ := found.behind
  apply (exists_range?_iff inside).mp
  refine ⟨(first,
    (buffer.lines.start? (buffer.lines.indexOf offset + 1)).getD buffer.size),
    ?_, behind, ?_⟩
  · simp only [LineTable.range?, isFirst, Option.map_some]
  · cases next : buffer.lines.start? (buffer.lines.indexOf offset + 1) with
    | none => exact inside
    | some later => exact found.before later next

/-- The number of the line of an offset of the buffer; it is at least 1. -/
theorem lineNumber_of_lt
    (inside : offset < buffer.size) :
    buffer.lineNumber offset =
      max (buffer.startingLine + buffer.lineOf offset - 1) 1 := by
  have inUnits : offset < buffer.units.size := inside
  rw [lineNumber, LineTable.lineNumber, if_pos inUnits,
    lineOf_eq_indexOf inside]
  rfl

/-- The number of the line that an offset past the end is counted to. -/
theorem lineNumber_of_le
    (past : buffer.size ≤ offset) :
    buffer.lineNumber offset =
      buffer.startingLine + buffer.units.toList.count CodeUnit.lineFeed := by
  have outside : ¬offset < buffer.units.size := Nat.not_lt.mpr past
  rw [lineNumber, LineTable.lineNumber, if_neg outside, ← Array.getLast?_toList]
  cases isLast : buffer.units.toList.getLast? with
  | none =>
      rw [List.getLast?_eq_none_iff.mp isLast]
      rfl
  | some last =>
      have nonempty : 0 < buffer.size := by
        rw [size, ← Array.length_toList]
        exact List.length_pos_of_mem (List.mem_of_getLast? isLast)
      have lines := LineTable.length_startsFrom 0 0 buffer.units.toList
      rw [← count_eq_length nonempty, isLast] at lines
      by_cases isFeed : last = CodeUnit.lineFeed
      · simp only [isFeed, if_true] at lines ⊢
        omega
      · simp only [isFeed, if_false, Option.some.injEq] at lines ⊢
        omega

/-- The `\n` before an offset tell the line of the offset. -/
theorem lineNumber_eq
    (counted : 1 ≤ buffer.startingLine)
    (offset : Nat) :
    buffer.lineNumber offset =
      buffer.startingLine +
        (buffer.units.toList.take offset).count CodeUnit.lineFeed := by
  rcases Nat.lt_or_ge offset buffer.size with inside | past
  · rw [lineNumber_of_lt inside, lineOf]
    omega
  · have whole : buffer.units.toList.take offset = buffer.units.toList :=
      List.take_of_length_le (by rw [Array.length_toList]; exact past)
    rw [lineNumber_of_le past, whole]

/-- A buffer with a line is not empty. -/
theorem size_pos_of_start?
    {start : Nat}
    (isStart : buffer.lines.start? index = some start) :
    0 < buffer.size := by
  apply Nat.pos_of_ne_zero
  intro empty
  have noUnits : buffer.units.isEmpty = true :=
    Array.isEmpty_iff_size_eq_zero.mpr empty
  rw [buffer.lines_eq, LineTable.start?, LineTable.ofUnits,
    if_pos noUnits] at isStart
  cases isStart

/-- A line starts before the end of the buffer. -/
theorem start?_lt_size
    {start : Nat}
    (isStart : buffer.lines.start? index = some start) :
    start < buffer.size := by
  have nonempty := size_pos_of_start? isStart
  have unread : buffer.units.toList ≠ [] := by
    apply List.ne_nil_of_length_pos
    rw [Array.length_toList]
    exact nonempty
  rw [start?_eq nonempty] at isStart
  have before :=
    LineTable.startsFrom_lt (Nat.le_refl 0) unread
      (List.mem_of_getElem? isStart)
  rw [Nat.zero_add, Array.length_toList] at before
  exact before

/-- Lines start one behind the other. -/
theorem start?_increasing
    {first second start later : Nat}
    (ordered : first < second)
    (isFirst : buffer.lines.start? first = some start)
    (isSecond : buffer.lines.start? second = some later) :
    start < later := by
  have nonempty := size_pos_of_start? isFirst
  rw [start?_eq nonempty] at isFirst isSecond
  obtain ⟨firstIn, rfl⟩ := List.getElem?_eq_some_iff.mp isFirst
  obtain ⟨secondIn, rfl⟩ := List.getElem?_eq_some_iff.mp isSecond
  have increasing :
      (LineTable.startsFrom 0 0 buffer.units.toList).Pairwise (· < ·) :=
    LineTable.startsFrom_increasing (Nat.le_refl 0)
  exact List.pairwise_iff_getElem.mp increasing _ _ firstIn secondIn ordered

/-- A line of the table lies between two offsets. -/
def HasLine (buffer : Buffer) (index : Nat) (stretch : Nat × Nat) : Prop :=
  buffer.lines.range? index buffer.size = some stretch

variable {stretch : Nat × Nat}

theorem hasLine_iff :
    buffer.HasLine index stretch ↔
      buffer.lines.start? index = some stretch.1 ∧
        (buffer.lines.start? (index + 1)).getD buffer.size = stretch.2 := by
  rw [HasLine, LineTable.range?, Option.map_eq_some_iff]
  constructor
  · rintro ⟨first, isFirst, rfl⟩
    exact ⟨isFirst, rfl⟩
  · rintro ⟨isFirst, isStop⟩
    exact ⟨stretch.1, isFirst, Prod.ext rfl isStop⟩

namespace HasLine

/-- A line is not empty. -/
theorem nonempty
    (line : buffer.HasLine index stretch) :
    stretch.1 < stretch.2 := by
  obtain ⟨isStart, isStop⟩ := hasLine_iff.mp line
  cases isNext : buffer.lines.start? (index + 1) with
  | none =>
      rw [isNext, Option.getD_none] at isStop
      rw [← isStop]
      exact start?_lt_size isStart
  | some next =>
      rw [isNext, Option.getD_some] at isStop
      rw [← isStop]
      exact start?_increasing (Nat.lt_succ_self index) isStart isNext

/-- A line reaches not past the end. -/
theorem stop_le_size
    (line : buffer.HasLine index stretch) :
    stretch.2 ≤ buffer.size :=
  range?_le_size line

/-- An offset between the two of a line lies in that line. -/
theorem lineOf_eq
    (line : buffer.HasLine index stretch)
    (behind : stretch.1 ≤ offset)
    (before : offset < stretch.2) :
    buffer.lineOf offset = index + 1 :=
  (exists_range?_iff (Nat.lt_of_lt_of_le before line.stop_le_size)).mp
    ⟨stretch, line, behind, before⟩

/-- A line stops where the next one starts. -/
theorem stop_eq_start
    {later : Nat × Nat}
    (line : buffer.HasLine index stretch)
    (next : buffer.HasLine (index + 1) later) :
    stretch.2 = later.1 := by
  obtain ⟨_, isStop⟩ := hasLine_iff.mp line
  obtain ⟨isNext, _⟩ := hasLine_iff.mp next
  rw [← isStop, isNext, Option.getD_some]

/--
A `\n` in a line is its last unit, because the line number goes up behind it.
-/
theorem succ_eq_stop
    (line : buffer.HasLine index stretch)
    (behind : stretch.1 ≤ offset)
    (before : offset < stretch.2)
    (isFeed : buffer.unit? offset = some CodeUnit.lineFeed) :
    offset + 1 = stretch.2 := by
  rcases Nat.lt_or_ge (offset + 1) stretch.2 with goesOn | ended
  · have here := line.lineOf_eq behind before
    have there := line.lineOf_eq (Nat.le_succ_of_le behind) goesOn
    rw [lineOf_succ isFeed, if_pos rfl, here] at there
    omega
  · omega

/--
Before another line a line ends with a `\n`, because the line number goes up.
-/
theorem last_lineFeed
    {later : Nat × Nat}
    (line : buffer.HasLine index stretch)
    (next : buffer.HasLine (index + 1) later) :
    buffer.unit? (stretch.2 - 1) = some CodeUnit.lineFeed := by
  have nonempty := line.nonempty
  have inside := line.stop_le_size
  have lastIn : stretch.2 - 1 < buffer.units.size := by
    have : stretch.2 ≤ buffer.units.size := inside
    omega
  have present :
      buffer.unit? (stretch.2 - 1) = some buffer.units[stretch.2 - 1] :=
    Array.getElem?_eq_getElem lastIn
  have behind : stretch.2 - 1 + 1 = stretch.2 := by
    omega
  have here : buffer.lineOf (stretch.2 - 1) = index + 1 :=
    line.lineOf_eq (by omega) (by omega)
  have there : buffer.lineOf stretch.2 = index + 2 := by
    rw [line.stop_eq_start next]
    exact next.lineOf_eq (Nat.le_refl _) next.nonempty
  by_cases isFeed : buffer.units[stretch.2 - 1] = CodeUnit.lineFeed
  · rw [present, isFeed]
  · have same := lineOf_succ present
    rw [behind, if_neg isFeed] at same
    omega

end HasLine

/-- The indices of lines are those below their number. -/
theorem exists_hasLine_iff :
    (∃ stretch, buffer.HasLine index stretch) ↔ index < buffer.lines.count := by
  rw [← Nat.not_le, ← start?_eq_none_iff, ← ne_eq, Option.ne_none_iff_exists']
  constructor
  · rintro ⟨stretch, line⟩
    exact ⟨stretch.1, (hasLine_iff.mp line).1⟩
  · rintro ⟨start, isStart⟩
    exact ⟨(start, _), hasLine_iff.mpr ⟨isStart, rfl⟩⟩

/--
The lines of the table cut the buffer: they follow one another from its start
to its end, none is empty, and a `\n` is the last unit of its line and of each
line but maybe the last.
-/
structure IsCutInLines (buffer : Buffer) : Prop where
  /-- There is a line for each index below their number, and no other. -/
  counted :
    ∀ index, (∃ stretch, buffer.HasLine index stretch) ↔
      index < buffer.lines.count
  /-- The first line starts where the buffer does. -/
  first : ∀ stretch, buffer.HasLine 0 stretch → stretch.1 = 0
  /-- A line stops where the next one starts. -/
  next :
    ∀ index stretch later, buffer.HasLine index stretch →
      buffer.HasLine (index + 1) later →
      stretch.2 = later.1
  /-- The last line stops where the buffer does. -/
  last :
    ∀ index stretch, buffer.HasLine index stretch →
      index + 1 = buffer.lines.count →
      stretch.2 = buffer.size
  /-- No line is empty. -/
  nonempty :
    ∀ index stretch, buffer.HasLine index stretch → stretch.1 < stretch.2
  /-- Each offset of the buffer lies in exactly one line. -/
  covers :
    ∀ offset < buffer.size,
      ∃! index, ∃ stretch, buffer.HasLine index stretch ∧ stretch.1 ≤ offset ∧
        offset < stretch.2
  /-- A `\n` in a line is its last unit. -/
  onlyLast :
    ∀ index stretch offset, buffer.HasLine index stretch → stretch.1 ≤ offset →
      offset < stretch.2 → buffer.unit? offset = some CodeUnit.lineFeed →
      offset + 1 = stretch.2
  /-- A line with another one behind it ends with a `\n`. -/
  closed :
    ∀ index stretch, buffer.HasLine index stretch →
      index + 1 < buffer.lines.count →
      buffer.unit? (stretch.2 - 1) = some CodeUnit.lineFeed

theorem isCutInLines
    (buffer : Buffer) :
    buffer.IsCutInLines := by
  constructor
  case counted =>
    intro index
    exact exists_hasLine_iff
  case first =>
    intro stretch line
    obtain ⟨isStart, _⟩ := hasLine_iff.mp line
    rw [start?_zero (size_pos_of_start? isStart)] at isStart
    exact (Option.some.inj isStart).symm
  case next =>
    intro index stretch later line next
    exact line.stop_eq_start next
  case last =>
    intro index stretch line isLast
    obtain ⟨_, isStop⟩ := hasLine_iff.mp line
    rw [start?_eq_none_iff.mpr (Nat.le_of_eq isLast.symm),
      Option.getD_none] at isStop
    exact isStop.symm
  case nonempty =>
    intro index stretch line
    exact line.nonempty
  case covers =>
    intro offset inside
    refine ⟨buffer.lineOf offset - 1, ?_, ?_⟩
    · apply (exists_range?_iff inside).mpr
      rfl
    · intro index reaches
      rw [(exists_range?_iff inside).mp reaches, Nat.add_sub_cancel]
  case onlyLast =>
    intro index stretch offset line behind before isFeed
    exact line.succ_eq_stop behind before isFeed
  case closed =>
    intro index stretch line goesOn
    obtain ⟨later, next⟩ := exists_hasLine_iff.mpr goesOn
    exact line.last_lineFeed next

/--
Lines are told by the `\n` of the buffer.  The number of a line is the starting
line and the `\n` before the offset, wherever that lies; starts increase along
the table, and its lines cut the buffer behind each `\n`.
-/
theorem lines_follow_lineFeeds
    (buffer : Buffer) :
    (1 ≤ buffer.startingLine →
        ∀ offset, buffer.lineNumber offset =
          buffer.startingLine +
            (buffer.units.toList.take offset).count CodeUnit.lineFeed) ∧
      (∀ first second start later,
        first < second →
        buffer.lines.start? first = some start →
        buffer.lines.start? second = some later →
        start < later) ∧
      buffer.IsCutInLines := by
  refine ⟨?_, ?_, buffer.isCutInLines⟩
  · intro counted offset
    exact lineNumber_eq counted offset
  · intro first second start later ordered isFirst isSecond
    exact start?_increasing ordered isFirst isSecond

/-- Three lines that are counted from 10. -/
def linesFromTen : Buffer :=
  ofString { BufferSettings.standard with startingLine := 10 } "a\n\nb\n"

/--
Numbers count on from 10 to the empty line and past the end, and
starts from 0 to 3.
-/
theorem lines_follow_lineFeeds_fromTen :
    1 ≤ linesFromTen.startingLine ∧ linesFromTen.lineNumber 2 = 11 ∧
      linesFromTen.lineNumber 9 = 13 ∧ linesFromTen.lines.start? 0 = some 0 ∧
      linesFromTen.lines.start? 2 = some 3 ∧ 0 < 3 := by
  obtain ⟨numbered, increasing, _⟩ := lines_follow_lineFeeds linesFromTen
  have counted : 1 ≤ linesFromTen.startingLine := by
    decide
  have emptyLine := numbered counted 2
  have pastEnd := numbered counted 9
  have feeds :
      (linesFromTen.units.toList.take 2).count CodeUnit.lineFeed = 1 ∧
        (linesFromTen.units.toList.take 9).count CodeUnit.lineFeed = 3 := by
    decide +kernel
  have firstStart : linesFromTen.lines.start? 0 = some 0 := by
    decide +kernel
  have lastStart : linesFromTen.lines.start? 2 = some 3 := by
    decide +kernel
  rw [feeds.1] at emptyLine
  rw [feeds.2] at pastEnd
  exact ⟨counted, emptyLine, pastEnd, firstStart, lastStart,
    increasing 0 2 0 3 (by decide) firstStart lastStart⟩

end Buffer

end Snbt
