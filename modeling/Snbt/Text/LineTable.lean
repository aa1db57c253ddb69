import Snbt.Text.Utf16

namespace Snbt

/-!
# Lines of a buffer

A line starts at the beginning of the buffer and after each `\n`, except after
one that ends the buffer.  The table of line starts answers in which line an
offset lies and in which column.

Columns of a line without tabs and surrogate pairs are differences of
offsets; the table remembers for each line whether that is so, and
other lines are walked.
-/

/-- A line of a buffer. -/
structure Line where
  /-- The offset of its first unit. -/
  start : Nat
  /--
  It holds a tab or a high surrogate, so its columns are not
  differences of offsets.
  -/
  uneven : Bool
  deriving DecidableEq, Repr

/-- The lines of a buffer in order. -/
structure LineTable where
  lines : Array Line
  deriving DecidableEq, Repr

namespace LineTable

/-- A unit that takes other than one column. -/
def isUneven (unit : CodeUnit) : Bool :=
  unit = CodeUnit.tab || unit.isHigh

/--
Append the lines of the units to those before them.  `current` is the line that
is open and `offset` the offset of the next unit.
-/
def linesOnto
    (done : Array Line)
    (current : Line)
    (offset : Nat) :
    List CodeUnit → Array Line
  | [] =>
      done.push current
  | unit :: rest =>
      let current := { current with uneven := current.uneven || isUneven unit }
      if unit = CodeUnit.lineFeed && !rest.isEmpty then
        linesOnto (done.push current) ⟨offset + 1, false⟩ (offset + 1) rest
      else
        linesOnto done current (offset + 1) rest

/-- The lines of a buffer.  An empty buffer has none. -/
def ofUnits (units : Array CodeUnit) : LineTable where
  lines :=
    if units.isEmpty then #[] else linesOnto #[] ⟨0, false⟩ 0 units.toList

/-- The number of lines. -/
def count (table : LineTable) : Nat :=
  table.lines.size

/-- The offset at which a line starts; lines count from 0. -/
def start? (table : LineTable) (index : Nat) : Option Nat :=
  table.lines[index]?.map (·.start)

/--
The offsets between which a line lies, its `\n` included, in a
buffer of this length.
-/
def range? (table : LineTable) (index length : Nat) : Option (Nat × Nat) :=
  (table.start? index).map fun start =>
    (start, (table.start? (index + 1)).getD length)

/-- Whether columns of a line have to be walked. -/
def isUnevenAt (table : LineTable) (index : Nat) : Bool :=
  match table.lines[index]? with
  | some line => line.uneven
  | none => false

/--
The last line between `low` and `high` that starts at or before the offset,
found by halving.  Line `low` itself is not looked at.
-/
def search (table : LineTable) (offset low high : Nat) : Nat :=
  if low + 1 < high then
    let middle := (low + high) / 2
    match table.lines[middle]? with
    | some line =>
        if line.start ≤ offset then
          table.search offset middle high
        else
          table.search offset low middle
    | none =>
        low
  else
    low
termination_by high - low

/-- The line in which an offset lies, counted from 0. -/
def indexOf (table : LineTable) (offset : Nat) : Nat :=
  table.search offset 0 table.count

/--
The number of the line in which an offset of the buffer lies, the first line
having the number `startingLine`.  An offset past the end lies in the last
line, or in the line that a last `\n` opens.
-/
def lineNumber
    (table : LineTable)
    (units : Array CodeUnit)
    (offset startingLine : Nat) :
    Nat :=
  if offset < units.size then
    max (startingLine + table.indexOf offset) 1
  else
    match units.back? with
    | none =>
        startingLine
    | some last =>
        if last = CodeUnit.lineFeed then
          startingLine + table.count
        else
          startingLine + table.count - 1

/--
The column reached by walking from `offset` to `stop`.  A tab leads to the
column after the next multiple of the tab size, a high surrogate takes the unit
after it along, and every other unit counts as one column.
-/
def walk
    (units : Array CodeUnit)
    (tabSize stop offset column : Nat) :
    Nat :=
  if offset < stop then
    match units[offset]? with
    | some unit =>
        if unit = CodeUnit.tab then
          walk units tabSize stop (offset + 1)
            (column + (tabSize - (column - 1) % tabSize))
        else if unit.isHigh then
          walk units tabSize stop (offset + 2) (column + 1)
        else
          walk units tabSize stop (offset + 1) (column + 1)
    | none =>
        column
  else
    column
termination_by stop - offset

/--
The offset at which the walk to an offset
ends: inside a pair it is the pair's own.
-/
def walkEnd (units : Array CodeUnit) (offset : Nat) : Nat :=
  match units[offset]? with
  | some unit => if unit.isLow then offset - 1 else offset
  | none => offset

/--
The column of an offset.  The first line begins at `startingColumn`
and every other line at 1; an offset past the end has column 1.  A tab
size of 0 counts as 1.
-/
def columnNumber
    (table : LineTable)
    (units : Array CodeUnit)
    (offset startingColumn tabSize : Nat) :
    Nat :=
  if offset < units.size then
    let index := table.indexOf offset
    let start := (table.start? index).getD 0
    let first := if index = 0 then startingColumn else 1
    if table.isUnevenAt index then
      walk units (max tabSize 1) (walkEnd units offset) start first
    else
      offset - start + first
  else
    1

end LineTable

end Snbt
