import Snbt.Text.Decoding
import Snbt.Text.LineTable
import Snbt.Text.Normalization

namespace Snbt

/-!
# Normalized buffers

A buffer holds the normalized code units that tokens are cut from, their line
table, and how positions in it are counted: the tab size and the line and column
at which it begins.

Offsets are numbers without a bound.  The command takes only buffers whose
offsets fit into 32 bits, which `Buffer.check` makes sure of.
-/

/-- How raw text becomes a buffer and how positions in it are counted. -/
structure BufferSettings where
  rules : Normalization
  /-- The distance of tab stops, for expanding tabs and for counting columns. -/
  tabSize : Nat
  /-- The number of the first line. -/
  startingLine : Nat
  /-- The column of the first unit of the first line. -/
  startingColumn : Nat
  deriving DecidableEq, Repr

namespace BufferSettings

/-- Standard normalization, tab size 1, and positions counted from 1. -/
def standard : BufferSettings where
  rules := .standard
  tabSize := 1
  startingLine := 1
  startingColumn := 1

end BufferSettings

/-- Normalized code units with all that is needed to tell positions in them. -/
structure Buffer where
  units : Array CodeUnit
  lines : LineTable
  tabSize : Nat
  startingLine : Nat
  startingColumn : Nat
  /-- The line table is that of the units. -/
  lines_eq : lines = LineTable.ofUnits units

namespace Buffer

/-- The buffer of raw code units. -/
def ofUnits (settings : BufferSettings) (raw : List CodeUnit) : Buffer :=
  let units := settings.rules.apply settings.tabSize raw
  { units
    lines := LineTable.ofUnits units
    tabSize := settings.tabSize
    startingLine := settings.startingLine
    startingColumn := settings.startingColumn
    lines_eq := rfl }

/-- The buffer of a text. -/
def ofString (settings : BufferSettings) (text : String) : Buffer :=
  ofUnits settings (Utf16.ofString text)

/-- The buffer of encoded bytes. -/
def ofBytes
    (settings : BufferSettings)
    (charset? : Option Charset)
    (bytes : List UInt8) :
    Buffer :=
  ofUnits settings (Charset.decode charset? bytes).toList

/-- The number of code units. -/
def size (buffer : Buffer) : Nat :=
  buffer.units.size

/--
From this many units on a buffer is too
large; one offset more is needed behind it.
-/
def sizeLimit : Nat :=
  4294967295

/-- What is wrong with a buffer that has too many units. -/
structure TooLarge where
  size : Nat
  deriving DecidableEq, Repr

/-- What is told about a buffer that is too large. -/
def TooLarge.message (tooLarge : TooLarge) : String :=
  "input of " ++ toString tooLarge.size ++
    " code units exceeds the maximum offset"

/-- Refuse a buffer whose offsets do not fit into 32 bits. -/
def check (buffer : Buffer) : Except TooLarge Unit :=
  if buffer.size < sizeLimit then
    .ok ()
  else
    .error ⟨buffer.size⟩

/-- The code unit at an offset. -/
def unit? (buffer : Buffer) (offset : Nat) : Option CodeUnit :=
  buffer.units[offset]?

/--
The character at an offset and the units it takes: two for a surrogate pair.  An
unpaired surrogate reads as U+FFFD.
-/
def char? (buffer : Buffer) (offset : Nat) : Option (Char × Nat) :=
  match buffer.unit? offset, buffer.unit? (offset + 1) with
  | none, _ =>
      none
  | some unit, none =>
      some (unit.loneChar, 1)
  | some unit, some next =>
      if unit.isHigh && next.isLow then
        some (unit.pairChar next, 2)
      else
        some (unit.loneChar, 1)

/-- A character takes one or two units, all of them inside the buffer. -/
theorem char?_bounds
    {buffer : Buffer}
    {offset width : Nat}
    {char : Char}
    (found : buffer.char? offset = some (char, width)) :
    0 < width ∧ offset + width ≤ buffer.size := by
  unfold char? unit? at found
  unfold size
  grind

/-- There is a character at every offset inside the buffer. -/
theorem char?_eq_none_iff
    {buffer : Buffer}
    {offset : Nat} :
    buffer.char? offset = none ↔ buffer.size ≤ offset := by
  unfold char? unit? size
  grind

/-- The text between two offsets, cut off at the end of the buffer. -/
def slice (buffer : Buffer) (start stop : Nat) : String :=
  Utf16.toString (buffer.units.extract start stop).toList

/-- The number of the line in which an offset lies. -/
def lineNumber (buffer : Buffer) (offset : Nat) : Nat :=
  buffer.lines.lineNumber buffer.units offset buffer.startingLine

/-- The column of an offset. -/
def columnNumber (buffer : Buffer) (offset : Nat) : Nat :=
  buffer.lines.columnNumber buffer.units offset buffer.startingColumn
    buffer.tabSize

/-- Count columns with another tab size from now on. -/
def withTabSize (buffer : Buffer) (tabSize : Nat) : Buffer :=
  { buffer with tabSize }

end Buffer

end Snbt
