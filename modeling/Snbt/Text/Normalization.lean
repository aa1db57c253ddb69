import Snbt.Text.Utf16

namespace Snbt

/-!
# Normalization of raw text

Before anything is cut into tokens the raw code units pass through one loop
that folds line ends to `\n`, expands tabs to the next tab stop, and replaces
`\uXXXX` escapes by the units they name.  Each of these can be left out, and
where all are the units are copied without the loop.  A line end can be asked
for at the end of the text.

Columns are counted in the text as it was written: an escape counts as one
column, and a low surrogate as none.
-/

/-- What the pass over the raw text does. -/
structure Normalization where
  /-- Leave tabs as they are instead of writing spaces for them. -/
  keepTabs : Bool
  /-- Leave `\r` and `\r\n` as they are instead of writing `\n` for them. -/
  keepLineEnds : Bool
  /-- Replace `\uXXXX` escapes by the code units that they name. -/
  expandEscapes : Bool
  /-- End the text with a line end if it does not end with one. -/
  closeLastLine : Bool
  deriving DecidableEq, Repr

namespace Normalization

/-- Line ends are folded; tabs and escapes stay. -/
def standard : Normalization where
  keepTabs := true
  keepLineEnds := false
  expandEscapes := false
  closeLastLine := false

/-- Nothing is changed. -/
def verbatim : Normalization where
  keepTabs := true
  keepLineEnds := true
  expandEscapes := false
  closeLastLine := false

/--
The unit that four hexadecimal digits at the front name, and what follows them.
-/
def hexUnit? : List CodeUnit → Option (CodeUnit × List CodeUnit)
  | first :: second :: third :: fourth :: rest =>
      match first.hexDigit?, second.hexDigit?, third.hexDigit?,
        fourth.hexDigit? with
      | some a, some b, some c, some d =>
          some (((a * 16 + b) * 16 + c) * 16 + d, rest)
      | _, _, _, _ =>
          none
  | _ =>
      none

/--
The unit that an escape names, and what follows it, given what stands after its
backslash: one or more `u` and four hexadecimal digits.
-/
def escape? : List CodeUnit → Option (CodeUnit × List CodeUnit)
  | unit :: rest =>
      if unit = CodeUnit.lowerU then
        hexUnit? (rest.dropWhile (· = CodeUnit.lowerU))
      else
        none
  | [] =>
      none

/-- Four digits are gone after the unit that they name. -/
theorem hexUnit?_length
    {units after : List CodeUnit}
    {unit : CodeUnit}
    (found : hexUnit? units = some (unit, after)) :
    after.length + 4 = units.length := by
  unfold hexUnit? at found
  split at found
  · split at found <;> simp_all
  · simp at found

/-- An escape is longer than its backslash. -/
theorem escape?_length
    {units after : List CodeUnit}
    {unit : CodeUnit}
    (found : escape? units = some (unit, after)) :
    after.length < units.length := by
  unfold escape? at found
  split at found
  case h_1 first rest =>
    split at found
    · have digits := hexUnit?_length found
      have dropped :
          (rest.dropWhile (· = CodeUnit.lowerU)).length ≤ rest.length :=
        (List.dropWhile_suffix _).length_le
      simp only [List.length_cons]
      omega
    · simp at found
  case h_2 =>
    simp at found

/--
What follows a line end that `\r` opened:
the `\n` that belongs to it is dropped.
-/
def afterReturn : List CodeUnit → List CodeUnit
  | unit :: rest =>
      if unit = CodeUnit.lineFeed then rest else unit :: rest
  | [] =>
      []

/-- Dropping the rest of a line end makes nothing longer. -/
theorem afterReturn_length
    (units : List CodeUnit) :
    (afterReturn units).length ≤ units.length := by
  unfold afterReturn
  split
  · split <;> simp
  · simp

/-- The number of backslashes in a row that the units end with. -/
def backslashRun (units : List CodeUnit) : Nat :=
  (units.reverse.takeWhile (· = CodeUnit.backslash)).length

/--
Append the normalized form of the units that are left to read of the raw text,
before which `column` columns are counted.

At a backslash before a `u` reading looks back over the raw text.  The
backslash opens an escape if it ends an odd run of backslashes, and then the
escape is replaced, if it is well formed.
-/
def appendOnto
    (rules : Normalization)
    (tabSize : Nat)
    (raw : List CodeUnit)
    (column : Nat)
    (out : Array CodeUnit) :
    List CodeUnit → Array CodeUnit
  | [] =>
      out
  | unit :: rest =>
      if unit = CodeUnit.lineFeed then
        appendOnto rules tabSize raw 0 (out.push unit) rest
      else if rules.expandEscapes && unit = CodeUnit.backslash &&
          rest.head? = some CodeUnit.lowerU then
        if backslashRun (raw.take (raw.length - rest.length)) % 2 = 0 then
          appendOnto rules tabSize raw (column + 1) (out.push unit) rest
        else
          match _found : escape? rest with
          | some (named, after) =>
              appendOnto rules tabSize raw (column + 1) (out.push named) after
          | none =>
              appendOnto rules tabSize raw (column + 1) (out.push unit) rest
      else if unit = CodeUnit.carriageReturn && !rules.keepLineEnds then
        appendOnto rules tabSize raw 0 (out.push CodeUnit.lineFeed)
          (afterReturn rest)
      else if unit = CodeUnit.tab && !rules.keepTabs then
        let width := tabSize - column % tabSize
        appendOnto rules tabSize raw (column + width)
          (out ++ List.replicate width CodeUnit.space) rest
      else
        appendOnto rules tabSize raw (if unit.isLow then column else column + 1)
          (out.push unit) rest
termination_by units => units.length
decreasing_by
  all_goals simp only [List.length_cons]
  case _ => omega
  case _ => omega
  case _ =>
    have := escape?_length _found
    omega
  case _ => omega
  case _ =>
    have := afterReturn_length rest
    omega
  all_goals omega

/--
The normalized form of the raw units before the last line is ended.  They are
copied where nothing is to be changed.  A tab size of 0 counts as 1.
-/
def openForm
    (rules : Normalization)
    (tabSize : Nat)
    (raw : List CodeUnit) :
    Array CodeUnit :=
  if rules.keepTabs && rules.keepLineEnds && !rules.expandEscapes then
    raw.toArray
  else
    appendOnto rules (max tabSize 1) raw 0 #[] raw

/-- End the last line if it does not end with `\n` or `\r`. -/
def closeLine (units : Array CodeUnit) : Array CodeUnit :=
  if units.back? = some CodeUnit.lineFeed ||
    units.back? = some CodeUnit.carriageReturn then
    units
  else
    units.push CodeUnit.lineFeed

/-- The normalized form of the raw units. -/
def apply
    (rules : Normalization)
    (tabSize : Nat)
    (raw : List CodeUnit) :
    Array CodeUnit :=
  let units := rules.openForm tabSize raw
  if rules.closeLastLine then closeLine units else units

end Normalization

end Snbt
