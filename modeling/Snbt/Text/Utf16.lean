namespace Snbt

/-!
# UTF-16 code units

The buffer that tokens are cut from holds UTF-16 code units, and it may hold
surrogates that are not paired.  This module says which units are surrogates,
which character a pair stands for, and how characters and code units turn into
each other.  Reading is lossy: an unpaired surrogate reads as U+FFFD.
-/

/-- One UTF-16 code unit. -/
abbrev CodeUnit := UInt16

namespace CodeUnit

/-- `\t`. -/
def tab : CodeUnit := 0x09

/-- `\n`. -/
def lineFeed : CodeUnit := 0x0A

/-- `\r`. -/
def carriageReturn : CodeUnit := 0x0D

/-- A blank. -/
def space : CodeUnit := 0x20

/-- `\`. -/
def backslash : CodeUnit := 0x5C

/-- `u`, which follows the backslash of an escape. -/
def lowerU : CodeUnit := 0x75

/-- U+FFFD, which stands for what cannot be decoded. -/
def replacement : CodeUnit := 0xFFFD

/-- The first half of a surrogate pair. -/
def isHigh (unit : CodeUnit) : Bool :=
  0xD800 ≤ unit && unit ≤ 0xDBFF

/-- The second half of a surrogate pair. -/
def isLow (unit : CodeUnit) : Bool :=
  0xDC00 ≤ unit && unit ≤ 0xDFFF

/-- The character that a unit spells alone: a surrogate spells U+FFFD. -/
def loneChar (unit : CodeUnit) : Char :=
  if unit.isHigh || unit.isLow then
    Char.ofNat 0xFFFD
  else
    Char.ofNat unit.toNat

/-- The supplementary character that a high and a low surrogate spell. -/
def pairChar (high low : CodeUnit) : Char :=
  Char.ofNat (0x10000 + (high.toNat - 0xD800) * 0x400 + (low.toNat - 0xDC00))

/-- The value of an ASCII hexadecimal digit of either case. -/
def hexDigit? (unit : CodeUnit) : Option UInt16 :=
  if 0x30 ≤ unit && unit ≤ 0x39 then
    some (unit - 0x30)
  else if 0x41 ≤ unit && unit ≤ 0x46 then
    some (unit - 0x41 + 10)
  else if 0x61 ≤ unit && unit ≤ 0x66 then
    some (unit - 0x61 + 10)
  else
    none

end CodeUnit

namespace Utf16

/-- The one or two code units of a character. -/
def encodeChar (char : Char) : List CodeUnit :=
  let value := char.toNat
  if value < 0x10000 then
    [UInt16.ofNat value]
  else
    let above := value - 0x10000
    [UInt16.ofNat (0xD800 + above / 0x400),
      UInt16.ofNat (0xDC00 + above % 0x400)]

/-- The code units of a text. -/
def encode (chars : List Char) : List CodeUnit :=
  chars.flatMap encodeChar

/--
Append the characters that the units spell, unpaired surrogates as U+FFFD.
-/
def decodeOnto (chars : Array Char) : List CodeUnit → Array Char
  | [] =>
      chars
  | [unit] =>
      chars.push unit.loneChar
  | unit :: next :: rest =>
      if unit.isHigh && next.isLow then
        decodeOnto (chars.push (unit.pairChar next)) rest
      else
        decodeOnto (chars.push unit.loneChar) (next :: rest)

/-- The characters that the units spell, unpaired surrogates as U+FFFD. -/
def decode (units : List CodeUnit) : List Char :=
  (decodeOnto #[] units).toList

/-- The code units of a string. -/
def ofString (text : String) : List CodeUnit :=
  encode text.toList

/-- The string that the units spell, unpaired surrogates as U+FFFD. -/
def toString (units : List CodeUnit) : String :=
  String.ofList (decode units)

end Utf16

end Snbt
