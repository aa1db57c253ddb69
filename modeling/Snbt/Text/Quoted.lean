namespace Snbt

/-!
# Text shown between quotes

Two ways to show characters in messages and listings: a text with everything
that a quoted literal cannot hold written as an escape, and a single
character by itself.
-/

namespace Quoted

/-- The lowercase hexadecimal digits of a number, at least `width` of them. -/
def hexDigits (width value : Nat) : List Char :=
  let digits := Nat.toDigits 16 value
  List.replicate (width - digits.length) '0' ++ digits

/-- A control character: U+0000 to U+001F and U+007F to U+009F. -/
def isControl (char : Char) : Bool :=
  char.toNat < 0x20 || (0x7F ≤ char.toNat && char.toNat < 0xA0)

/-- The letter that stands for a character after a backslash, if it has one. -/
def escapeLetter? (char : Char) : Option Char :=
  if char = '\x08' then some 'b'
  else if char = '\t' then some 't'
  else if char = '\n' then some 'n'
  else if char = '\x0c' then some 'f'
  else if char = '\r' then some 'r'
  else if char = '"' then some '"'
  else if char = '\'' then some '\''
  else if char = '\\' then some '\\'
  else none

/-- A character as it stands in a quoted literal. -/
def escapeChar (char : Char) : List Char :=
  match escapeLetter? char with
  | some letter =>
      ['\\', letter]
  | none =>
      if isControl char then
        '\\' :: 'u' :: hexDigits 4 char.toNat
      else
        [char]

/-- A text as it stands in a quoted literal. -/
def escapeChars (chars : List Char) : List Char :=
  chars.flatMap escapeChar

/-- A text as it stands in a quoted literal. -/
def escape (text : String) : String :=
  String.ofList (escapeChars text.toList)

/--
What stands between the quotes when a single character is shown, if
it is shown quoted.
-/
def shownBetweenQuotes? (char : Char) : Option (List Char) :=
  if char = '\'' then some ['\\', '\'']
  else if char = '\\' then some ['\\', '\\']
  else if char = '\t' then some ['\\', 't']
  else if char = '\r' then some ['\\', 'r']
  else if char = '\n' then some ['\\', 'n']
  else if char = '\x0c' then some ['\\', 'f']
  else if 0x20 ≤ char.toNat && char.toNat ≤ 0x7E then some [char]
  else none

/--
One character for a message: printable ASCII and common control characters in
quotes, other values below ten in decimal, and everything else in hexadecimal.
-/
def showChar (char : Char) : String :=
  match shownBetweenQuotes? char with
  | some shown =>
      String.ofList ('\'' :: shown ++ ['\''])
  | none =>
      if char.toNat < 10 then
        toString char.toNat
      else
        String.ofList ('0' :: 'x' :: hexDigits 1 char.toNat)

end Quoted

end Snbt
