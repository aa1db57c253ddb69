namespace Snbt

/-!
# Kinds of tokens

The kinds that input is cut into, in the order of their priority: where texts of
several kinds end at the same place, the kind that stands first is taken.  So
`true` is a boolean and not an unquoted string, and `12` is an integer.
-/

/-- A kind of token. -/
inductive Kind where
  | eof
  | whitespace
  | colon
  | comma
  | openBracket
  | closeBracket
  | openBrace
  | closeBrace
  | semicolon
  | boolean
  | float
  | double
  | integer
  | long
  | byte
  | short
  | string
  /-- `B` in the header of an array. -/
  | byteArrayTag
  /-- `I` in the header of an array. -/
  | intArrayTag
  /-- `L` in the header of an array. -/
  | longArrayTag
  /-- Input that belongs to no other kind. -/
  | invalid
  deriving DecidableEq, Repr

/-- The coarse groups that kinds fall into. -/
inductive KindGroup where
  | delimiter
  | literal
  | arrayTag
  | trivia
  | special
  deriving DecidableEq, Repr

namespace Kind

/-- Every kind in the order of priority. -/
def all : List Kind :=
  [.eof, .whitespace, .colon, .comma, .openBracket, .closeBracket, .openBrace,
    .closeBrace, .semicolon, .boolean, .float, .double, .integer, .long, .byte,
    .short, .string, .byteArrayTag, .intArrayTag, .longArrayTag, .invalid]

/-- The place of a kind in the order of priority. -/
def ordinal : Kind → Nat
  | .eof => 0
  | .whitespace => 1
  | .colon => 2
  | .comma => 3
  | .openBracket => 4
  | .closeBracket => 5
  | .openBrace => 6
  | .closeBrace => 7
  | .semicolon => 8
  | .boolean => 9
  | .float => 10
  | .double => 11
  | .integer => 12
  | .long => 13
  | .byte => 14
  | .short => 15
  | .string => 16
  | .byteArrayTag => 17
  | .intArrayTag => 18
  | .longArrayTag => 19
  | .invalid => 20

/-- Kinds at the same place are the same. -/
theorem ordinal_inj
    {first second : Kind}
    (same : first.ordinal = second.ordinal) :
    first = second := by
  cases first <;> cases second <;> first | rfl | cases same

/-- Every kind has a place below 21. -/
theorem ordinal_lt
    (kind : Kind) :
    kind.ordinal < 21 := by
  cases kind <;> decide

/-- The kind that wins where texts of both end at the same place. -/
def best (first second : Kind) : Kind :=
  if second.ordinal < first.ordinal then second else first

/-- The name of a kind in listings and messages. -/
def name : Kind → String
  | .eof => "EOF"
  | .whitespace => "WHITESPACE"
  | .colon => "COLON"
  | .comma => "COMMA"
  | .openBracket => "OPEN_BRACKET"
  | .closeBracket => "CLOSE_BRACKET"
  | .openBrace => "OPEN_BRACE"
  | .closeBrace => "CLOSE_BRACE"
  | .semicolon => "SEMICOLON"
  | .boolean => "BOOLEAN"
  | .float => "FLOAT"
  | .double => "DOUBLE"
  | .integer => "INTEGER"
  | .long => "LONG"
  | .byte => "BYTE"
  | .short => "SHORT"
  | .string => "STRING"
  | .byteArrayTag => "B"
  | .intArrayTag => "I"
  | .longArrayTag => "L"
  | .invalid => "INVALID"

/-- The kind with a name. -/
def ofName? (name : String) : Option Kind :=
  all.find? (·.name = name)

/-- The name of a kind written as one capitalised word, for diagnostics. -/
def word : Kind → String
  | .eof => "Eof"
  | .whitespace => "Whitespace"
  | .colon => "Colon"
  | .comma => "Comma"
  | .openBracket => "OpenBracket"
  | .closeBracket => "CloseBracket"
  | .openBrace => "OpenBrace"
  | .closeBrace => "CloseBrace"
  | .semicolon => "Semicolon"
  | .boolean => "Boolean"
  | .float => "Float"
  | .double => "Double"
  | .integer => "Integer"
  | .long => "Long"
  | .byte => "Byte"
  | .short => "Short"
  | .string => "String"
  | .byteArrayTag => "ByteArrayTag"
  | .intArrayTag => "IntArrayTag"
  | .longArrayTag => "LongArrayTag"
  | .invalid => "Invalid"

/-- The text of a kind that is always spelled the same way. -/
def lexeme? : Kind → Option Char
  | .colon => some ':'
  | .comma => some ','
  | .openBracket => some '['
  | .closeBracket => some ']'
  | .openBrace => some '{'
  | .closeBrace => some '}'
  | .semicolon => some ';'
  | .byteArrayTag => some 'B'
  | .intArrayTag => some 'I'
  | .longArrayTag => some 'L'
  | _ => none

/-- The group that a kind belongs to. -/
def group : Kind → KindGroup
  | .colon | .comma | .openBracket | .closeBracket | .openBrace | .closeBrace
  | .semicolon => .delimiter
  | .boolean | .float | .double | .integer | .long | .byte | .short
  | .string => .literal
  | .byteArrayTag | .intArrayTag | .longArrayTag => .arrayTag
  | .whitespace => .trivia
  | .eof | .invalid => .special

end Kind

namespace KindGroup

/-- The name of a group, for diagnostics. -/
def name : KindGroup → String
  | .delimiter => "Delimiter"
  | .literal => "Literal"
  | .arrayTag => "ArrayTag"
  | .trivia => "Trivia"
  | .special => "Special"

end KindGroup

end Snbt
