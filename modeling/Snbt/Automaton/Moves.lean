import Snbt.Automaton.StateSet
import Snbt.Kind.Set

namespace Snbt

/-!
# Moves of the automaton

Tokens are recognised by a nondeterministic automaton.  A move says where one
character leads from one state: to which states matching goes on, and of
which kinds the text read so far is complete.  Which kinds may be reported
does not change the moves, so a kind that may not be reported never hides a
longer text of another.

There are two modes.  Values, keys and punctuation are matched in one, and the
header of a typed array (`B`, `I` or `L`, then `;`) in the other.
-/

/-- The two sets of rules for cutting tokens. -/
inductive Mode where
  /-- Values, keys and punctuation. -/
  | values
  /-- The header of a typed array. -/
  | arrayHeader
  deriving DecidableEq, Repr

/-- A state of the automaton: what has been read of the text being matched. -/
inductive State where
  /-- Nothing. -/
  | start
  /-- A run of blanks. -/
  | blanks
  /-- `t`. -/
  | trueAfterT
  /-- `tr`. -/
  | trueAfterR
  /-- `tru`. -/
  | trueAfterU
  /-- `f`. -/
  | falseAfterF
  /-- `fa`. -/
  | falseAfterA
  /-- `fal`. -/
  | falseAfterL
  /-- `fals`. -/
  | falseAfterS
  /-- The sign of a number. -/
  | sign
  /-- The digits before a point, an exponent or a suffix. -/
  | digits
  /-- A point without digits before it. -/
  | leadingPoint
  /-- A point with digits before or after it. -/
  | fraction
  /-- The letter of an exponent. -/
  | exponent
  /-- The sign of an exponent. -/
  | exponentSign
  /-- The digits of an exponent. -/
  | exponentDigits
  /-- A double quote and what it opens. -/
  | doubleQuoted
  /-- A backslash between double quotes. -/
  | doubleEscape
  /-- A single quote and what it opens. -/
  | singleQuoted
  /-- A backslash between single quotes. -/
  | singleEscape
  /-- An unquoted string. -/
  | unquoted
  deriving DecidableEq, Repr

namespace State

/-- Every state, in the order of their numbers. -/
def all : List State :=
  [.start, .blanks, .trueAfterT, .trueAfterR, .trueAfterU, .falseAfterF,
    .falseAfterA, .falseAfterL, .falseAfterS, .sign, .digits, .leadingPoint,
    .fraction, .exponent, .exponentSign, .exponentDigits, .doubleQuoted,
    .doubleEscape, .singleQuoted, .singleEscape, .unquoted]

/-- The number of a state in sets of states. -/
def number : State → Nat
  | .start => 0
  | .blanks => 1
  | .trueAfterT => 2
  | .trueAfterR => 3
  | .trueAfterU => 4
  | .falseAfterF => 5
  | .falseAfterA => 6
  | .falseAfterL => 7
  | .falseAfterS => 8
  | .sign => 9
  | .digits => 10
  | .leadingPoint => 11
  | .fraction => 12
  | .exponent => 13
  | .exponentSign => 14
  | .exponentDigits => 15
  | .doubleQuoted => 16
  | .doubleEscape => 17
  | .singleQuoted => 18
  | .singleEscape => 19
  | .unquoted => 20

/-- The number of a state is its place in the list of all states. -/
theorem all_getElem?_number
    (state : State) :
    all[state.number]? = some state := by
  cases state <;> rfl

end State

/-- Where a character leads from a state. -/
structure Move where
  /-- The states to go on from. -/
  states : List State
  /-- The kinds whose text is complete with the character. -/
  kinds : List Kind
  deriving DecidableEq, Repr

namespace Move

/-- The character leads nowhere. -/
def dead : Move where
  states := []
  kinds := []

/-- Matching goes on. -/
def onward (state : State) : Move where
  states := [state]
  kinds := []

/-- The text is complete, and nothing can follow. -/
def done (kind : Kind) : Move where
  states := []
  kinds := [kind]

/-- The text is complete, and matching goes on. -/
def keep (state : State) (kind : Kind) : Move where
  states := [state]
  kinds := [kind]

/-- Both moves at once. -/
def both (first second : Move) : Move where
  states := first.states ++ second.states
  kinds := first.kinds ++ second.kinds

end Move

/-- A blank: space, tab or either character of a line end. -/
def isBlank (char : Char) : Bool :=
  char = ' ' || char = '\t' || char = '\n' || char = '\r'

/-- An ASCII digit. -/
def isDigit (char : Char) : Bool :=
  '0' ≤ char && char ≤ '9'

/--
A character of unquoted strings: an ASCII
letter or digit, `_`, `.`, `+` or `-`.
-/
def isUnquoted (char : Char) : Bool :=
  isDigit char || ('a' ≤ char && char ≤ 'z') || ('A' ≤ char && char ≤ 'Z') ||
    char = '_' || char = '.' || char = '+' || char = '-'

namespace State

/-- The kind of a character that is a token by itself in values. -/
def delimiter? (char : Char) : Option Kind :=
  if char = ':' then some .colon
  else if char = ',' then some .comma
  else if char = '[' then some .openBracket
  else if char = ']' then some .closeBracket
  else if char = '{' then some .openBrace
  else if char = '}' then some .closeBrace
  else if char = ';' then some .semicolon
  else none

/-- The beginnings of booleans and numbers. -/
def literalMove (char : Char) : Move :=
  if char = 't' then .onward .trueAfterT
  else if char = 'f' then .onward .falseAfterF
  else if char = '+' || char = '-' then .onward .sign
  else if char = '.' then .onward .leadingPoint
  else if isDigit char then .keep .digits .integer
  else .dead

/-- Another character of an unquoted string. -/
def unquotedMove (char : Char) : Move :=
  if isUnquoted char then .keep .unquoted .string else .dead

/-- Another blank. -/
def blankMove (char : Char) : Move :=
  if isBlank char then .keep .blanks .whitespace else .dead

/-- The first character of a text. -/
def startMove (char : Char) : Move :=
  if isBlank char then
    .keep .blanks .whitespace
  else
    match delimiter? char with
    | some kind =>
        .done kind
    | none =>
        if char = '"' then .onward .doubleQuoted
        else if char = '\'' then .onward .singleQuoted
        else (literalMove char).both (unquotedMove char)

/-- A letter that a keyword goes on with. -/
def letterMove (expected : Char) (next : State) (char : Char) : Move :=
  if char = expected then .onward next else .dead

/-- The last letter of a keyword. -/
def lastLetterMove (expected : Char) (char : Char) : Move :=
  if char = expected then .done .boolean else .dead

/-- The letter that ends a number with a fraction or an exponent. -/
def decimalSuffixMove (char : Char) : Move :=
  if char = 'd' || char = 'D' then .done .double
  else if char = 'f' || char = 'F' then .done .float
  else .dead

/-- What may follow the sign of a number. -/
def signMove (char : Char) : Move :=
  if isDigit char then .keep .digits .integer
  else if char = '.' then .onward .leadingPoint
  else .dead

/-- What may follow the digits before a point, an exponent or a suffix. -/
def digitsMove (char : Char) : Move :=
  if isDigit char then .keep .digits .integer
  else if char = '.' then .keep .fraction .double
  else if char = 'e' || char = 'E' then .onward .exponent
  else if char = 'l' || char = 'L' then .done .long
  else if char = 'b' || char = 'B' then .done .byte
  else if char = 's' || char = 'S' then .done .short
  else decimalSuffixMove char

/-- What may follow a point with digits before or after it. -/
def fractionMove (char : Char) : Move :=
  if isDigit char then .keep .fraction .double
  else if char = 'e' || char = 'E' then .onward .exponent
  else decimalSuffixMove char

/-- What may follow the letter of an exponent. -/
def exponentMove (char : Char) : Move :=
  if char = '+' || char = '-' then .onward .exponentSign
  else if isDigit char then .keep .exponentDigits .double
  else .dead

/-- A digit that has to stand there before anything else may. -/
def digitMove (next : State) (char : Char) : Move :=
  if isDigit char then .keep next .double else .dead

/-- What may follow the digits of an exponent. -/
def exponentDigitsMove (char : Char) : Move :=
  if isDigit char then .keep .exponentDigits .double else decimalSuffixMove char

/--
What may stand between quotes: the quote ends the text, a backslash
hides what follows.
-/
def quotedMove (quote : Char) (body escape : State) (char : Char) : Move :=
  if char = quote then .done .string
  else if char = '\\' then .onward escape
  else .onward body

/-- The moves in values. -/
def valueMove : State → Char → Move
  | .start, char => startMove char
  | .blanks, char => blankMove char
  | .trueAfterT, char => letterMove 'r' .trueAfterR char
  | .trueAfterR, char => letterMove 'u' .trueAfterU char
  | .trueAfterU, char => lastLetterMove 'e' char
  | .falseAfterF, char => letterMove 'a' .falseAfterA char
  | .falseAfterA, char => letterMove 'l' .falseAfterL char
  | .falseAfterL, char => letterMove 's' .falseAfterS char
  | .falseAfterS, char => lastLetterMove 'e' char
  | .sign, char => signMove char
  | .digits, char => digitsMove char
  | .leadingPoint, char => digitMove .fraction char
  | .fraction, char => fractionMove char
  | .exponent, char => exponentMove char
  | .exponentSign, char => digitMove .exponentDigits char
  | .exponentDigits, char => exponentDigitsMove char
  | .doubleQuoted, char => quotedMove '"' .doubleQuoted .doubleEscape char
  | .doubleEscape, _ => .onward .doubleQuoted
  | .singleQuoted, char => quotedMove '\'' .singleQuoted .singleEscape char
  | .singleEscape, _ => .onward .singleQuoted
  | .unquoted, char => unquotedMove char

/-- The first character of a text in the header of an array. -/
def headerStartMove (char : Char) : Move :=
  if char = 'B' then .done .byteArrayTag
  else if char = 'I' then .done .intArrayTag
  else if char = 'L' then .done .longArrayTag
  else if char = ';' then .done .semicolon
  else blankMove char

/-- The moves in the header of an array. -/
def headerMove : State → Char → Move
  | .start, char => headerStartMove char
  | .blanks, char => blankMove char
  | _, _ => .dead

end State

namespace Mode

/-- The name of a mode. -/
def name : Mode → String
  | .values => "SNBT"
  | .arrayHeader => "ARRAY_TYPE"

/-- The states that matching in a mode can be in. -/
def states : Mode → List State
  | .values => State.all
  | .arrayHeader => [.start, .blanks]

/-- Where a character leads from a state in a mode. -/
def move : Mode → State → Char → Move
  | .values => State.valueMove
  | .arrayHeader => State.headerMove

end Mode

end Snbt
