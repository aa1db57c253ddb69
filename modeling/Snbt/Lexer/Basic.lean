import Snbt.Forest.Leaves
import Snbt.Lexer.OffsetTable
import Snbt.Lexer.Scan

namespace Snbt

/-!
# Lexers

A lexer owns a buffer, the nodes made from it, the table of the tokens known at
each offset, and a position from which it scans.  Which kinds are reported,
which roles they have, and the mode decide how it cuts the buffer.

The states that the automaton is in belong to a match and not to the
lexer: each match begins with none (`View.longest?`), so nothing is kept
of them between two.
-/

/-- What a lexer needs besides its input. -/
structure LexerSettings where
  /-- The name of the input in locations. -/
  inputName : String
  mode : Mode
  buffer : BufferSettings
  roles : Roles
  storage : ChildStorage
  deriving DecidableEq, Repr

namespace LexerSettings

/-- Values are read, and whitespace is skipped. -/
def standard : LexerSettings where
  inputName := "input"
  mode := .values
  buffer := .standard
  roles := .standard
  storage := .apart

end LexerSettings

/-- A lexer at work on one buffer. -/
structure Lexer where
  inputName : String
  buffer : Buffer
  table : OffsetTable
  forest : Forest
  /-- The offset from which it scans next. -/
  position : Nat
  active : KindSet
  roles : Roles
  mode : Mode

namespace Lexer

/-- A lexer at the start of a buffer; every kind is active. -/
def ofBuffer (settings : LexerSettings) (buffer : Buffer) : Lexer where
  inputName := settings.inputName
  buffer := buffer
  table := .ofLength buffer.size
  forest := .empty settings.storage
  position := 0
  active := .full
  roles := settings.roles
  mode := settings.mode

/-- A lexer for a text. -/
def ofString (settings : LexerSettings) (text : String) : Lexer :=
  ofBuffer settings (.ofString settings.buffer text)

/-- A lexer for raw code units. -/
def ofUnits (settings : LexerSettings) (raw : List CodeUnit) : Lexer :=
  ofBuffer settings (.ofUnits settings.buffer raw)

/-- A lexer for encoded bytes. -/
def ofBytes
    (settings : LexerSettings)
    (charset? : Option Charset)
    (bytes : List UInt8) :
    Lexer :=
  ofBuffer settings (.ofBytes settings.buffer charset? bytes)

/-- The buffer without its hidden offsets. -/
def view (lexer : Lexer) : View where
  buffer := lexer.buffer
  hidden := lexer.table.isHidden

/-- What decides how the buffer is cut. -/
def scanner (lexer : Lexer) : Scanner where
  view := lexer.view
  mode := lexer.mode
  active := lexer.active
  roles := lexer.roles

/-- Scan from an offset next, or from the first after it that is not hidden. -/
def moveTo (lexer : Lexer) (offset : Nat) : Lexer :=
  { lexer with position := lexer.view.settle offset }

/-- Change the mode. -/
def withMode (lexer : Lexer) (mode : Mode) : Lexer :=
  { lexer with mode }

/-- Report kinds again. -/
def activate (lexer : Lexer) (kinds : List Kind) : Lexer :=
  { lexer with active := lexer.active.insertAll kinds }

/-- Report kinds no more. -/
def deactivate (lexer : Lexer) (kinds : List Kind) : Lexer :=
  { lexer with active := lexer.active.eraseAll kinds }

/-- Name the input anew. -/
def rename (lexer : Lexer) (inputName : String) : Lexer :=
  { lexer with inputName }

/-- Count columns with another tab size from now on. -/
def withTabSize (lexer : Lexer) (tabSize : Nat) : Lexer :=
  { lexer with buffer := lexer.buffer.withTabSize tabSize }

/-- Make a token. -/
def addToken
    (lexer : Lexer)
    (token : Token)
    (unparsed : Bool) :
    Lexer × NodeId :=
  let id := lexer.forest.size
  ({ lexer with forest := lexer.forest.push (.token token) unparsed }, id)

/-- Change a token. -/
def updateToken
    (lexer : Lexer)
    (id : NodeId)
    (change : Token → Token) :
    Lexer :=
  { lexer with forest := lexer.forest.updateToken id change }

/-- The kind of a token. -/
def kindOf? (lexer : Lexer) (id : NodeId) : Option Kind :=
  (lexer.forest.token? id).map (·.kind)

end Lexer

end Snbt
