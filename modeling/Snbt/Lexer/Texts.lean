import Snbt.Lexer.Basic

namespace Snbt.Lexer

/-!
# Texts and positions of nodes

The text of a token is its own or that of its stretch of the buffer, hidden
offsets left out; the text of a branch is that of its tokens.  Positions are
those of the first and of the last unit of a node.
-/

/-- The text of the buffer between two offsets, hidden offsets left out. -/
def text (lexer : Lexer) (start stop : Nat) : String :=
  let last := min stop lexer.buffer.size
  let shown :=
    (List.range' start (last - start)).filter fun offset =>
      !lexer.table.isHidden offset
  Utf16.toString (shown.filterMap lexer.buffer.unit?)

/--
The text of a token.  The end of the input has none, and neither has a token
that is in no buffer.
-/
def imageOf (lexer : Lexer) (token : Token) : String :=
  match token.image? with
  | some image =>
      image
  | none =>
      if token.kind = .eof || !token.scanned then
        ""
      else
        lexer.text token.start token.stop

/-- The texts of tokens one after another. -/
def imageOfAll (lexer : Lexer) (ids : List NodeId) : String :=
  String.join ((ids.filterMap lexer.forest.token?).map lexer.imageOf)

/-- The texts of the tokens under a node. -/
def textUnder (lexer : Lexer) (id : NodeId) : Except Misuse String := do
  let leaves ← lexer.forest.leavesUnder id
  return lexer.imageOfAll leaves

/-- The text of a node. -/
def image (lexer : Lexer) (id : NodeId) : Except Misuse String := do
  let node ← lexer.forest.node id
  match node.content with
  | .token token => return lexer.imageOf token
  | .branch _ => lexer.textUnder id

/-- The text of a node, with a name for the end of the input. -/
def displayText (lexer : Lexer) (id : NodeId) : Except Misuse String := do
  if (← lexer.forest.kind id) = some .eof then
    return "EOF"
  lexer.image id

/-- Where a node lies, in lines and columns. -/
structure Span where
  startLine : Nat
  startColumn : Nat
  stopLine : Nat
  stopColumn : Nat
  deriving DecidableEq, Repr

/-- The positions of the first and of the last unit of a node. -/
def span (lexer : Lexer) (id : NodeId) : Except Misuse Span := do
  let start ← lexer.forest.startOffset id
  let stop ← lexer.forest.stopOffset id
  let last := max (stop - 1) start
  return {
    startLine := lexer.buffer.lineNumber start
    startColumn := lexer.buffer.columnNumber start
    stopLine := lexer.buffer.lineNumber last
    stopColumn := lexer.buffer.columnNumber last }

/-- An offset as input, line and column. -/
def locationOf (lexer : Lexer) (offset : Nat) : String :=
  lexer.inputName ++ ":" ++ toString (lexer.buffer.lineNumber offset) ++ ":" ++
    toString (lexer.buffer.columnNumber offset)

/-- The start of a node as input, line and column. -/
def location (lexer : Lexer) (id : NodeId) : Except Misuse String := do
  let start ← lexer.forest.startOffset id
  return lexer.locationOf start

end Snbt.Lexer
