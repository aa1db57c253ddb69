import Snbt.Command.Options
import Snbt.Lexer.Mask
import Snbt.Lexer.Texts
import Snbt.Lexer.Tokens
import Snbt.Text.Padding
import Snbt.Text.Quoted

namespace Snbt

/-!
# Listing of tokens

One line for each token of an input: its kind, the offsets between
which it lies, the line and column at which it starts, and its text as
in a quoted literal.
-/

namespace Options

/-- The settings of a lexer that the options ask for. -/
def settings (options : Options) (inputName : String) : LexerSettings :=
  { LexerSettings.standard with
    inputName
    roles := if options.keepWhitespace then .keepingWhitespace else .standard
    buffer :=
      { BufferSettings.standard with
        tabSize := options.tabSize?.getD BufferSettings.standard.tabSize } }

/-- The lexer for encoded bytes that the options ask for. -/
def lexer
    (options : Options)
    (inputName : String)
    (bytes : List UInt8) :
    Lexer :=
  let fresh := Lexer.ofBytes (options.settings inputName) options.charset? bytes
  if options.unparsedLines.isEmpty then
    fresh
  else
    fresh.hideLines options.unparsedLines

end Options

namespace Lexer

/-- The line of a token in a listing. -/
def listingLine (lexer : Lexer) (token : Token) : String :=
  Alignment.left.fit 14 none token.kind.name ++ " " ++
    toString token.start ++ ".." ++
    toString token.stop ++ " @ " ++ lexer.locationOf token.start ++ " \"" ++
    Quoted.escape (lexer.imageOf token) ++ "\""

/-- The listing of all tokens from the position on. -/
def listing (lexer : Lexer) : List String :=
  let (finished, ids) := lexer.tokenize
  (ids.filterMap finished.forest.token?).map finished.listingLine

end Lexer

end Snbt
