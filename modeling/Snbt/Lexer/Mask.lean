import Snbt.Lexer.Basic

namespace Snbt.Lexer

/-!
# Masking lines

Lines can be taken out of the input: all that are listed, or all that are not.
Lines are counted from 1 in the buffer, whatever number its first line has.
-/

/-- The indices of the lines to hide, counted from 0. -/
def maskedLines
    (lexer : Lexer)
    (listed : List Nat)
    (hideListed : Bool) :
    List Nat :=
  (List.range lexer.buffer.lines.count).filter fun index =>
    listed.contains (index + 1) == hideListed

/-- Hide the lines that are listed, or those that are not. -/
def maskLines (lexer : Lexer) (listed : List Nat) (hideListed : Bool) : Lexer :=
  let stretches :=
    (lexer.maskedLines listed hideListed).filterMap fun index =>
      lexer.buffer.lines.range? index lexer.buffer.size
  { lexer with
    table := stretches.foldl
      (fun table stretch => table.hideRange stretch.1 stretch.2) lexer.table }

/-- Read no lines but those listed. -/
def keepOnlyLines (lexer : Lexer) (lines : List Nat) : Lexer :=
  lexer.maskLines lines false

/-- Read none of the lines listed. -/
def hideLines (lexer : Lexer) (lines : List Nat) : Lexer :=
  lexer.maskLines lines true

end Snbt.Lexer
