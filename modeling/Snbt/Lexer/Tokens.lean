import Snbt.Lexer.Chain

namespace Snbt.Lexer

/-!
# Pulling tokens

Tokens are asked for one after another: the one after a token that is known
already, or the one at an offset.  What the table knows is used again as long as
its kind is active; an inactive neighbour makes the rest of the table worthless.
-/

/-- Drop the tokens of the stretches that a scan skipped. -/
def releaseAll (lexer : Lexer) (skipped : List (Nat × Nat)) : Lexer :=
  { lexer with
    table := skipped.foldl
      (fun table stretch => table.releaseRange stretch.1 stretch.2)
      lexer.table }

/-- Whether a token is the one that a lexeme would become. -/
def isSame
    (lexer : Lexer)
    (lexeme : Lexeme)
    (unparsed : Bool)
    (id : NodeId) :
    Bool :=
  match lexer.forest.token? id with
  | some token =>
      token.kind = lexeme.kind && token.stop = lexeme.stop &&
        lexer.forest.isUnparsed id == unparsed
  | none =>
      false

/--
The token of a lexeme: the one that the table has at its start, if it is the
same, and otherwise a new one, which is put there.
-/
def tokenFor (lexer : Lexer) (lexeme : Lexeme) : Lexer × NodeId :=
  let unparsed : Bool := lexer.roles.role lexeme.kind = .unparsed
  match (lexer.table.tokenAt? lexeme.start).filter
    (lexer.isSame lexeme unparsed) with
  | some id =>
      (lexer, id)
  | none =>
      let (made, id) :=
        lexer.addToken
          (.ofStretch lexeme.kind lexeme.start lexeme.stop) unparsed
      (made.remember id, id)

/--
Scan the token at the position.  Invalid input before it is a token of its
own, which is returned first and made last; the position is then behind
the invalid input.
-/
def scanNext (lexer : Lexer) : Lexer × NodeId :=
  let scan := lexer.scanner.scan lexer.position
  let (withToken, token) := (lexer.releaseAll scan.skipped).tokenFor scan.lexeme
  match scan.invalid? with
  | none =>
      ({ withToken with position := scan.lexeme.stop }, token)
  | some run =>
      let (withRun, invalid) := withToken.tokenFor run
      (withRun.moveTo run.stop, invalid)

/-- Scan the token at an offset, whatever the table knows of it. -/
def scanAt (lexer : Lexer) (offset : Nat) : Lexer × NodeId :=
  (lexer.moveTo offset).scanNext

/-- Go back to the end of a token and drop all tokens and the link after it. -/
def rewind (lexer : Lexer) (id : NodeId) (token : Token) : Lexer :=
  let moved := lexer.moveTo token.stop
  let cleared := { moved with table := moved.table.clearFrom token.stop }
  cleared.updateToken id fun token => { token with appended? := none }

/--
Go back to the end of a token, drop all tokens after it, and change
the mode if asked.
-/
def reset
    (lexer : Lexer)
    (id : NodeId)
    (mode? : Option Mode) :
    Except Misuse Lexer := do
  let token ← lexer.forest.token id
  return (lexer.rewind id token).withMode (mode?.getD lexer.mode)

/-- Whether a token is of an active kind. -/
def isActive (lexer : Lexer) (id : NodeId) : Bool :=
  match lexer.kindOf? id with
  | some kind => lexer.active.contains kind
  | none => false

/--
The token after a token.  A neighbour that is known is returned if its kind is
active; otherwise what follows is forgotten and scanned anew.
-/
def tokenAfter (lexer : Lexer) (id : NodeId) (token : Token) : Lexer × NodeId :=
  match lexer.next? id with
  | some known =>
      if lexer.isActive known then
        (lexer, known)
      else
        (lexer.rewind id token).scanAt token.stop
  | none =>
      lexer.scanAt token.stop

/-- The token after a token, or the token at the position. -/
def nextToken (lexer : Lexer) (previous? : Option NodeId) :
    Except Misuse (Lexer × NodeId) := do
  match previous? with
  | some previous =>
      let token ← lexer.forest.token previous
      return lexer.tokenAfter previous token
  | none =>
      return lexer.scanNext

/--
The tokens from one on up to the end of the input, at most `bound` of
them, behind `ids`.
-/
def tokensFrom : Nat → Lexer → Array NodeId → NodeId → Lexer × Array NodeId
  | 0, lexer, ids, _ =>
      (lexer, ids)
  | bound + 1, lexer, ids, id =>
      match lexer.forest.token? id with
      | none =>
          (lexer, ids.push id)
      | some token =>
          if token.kind = .eof then
            (lexer, ids.push id)
          else
            let (after, next) := lexer.tokenAfter id token
            tokensFrom bound after (ids.push id) next

/-- More tokens than any walk to the end of the input meets. -/
def walkBound (lexer : Lexer) : Nat :=
  let places := lexer.forest.size + lexer.buffer.size + 2
  places * places

/-- Every token from the position on, up to the end of the input. -/
def tokenize (lexer : Lexer) : Lexer × List NodeId :=
  let (started, first) := lexer.scanNext
  let (finished, ids) := tokensFrom lexer.walkBound started #[] first
  (finished, ids.toList)

end Snbt.Lexer
