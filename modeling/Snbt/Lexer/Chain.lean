import Snbt.Lexer.Basic

namespace Snbt.Lexer

/-!
# The chain of tokens

The neighbours of a token are those it is linked to, and otherwise the nearest
tokens in the table.  Navigation among parsed tokens passes over the unparsed
ones.  Tokens can be spliced in before others, and a token can be replaced by
one of another kind.
-/

/-- The token after a token; there is none after the end of the input. -/
def next? (lexer : Lexer) (id : NodeId) : Option NodeId :=
  match lexer.forest.token? id with
  | none =>
      none
  | some token =>
      if token.kind = .eof then
        none
      else
        match token.appended? with
        | some linked =>
            some linked
        | none =>
            if (lexer.forest.source? id).isSome then
              lexer.table.next? token.stop
            else
              none

/-- The token before a token. -/
def previous? (lexer : Lexer) (id : NodeId) : Option NodeId :=
  match lexer.forest.token? id with
  | none =>
      none
  | some token =>
      match token.prepended? with
      | some linked =>
          some linked
      | none =>
          if (lexer.forest.source? id).isSome then
            lexer.table.previous? token.start
          else
            none

/-- The nodes that steps from a node lead to, at most `limit` of them. -/
def walk (step : NodeId → Option NodeId) : Nat → NodeId → List NodeId
  | 0, _ =>
      []
  | limit + 1, id =>
      match step id with
      | some next => next :: walk step limit next
      | none => []

/--
The first node on the way that takes part in parsing, at most
`limit` steps away.
-/
def firstParsed?
    (lexer : Lexer)
    (step : NodeId → Option NodeId) :
    Nat → NodeId → Option NodeId
  | 0, _ =>
      none
  | limit + 1, id =>
      match step id with
      | some next =>
          if lexer.forest.isUnparsed next then
            lexer.firstParsed? step limit next
          else
            some next
      | none =>
          none

/--
The unparsed nodes directly before a node, at most `limit` of them, in the
order of the input and followed by `run`.
-/
def unparsedRun (lexer : Lexer) : Nat → NodeId → List NodeId → List NodeId
  | 0, _, run =>
      run
  | limit + 1, id, run =>
      match lexer.previous? id with
      | some previous =>
          if lexer.forest.isUnparsed previous then
            lexer.unparsedRun limit previous (previous :: run)
          else
            run
      | none =>
          run

/-- The token after a token. -/
def successor
    (lexer : Lexer)
    (id : NodeId) :
    Except Misuse (Option NodeId) := do
  let _ ← lexer.forest.token id
  return lexer.next? id

/-- The token before a token. -/
def predecessor
    (lexer : Lexer)
    (id : NodeId) :
    Except Misuse (Option NodeId) := do
  let _ ← lexer.forest.token id
  return lexer.previous? id

/-- The next token that takes part in parsing. -/
def parsedSuccessor
    (lexer : Lexer)
    (id : NodeId) :
    Except Misuse (Option NodeId) := do
  let _ ← lexer.forest.token id
  return lexer.firstParsed? lexer.next? (lexer.forest.size + 1) id

/-- The last token before a token that takes part in parsing. -/
def parsedPredecessor
    (lexer : Lexer)
    (id : NodeId) :
    Except Misuse (Option NodeId) := do
  let _ ← lexer.forest.token id
  return lexer.firstParsed? lexer.previous? (lexer.forest.size + 1) id

/-- The tokens after a token in order, at most `limit` of them. -/
def successors (lexer : Lexer) (id : NodeId) (limit : Nat) :
    Except Misuse (List NodeId) := do
  let _ ← lexer.forest.token id
  return walk lexer.next? limit id

/-- The tokens before a token, nearest first, at most `limit` of them. -/
def predecessors (lexer : Lexer) (id : NodeId) (limit : Nat) :
    Except Misuse (List NodeId) := do
  let _ ← lexer.forest.token id
  return walk lexer.previous? limit id

/--
The run of unparsed tokens directly before a token, in the order of the input.
-/
def unparsedBefore (lexer : Lexer) (id : NodeId) :
    Except Misuse (List NodeId) := do
  let _ ← lexer.forest.token id
  return lexer.unparsedRun (lexer.forest.size + 1) id []

/--
The first token from a token on that has a stretch of its own, at most
`bound` steps away.
-/
def anchorWithin? (lexer : Lexer) : Nat → NodeId → Option (Nat × NodeId)
  | 0, _ =>
      none
  | bound + 1, id =>
      match lexer.forest.token? id with
      | none =>
          none
      | some token =>
          if token.inserted then
            match lexer.next? id with
            | some next => lexer.anchorWithin? bound next
            | none => none
          else
            some (token.start, id)

/--
Put a token into the table.  An inserted token has no offset of its own, so the
first token after it that has one is put there instead.
-/
def remember (lexer : Lexer) (id : NodeId) : Lexer :=
  match lexer.anchorWithin? (lexer.forest.size + 1) id with
  | some (offset, anchor) =>
      { lexer with table := lexer.table.put offset anchor }
  | none => lexer

/--
Make a token with a text of its own that is tied to the buffer but in no chain.
-/
def newToken (lexer : Lexer) (kind : Kind) (image : String) : Lexer × NodeId :=
  lexer.addToken { Token.free kind image with scanned := true } false

/--
Splice a token into the chain directly before another.  It becomes an empty
stretch at the start of the other and is never put into the table.
-/
def insertBefore (lexer : Lexer) (before inserted : NodeId) :
    Except Misuse Lexer := do
  let token ← lexer.forest.token before
  if token.prepended? = some inserted then
    return lexer
  let _ ← lexer.forest.token inserted
  let existing? := lexer.previous? before
  let placed :=
    lexer.updateToken inserted fun new =>
      { new with
        appended? := some before
        inserted := true
        start := token.start
        stop := token.start
        prepended? := existing?.or new.prepended? }
  let linked :=
    match existing? with
    | some existing =>
        placed.updateToken existing fun old =>
          { old with appended? := some inserted }
    | none =>
        placed
  return linked.updateToken before fun old =>
    { old with prepended? := some inserted }

/--
Make a copy of a token with another kind, which takes its place in the chain.
It is put into the table unless the token was inserted.
-/
def replaceKind (lexer : Lexer) (id : NodeId) (kind : Kind) :
    Except Misuse (Lexer × NodeId) := do
  let old ← lexer.forest.token id
  let unparsed : Bool := lexer.roles.role kind = .unparsed
  let (copied, replacement) := lexer.addToken { old with kind } unparsed
  let linkedAfter :=
    match old.appended? with
    | some appended =>
        copied.updateToken appended fun next =>
          { next with prepended? := some replacement }
    | none =>
        copied
  let linked :=
    match old.prepended? with
    | some prepended =>
        linkedAfter.updateToken prepended fun previous =>
          { previous with appended? := some replacement }
    | none =>
        linkedAfter
  return (if old.inserted then linked else linked.remember replacement,
    replacement)

end Snbt.Lexer
