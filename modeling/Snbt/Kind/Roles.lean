import Snbt.Kind.Set

namespace Snbt

/-!
# Roles of kinds

What scanning does with a text it has matched depends on the role of its kind:
most become tokens, some become tokens that a parser does not see, some are
passed over, and some only begin a longer token.
-/

/-- What becomes of a matched text. -/
inductive Role where
  /-- It is a token. -/
  | regular
  /-- It is a token that takes no part in parsing. -/
  | unparsed
  /-- It is passed over. -/
  | skip
  /-- It is the beginning of the next token. -/
  | more
  deriving DecidableEq, Repr

namespace Role

/-- The name of a role, for diagnostics. -/
def name : Role → String
  | .regular => "Regular"
  | .unparsed => "Unparsed"
  | .skip => "Skip"
  | .more => "More"

end Role

/-- The kinds that have another role than the regular one. -/
structure Roles where
  skip : KindSet
  unparsed : KindSet
  more : KindSet
  deriving DecidableEq, Repr

namespace Roles

/-- Whitespace is passed over. -/
def standard : Roles where
  skip := .ofList [.whitespace]
  unparsed := .empty
  more := .empty

/-- Whitespace is kept as tokens that take no part in parsing. -/
def keepingWhitespace : Roles where
  skip := .empty
  unparsed := .ofList [.whitespace]
  more := .empty

/--
The role of a kind.  A kind in several of the sets is passed over rather than a
beginning, and a beginning rather than unparsed.  The end of input and invalid
input are regular whatever the sets say.
-/
def role (roles : Roles) (kind : Kind) : Role :=
  if kind = .eof || kind = .invalid then .regular
  else if roles.skip.contains kind then .skip
  else if roles.more.contains kind then .more
  else if roles.unparsed.contains kind then .unparsed
  else .regular

end Roles

end Snbt
