namespace Snbt

/-!
# Padding to a width

Text in a column of fixed width: cut to a number of characters first, where one
is given, then filled up with blanks.
-/

/-- Where a text stands in a column wider than it. -/
inductive Alignment where
  | left
  | right
  | center
  deriving DecidableEq, Repr

namespace Alignment

/-- The blanks before the text when `spare` blanks are to be placed. -/
def leading : Alignment → Nat → Nat
  | .left, _ => 0
  | .right, spare => spare
  | .center, spare => spare / 2

/--
The characters filled up with blanks to a width; an odd blank of a
centred text is last.
-/
def pad (alignment : Alignment) (width : Nat) (chars : List Char) : List Char :=
  let spare := width - chars.length
  let before := alignment.leading spare
  List.replicate before ' ' ++ chars ++ List.replicate (spare - before) ' '

/-- A text cut to at most `limit?` characters and filled up to a width. -/
def fit
    (alignment : Alignment)
    (width : Nat)
    (limit? : Option Nat)
    (text : String) :
    String :=
  let chars :=
    match limit? with
    | some limit => text.toList.take limit
    | none => text.toList
  String.ofList (alignment.pad width chars)

end Alignment

end Snbt
