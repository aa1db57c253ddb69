namespace Snbt.Fields

/-!
# Fields

The parts of a text between separators.  There is always one more part than
there are separators, and parts may be empty.
-/

/-- The parts of a text between separators. -/
def split (separator : Char) : List Char → List (List Char)
  | [] =>
      [[]]
  | char :: rest =>
      match split separator rest with
      | field :: others =>
          if char = separator then
            [] :: field :: others
          else
            (char :: field) :: others
      | [] =>
          [[char]]

end Snbt.Fields
