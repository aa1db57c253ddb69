import Snbt.Text.Charset
import Snbt.Text.Fields
import Snbt.Text.WhiteSpace

namespace Snbt

/-!
# Options of the command line

What may follow the file whose tokens are asked for.  Options are read in order,
and the first one that cannot be read is reported.
-/

/-- What was asked for besides the tokens. -/
structure Options where
  /--
  The charset of the file, when it is not to be told from its first bytes.
  -/
  charset? : Option Charset
  tabSize? : Option Nat
  /-- List whitespace too. -/
  keepWhitespace : Bool
  /-- The lines to leave out, counted from 1. -/
  unparsedLines : List Nat
  deriving DecidableEq, Repr

/-- Why an option cannot be read. -/
inductive OptionError where
  | charset (cause : Charset.UnknownLabel)
  | tabSize (given : String)
  | lineNumber (given : String)
  | unknown (argument : String)
  deriving DecidableEq, Repr

namespace OptionError

/-- What is told about an option that cannot be read. -/
def message : OptionError → String
  | .charset cause => cause.message
  | .tabSize given => "invalid tab size '" ++ given ++ "'"
  | .lineNumber given => "invalid line number '" ++ given ++ "'"
  | .unknown argument => "unknown option '" ++ argument ++ "'"

end OptionError

namespace Options

/-- Nothing besides the tokens. -/
def plain : Options where
  charset? := none
  tabSize? := none
  keepWhitespace := false
  unparsedLines := []

/-- The greatest number that an option may have. -/
def greatest : Nat :=
  4294967295

/-- The number that decimal digits spell, if there is nothing but digits. -/
def digitsValue? (chars : List Char) : Option Nat :=
  chars.foldlM
    (fun total char =>
      if '0' ≤ char && char ≤ '9' then
        some (total * 10 + (char.toNat - '0'.toNat))
      else
        none)
    0

/--
A number of an option: decimal digits, at most one `+` before them,
and not too great.
-/
def number? (chars : List Char) : Option Nat :=
  let digits :=
    match chars with
    | '+' :: rest => rest
    | _ => chars
  if digits.isEmpty then
    none
  else
    (digitsValue? digits).filter (· ≤ greatest)

/-- The numbers of a list between commas; empty parts are passed over. -/
def lineNumbers (chars : List Char) : Except OptionError (List Nat) :=
  let given :=
    ((Fields.split ',' chars).map WhiteSpace.trim).filter (!·.isEmpty)
  given.mapM fun field =>
    match number? field with
    | some line => .ok line
    | none => .error (.lineNumber (String.ofList field))

/-- What follows a name at the start of an argument. -/
def after? (name : String) (argument : String) : Option (List Char) :=
  name.toList.isPrefixOf? argument.toList

/-- Read one more option. -/
def add (options : Options) (argument : String) : Except OptionError Options :=
  match after? "--charset=" argument with
  | some label =>
      match Charset.ofLabel (String.ofList label) with
      | .ok charset => .ok { options with charset? := some charset }
      | .error cause => .error (.charset cause)
  | none =>
      match after? "--tab-size=" argument with
      | some given =>
          match number? given with
          | some tabSize => .ok { options with tabSize? := some tabSize }
          | none => .error (.tabSize (String.ofList given))
      | none =>
          if argument = "--keep-whitespace" || argument = "-w" then
            .ok { options with keepWhitespace := true }
          else
            match after? "--unparsed-lines=" argument with
            | some list =>
                match lineNumbers list with
                | .ok lines =>
                    .ok { options with
                      unparsedLines := options.unparsedLines ++ lines }
                | .error cause =>
                    .error cause
            | none =>
                .error (.unknown argument)

/-- Read the options in order. -/
def parse (arguments : List String) : Except OptionError Options :=
  arguments.foldlM add plain

end Options

end Snbt
