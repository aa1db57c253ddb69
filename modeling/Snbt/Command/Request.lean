import Snbt.Command.Listing
import Snbt.Command.ReadFailure

namespace Snbt

/-!
# Requests

What the arguments of the command ask for, and what it answers: the lines that
go to each stream and the code with which the command ends.  Reading a file is
left to the caller.
-/

/-- What the command ends with. -/
structure Response where
  code : Nat
  /-- The lines for standard output. -/
  output : List String
  /-- The lines for standard error. -/
  errors : List String
  deriving DecidableEq, Repr

namespace Response

/-- Lines of output, and a good end. -/
def success (output : List String) : Response where
  code := 0
  output := output
  errors := []

/-- Lines of errors and of output, and a bad end. -/
def failure (errors output : List String) : Response where
  code := 1
  output := output
  errors := errors

/-- Lines as one text, each with its line end. -/
def textOf (lines : List String) : String :=
  String.join (lines.map (· ++ "\n"))

end Response

/-- What the command is asked for. -/
inductive Request where
  | help
  | version
  | unknownCommand (command : String)
  | missingFile
  | badOption (cause : OptionError)
  | listTokens (path : String) (options : Options)
  deriving DecidableEq, Repr

namespace Request

/-- The version of the command. -/
def versionNumber : String :=
  "0.1.0"

/-- The options that may follow a file. -/
def optionHelp : List String :=
  ["Lex options:",
    "  --charset=<label>       Input encoding: utf-8, utf-16be, utf-16le, utf-32be, utf-32le",
    "  --tab-size=<n>          Columns per tab stop (default: 1)",
    "  --unparsed-lines=<list> Comma-separated lines to leave out",
    "  -w, --keep-whitespace   Report whitespace tokens"]

/-- How the command is used. -/
def usage : List String :=
  ["SNBT lexer",
    "",
    "Usage: snbt <command> [options]",
    "",
    "Commands:",
    "  lex <file>    Tokenize a file and display tokens",
    "  help          Show this help message",
    "  version       Show version information",
    ""] ++
  optionHelp ++
  ["",
    "Set RUST_LOG (e.g. RUST_LOG=snbt_lexer=trace) for lexer tracing."]

/-- What the arguments after the name of the command ask for. -/
def ofArguments : List String → Request
  | [] =>
      .help
  | command :: rest =>
      if command = "lex" then
        match rest with
        | [] =>
            .missingFile
        | path :: arguments =>
            match Options.parse arguments with
            | .ok options => .listTokens path options
            | .error cause => .badOption cause
      else if command = "help" || command = "--help" || command = "-h" then
        .help
      else if command = "version" || command = "--version" ||
        command = "-V" then
        .version
      else
        .unknownCommand command

/-- The answer when the tokens of a file are listed. -/
def listTokensOf
    (path : String)
    (options : Options)
    (content : Except ReadFailure (List UInt8)) :
    Response :=
  match content with
  | .ok bytes =>
      let lexer := options.lexer path bytes
      match lexer.buffer.check with
      | .error tooLarge =>
          .failure ["error: " ++ tooLarge.message] []
      | .ok () =>
          let lines := lexer.listing
          .success
            (("Tokens for '" ++ path ++ "' (" ++ toString lines.length ++
              " tokens):") ::
              lines.map ("  " ++ ·))
  | .error failure =>
      .failure [failure.message path] []

/-- The answer to a request, the file that it names being read by `read`. -/
def respond {m : Type → Type} [Monad m]
    (read : String → m (Except ReadFailure (List UInt8))) :
    Request → m Response
  | .help =>
      return .success usage
  | .version =>
      return .success ["snbt " ++ versionNumber]
  | .unknownCommand command =>
      return .failure ["Unknown command: " ++ command, ""] usage
  | .missingFile =>
      return .failure ["Usage: snbt lex <file> [options]", ""] optionHelp
  | .badOption cause =>
      return .failure ["error: " ++ cause.message] []
  | .listTokens path options => do
      let content ← read path
      return listTokensOf path options content

end Request

end Snbt
