namespace Snbt

/-!
# Files that cannot be read

Why a file cannot be read, and what is told about it.  Failures of the
system that have no message of their own are told by their number and its
usual description.
-/

/-- Why a file cannot be read. -/
inductive ReadFailure where
  | notFound
  | permissionDenied
  /-- Any other failure of the system, by its number. -/
  | system (number : Nat)
  /-- A failure that has no number. -/
  | other (description : String)
  deriving DecidableEq, Repr

namespace ReadFailure

/-- A file stands where a folder is needed. -/
def notDirectory : ReadFailure :=
  .system 20

/-- A folder stands where a file is needed. -/
def isDirectory : ReadFailure :=
  .system 21

/-- A name or a path is too long. -/
def nameTooLong : ReadFailure :=
  .system 36

/--
The descriptions of the failures that opening and reading a file can have.
-/
def descriptions : List (Nat × String) :=
  [(4, "Interrupted system call"),
    (5, "Input/output error"),
    (6, "No such device or address"),
    (9, "Bad file descriptor"),
    (11, "Resource temporarily unavailable"),
    (12, "Cannot allocate memory"),
    (16, "Device or resource busy"),
    (19, "No such device"),
    (20, "Not a directory"),
    (21, "Is a directory"),
    (22, "Invalid argument"),
    (23, "Too many open files in system"),
    (24, "Too many open files"),
    (26, "Text file busy"),
    (27, "File too large"),
    (36, "File name too long"),
    (40, "Too many levels of symbolic links"),
    (75, "Value too large for defined data type"),
    (116, "Stale file handle")]

/-- A failure of the system by its description and its number. -/
def describe (number : Nat) : String :=
  let description :=
    (descriptions.lookup number).getD ("Unknown error " ++ toString number)
  description ++ " (os error " ++ toString number ++ ")"

/-- What is told about a file that cannot be read. -/
def message (path : String) : ReadFailure → String
  | .notFound => "cannot find file '" ++ path ++ "'"
  | .permissionDenied => "permission denied reading '" ++ path ++ "'"
  | .system number => "error reading '" ++ path ++ "': " ++ describe number
  | .other description => "error reading '" ++ path ++ "': " ++ description

end ReadFailure

end Snbt
