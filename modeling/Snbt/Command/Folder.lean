import Snbt.Command.ReadFailure
import Snbt.Text.Fields

namespace Snbt

/-!
# Folders in memory

A folder with a few files, in which paths are followed as in a file system with
slashes.  It answers reads without a disk, so that the command can be run on
given files alone.  What lies outside the folder is not known: there is a
folder there, and no file is found in it.
-/

/-- The files of a folder and their contents. -/
structure Folder where
  files : List (String × List UInt8)

namespace Folder

/-- Where a path has led to. -/
inductive Place where
  /-- A folder inside this one, by the names that lead to it, the last first. -/
  | folder (names : List String)
  | file (bytes : List UInt8)
  /-- A folder that this one lies in. -/
  | outside

/-- The parts of a path between slashes. -/
def parts (path : String) : List String :=
  (Fields.split '/' path.toList).map String.ofList

/--
The names that a path leads through, without those that stay where they are.
-/
def names (path : String) : List String :=
  (parts path).filter fun name => name ≠ "" && name ≠ "."

/-- What is in the folder at the end of some names. -/
def entry? (folder : Folder) (path : List String) : Option Place :=
  match folder.files.find? fun file => names file.1 = path with
  | some file =>
      some (.file file.2)
  | none =>
      if folder.files.any fun file => path.isPrefixOf (names file.1) then
        some (.folder path.reverse)
      else
        none

/-- The longest name that a file system takes, in bytes. -/
def longestName : Nat :=
  255

/-- The longest path that a file system takes, in bytes. -/
def longestPath : Nat :=
  4095

/-- Follow one part of a path. -/
def follow (folder : Folder) (place : Place) (part : String) :
    Except ReadFailure Place :=
  match place with
  | .file _ =>
      .error .notDirectory
  | .folder names =>
      if part = "" || part = "." then
        .ok (.folder names)
      else if part = ".." then
        match names with
        | [] => .ok .outside
        | _ :: outer => .ok (.folder outer)
      else if longestName < part.utf8ByteSize then
        .error .nameTooLong
      else
        match folder.entry? (names.reverse ++ [part]) with
        | some found => .ok found
        | none => .error .notFound
  | .outside =>
      if part = "" || part = "." || part = ".." then
        .ok .outside
      else if longestName < part.utf8ByteSize then
        .error .nameTooLong
      else
        .error .notFound

/-- The bytes of the file that a path leads to. -/
def read
    (folder : Folder)
    (path : String) :
    Except ReadFailure (List UInt8) := do
  if path = "" then
    throw .notFound
  if longestPath < path.utf8ByteSize then
    throw .nameTooLong
  let start := if path.startsWith "/" then Place.outside else Place.folder []
  let place ← (parts path).foldlM folder.follow start
  match place with
  | .file bytes => return bytes
  | _ => throw .isDirectory

end Folder

end Snbt
