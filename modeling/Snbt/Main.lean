import Snbt.Command.Request

/-!
# The command

Reads the file that a request names, prints the response and ends with its code.
-/

namespace Snbt.Main

/--
The number of a failure of the system; some are given with the other sign.
-/
def ofNumber (code : UInt32) : ReadFailure :=
  if code < 0x80000000 then
    .system code.toNat
  else
    .system (0 - code).toNat

/-- Why the system could not read a file. -/
def failureOf : IO.Error → ReadFailure
  | .noFileOrDirectory .. => .notFound
  | .permissionDenied .. => .permissionDenied
  | .inappropriateType _ code _ => ofNumber code
  | .invalidArgument _ code _ => ofNumber code
  | .resourceExhausted _ code _ => ofNumber code
  | .interrupted _ code _ => ofNumber code
  | .noSuchThing _ code _ => ofNumber code
  | .resourceBusy code _ => ofNumber code
  | .resourceVanished code _ => ofNumber code
  | .hardwareFault code _ => ofNumber code
  | .unsupportedOperation code _ => ofNumber code
  | .illegalOperation code _ => ofNumber code
  | .otherError code _ => ofNumber code
  | error => .other error.toString

/-- Read a file of the system. -/
def readFile (path : String) : IO (Except ReadFailure (List UInt8)) := do
  try
    let bytes ← IO.FS.readBinFile path
    return .ok bytes.toList
  catch error =>
    return .error (failureOf error)

end Snbt.Main

/-- Answer the request that the arguments make. -/
def main (arguments : List String) : IO UInt32 := do
  let response ← (Snbt.Request.ofArguments arguments).respond Snbt.Main.readFile
  (← IO.getStdout).putStr (Snbt.Response.textOf response.output)
  (← IO.getStderr).putStr (Snbt.Response.textOf response.errors)
  return response.code.toUInt32
