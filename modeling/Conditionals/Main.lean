import Conditionals.CommandLine.Run

/-!
# The program

The outer layer: it asks the system for the arguments, the environment and the file, and prints
what the run leaves behind.
-/

namespace Conditionals.CommandLine

/-- The number of an error of the system, which reports some of them negated. -/
def errorNumber (code : UInt32) : UInt32 :=
  min code (0 - code)

def ReadFailure.ofSystem (error : IO.Error) : ReadFailure :=
  match error with
  | .noFileOrDirectory .. => .missing
  | .permissionDenied .. => .denied
  | .inappropriateType _ code _ | .invalidArgument _ code _ =>
    if errorNumber code = 20 then .notDirectory
    else if errorNumber code = 21 then .directory
    else if errorNumber code = 36 then .nameTooLong
    else .other (toString error)
  | _ => .other (toString error)

def readSystem (file : Text) : IO (Except ReadFailure ByteArray) := do
  if '\x00' ∈ file then
    return .error .nulInName
  try
    return .ok (← IO.FS.readBinFile (String.ofList file))
  catch error =>
    return .error (.ofSystem error)

end Conditionals.CommandLine

open Conditionals CommandLine in
def main (arguments : List String) : IO UInt32 := do
  let arguments := arguments.map String.toList
  let environment := (← IO.getEnv debugVariable).map String.toList
  let file? := match Invocation.read arguments environment with
    | .ok { command := .examine file _, .. } => some file
    | _ => none
  let bytes ← match file? with
    | some file => readSystem file
    | none => pure (.error .missing)
  let outcome := outcome arguments environment fun _ => bytes
  IO.print outcome.stdout
  IO.eprint outcome.stderr
  return outcome.exitCode.toUInt32
