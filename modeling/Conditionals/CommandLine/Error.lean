import Conditionals.Log.Category

/-!
# Errors of the command line

Each error stops a command before it reports anything.
-/

namespace Conditionals.CommandLine

inductive ReadFailure where
  | missing
  | denied
  | notText
  | directory
  /-- Its path goes on behind a file. -/
  | notDirectory
  | nameTooLong
  | nulInName
  | other (reason : String)
  deriving DecidableEq, Repr

def ReadFailure.message (file : Text) (failure : ReadFailure) : String :=
  let name := "'" ++ String.ofList file ++ "'"
  match failure with
  | .missing => "cannot find file " ++ name
  | .denied => "permission denied reading " ++ name
  | .notText => name ++ " contains invalid UTF-8 data"
  | .directory => "error reading " ++ name ++ ": Is a directory (os error 21)"
  | .notDirectory => "error reading " ++ name ++ ": Not a directory (os error 20)"
  | .nameTooLong => "error reading " ++ name ++ ": File name too long (os error 36)"
  | .nulInName => "error reading " ++ name ++ ": file name contained an unexpected NUL byte"
  | .other reason => "error reading " ++ name ++ ": " ++ reason

inductive Error where
  | unknownOption (argument : Text)
  | unknownCommand (name : Text)
  /-- A known command with arguments it does not take. -/
  | wrongArguments (name : Text)
  | invalidLine (value : Text)
  | unknownCategory (unknown : Categories.Unknown)
  | unreadable (file : Text) (failure : ReadFailure)
  deriving DecidableEq, Repr

namespace Error

def message : Error → String
  | .unknownOption argument => "unknown option '" ++ String.ofList argument ++ "'"
  | .unknownCommand name => "unknown command '" ++ String.ofList name ++ "'"
  | .wrongArguments name => "wrong arguments for '" ++ String.ofList name ++ "'"
  | .invalidLine value =>
    "invalid line number '" ++ String.ofList value ++ "' (expected a zero-based integer)"
  | .unknownCategory unknown => unknown.message
  | .unreadable file failure => failure.message file

def wantsUsage : Error → Bool
  | .unknownOption _ | .unknownCommand _ | .wrongArguments _ | .invalidLine _ => true
  | .unknownCategory _ | .unreadable .. => false

end Error
end Conditionals.CommandLine
