import Conditionals.CommandLine.Invocation
import Conditionals.CommandLine.Usage
import Conditionals.CommandLine.WorkingDirectory
import Conditionals.Report
import Conditionals.Section

/-!
# Running a command line

A run prints one report, or the usage, or one error and nothing else.
-/

namespace Conditionals.CommandLine

structure Printed where
  stdout : String := ""
  stderr : String := ""
  deriving DecidableEq, Repr

structure Outcome extends Printed where
  exitCode : Nat
  deriving DecidableEq, Repr

def Task.report (chosen : Categories) (text : Text) : Task → Logged Report
  | .fold => (Fold.foldText chosen text).map .folding
  | .path line => (Decoration.scan chosen text line).map (.decorations text)
  | .enclosing line => { value := .enclosing (sectionAt text.terminatedLines line), log := [] }
  | .replay cursors => (Replay.run chosen text cursors).map .replay

def warnings (diagnostics : List Diagnostic) : String :=
  String.join (diagnostics.map fun diagnostic => "warning: " ++ diagnostic.message ++ "\n")

/-- Prints a report. Only a plain report warns about its diagnostics on the side. -/
def printReport (json : Bool) (report : Report) : Printed :=
  { stdout := report.render json ++ "\n"
    stderr := if json then "" else warnings report.diagnostics }

def Invocation.run (invocation : Invocation) (read : Reader) : Except Error (Logged Printed) :=
  match invocation.command with
  | .help => .ok { value := { stderr := usage }, log := [] }
  | .examine file task =>
    match readText read file with
    | .ok text => .ok ((task.report invocation.chosen text).map (printReport invocation.json))
    | .error failure => .error (.unreadable file failure)

def execute (arguments : List Text) (environment : Option Text) (read : Reader) :
    Except Error (Logged Printed) := do
  let invocation ← Invocation.read arguments environment
  invocation.run read

def printError (error : Error) : Printed :=
  { stderr :=
      "error: " ++ error.message ++ "\n" ++ (if error.wantsUsage then "\n" ++ usage else "") }

def outcome (arguments : List Text) (environment : Option Text) (read : Reader) : Outcome :=
  match execute arguments environment read with
  | .ok printed => { printed.value with exitCode := 0 }
  | .error error => { printError error with exitCode := 1 }

end Conditionals.CommandLine
