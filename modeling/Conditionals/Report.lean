import Conditionals.Cursor.Replay
import Conditionals.Document
import Conditionals.Fold.Scan
import Conditionals.Text.Blank
import Conditionals.Text.Decimal

/-!
# Reports

A report is what a command has to tell. It is shown as plain lines or as a document.
-/

namespace Conditionals

open Decoration (Hint Decorations)
open Fold (Folding)

inductive Report where
  | folding (result : Folding)
  | decorations (text : Text) (result : Decorations)
  | enclosing (range : Option LineRange)
  | replay (steps : List Replay.Step)

namespace Report

def joinLines (lines : List String) : String :=
  "\n".intercalate lines

/-! ### Plain form -/

def alignRight (width : Nat) (text : String) : String :=
  String.ofList (text.toList.leftpad width ' ')

def alignLeft (width : Nat) (text : String) : String :=
  String.ofList (text.toList.rightpad width ' ')

def plainFolding (folding : Folding) : String :=
  if folding.ranges = [] then "no foldable blocks"
  else joinLines (folding.ranges.map LineRange.display)

def plainHint (table : LineTable) (hint : Hint) : String :=
  let source := Text.trimEnd ((table.text? hint.line).getD [])
  alignRight 5 (toString hint.line) ++ " | " ++ String.ofList source ++
    hint.rendered ++ "  [" ++ hint.color ++ "]"

/-- The annotated lines, an empty line after them, and the status. -/
def plainDecorations (text : Text) (decorations : Decorations) : String :=
  let table := LineTable.ofText text
  let annotated := decorations.hints.map (plainHint table)
  joinLines (annotated ++ (if annotated = [] then [] else [""]) ++ [decorations.status])

def plainSection : Option LineRange → String
  | some range => range.display
  | none => "no enclosing conditional section"

def plainStep (step : Replay.Step) : String :=
  alignRight 9 (toString step.cursor.line ++ ":" ++ toString step.cursor.column) ++ "  " ++
    alignLeft 10 (if step.scanned then "scanned" else "suppressed") ++ "  " ++ step.status ++
    "  (" ++ toString step.hints ++ " annotations)"

def plain : Report → String
  | .folding result => plainFolding result
  | .decorations text result => plainDecorations text result
  | .enclosing range => plainSection range
  | .replay steps => joinLines (steps.map plainStep)

/-! ### Document form -/

def rangeDocument (range : LineRange) : Document :=
  .object [("start_line", .number range.first), ("end_line", .number range.last)]

def diagnosticDocument (diagnostic : Diagnostic) : Document :=
  .object
    [("type", .string diagnostic.fault.tag), ("line", .number diagnostic.line),
      ("kind", .string diagnostic.kind.tag)]

def hintDocument (hint : Hint) : Document :=
  .object
    [("line", .number hint.line), ("band", .number hint.band),
      ("color", .string hint.color), ("label", .string (String.ofList hint.label))]

def stepDocument (step : Replay.Step) : Document :=
  .object
    [("line", .number step.cursor.line), ("column", .number step.cursor.column),
      ("scanned", .bool step.scanned), ("status", .string step.status),
      ("annotations", .number step.hints)]

def document : Report → Document
  | .folding result =>
    .object
      [("ranges", .list (result.ranges.map rangeDocument)),
        ("diagnostics", .list (result.diagnostics.map diagnosticDocument))]
  | .decorations _ result =>
    .object
      [("status", .string result.status),
        ("active_path", .list (result.path.names.map fun name => .string (String.ofList name))),
        ("annotations", .list (result.hints.map hintDocument)),
        ("diagnostics", .list (result.diagnostics.map diagnosticDocument))]
  | .enclosing (some range) => rangeDocument range
  | .enclosing none => .null
  | .replay steps => .list (steps.map stepDocument)

def render (json : Bool) (report : Report) : String :=
  if json then report.document.render else report.plain

def diagnostics : Report → List Diagnostic
  | .folding result => result.diagnostics
  | .decorations _ result => result.diagnostics
  | .enclosing _ | .replay _ => []

end Report
end Conditionals
