import Conditionals.ActivePath
import Conditionals.Cursor.Basic
import Conditionals.Diagnostic
import Conditionals.Directive.Keyword
import Conditionals.LineRange
import Conditionals.Log.Category

/-!
# Log events

Scans report what they meet as events. An event belongs to a category and is logged when the
category is chosen; the one event without a category is logged always. A `Record` is the form in
which an event leaves the program.
-/

namespace Conditionals

inductive Event where
  | directive (line : Nat) (keyword : Keyword)
  | depth (blocks : Nat)
  | range (range : LineRange)
  | folded (ranges : Nat)
  | cancelled (line : Nat)
  | skipped (line : Nat)
  /-- A block was opened; `path` names every open block. -/
  | opened (line : Nat) (kind : Kind) (name : Text) (path : List Text)
  | branched (line : Nat) (name : Text) (path : List Text)
  | inverted (line : Nat) (label : Text) (path : List Text)
  /-- A block was closed; `closes` is the name it had last. -/
  | closed (line : Nat) (label : Text) (closes : Text)
  | decorated (path : ActivePath)
  | stayed (line : Nat)
  | moved (previous : Option Nat) (cursor : Cursor)
  | signalled (signal : Signal)
  /-- A diagnostic was reported during a scan of the given category. -/
  | warned (category : Category) (diagnostic : Diagnostic)
  deriving DecidableEq, Repr

inductive Level where
  | trace
  | debug
  | warn
  deriving DecidableEq, Repr

def Level.name : Level → String
  | .trace => "TRACE"
  | .debug => "DEBUG"
  | .warn => "WARN"

inductive FieldValue where
  | number (value : Nat)
  | text (value : String)
  deriving DecidableEq, Repr

structure Record where
  level : Level
  target : String
  message : String
  fields : List (String × FieldValue)
  deriving DecidableEq, Repr

def Category.target : Category → String
  | .folding => "condpath::folding"
  | .decorations => "condpath::decorations"

namespace Event

def category? : Event → Option Category
  | .directive .. | .depth .. | .range .. | .folded .. => some .folding
  | .cancelled .. => none
  | .warned category _ => some category
  | _ => some .decorations

def isLogged (chosen : Categories) (event : Event) : Bool :=
  event.category?.all chosen.has

def target (event : Event) : String :=
  match event.category? with
  | some category => category.target
  | none => "condpath_scan::fold"

def level : Event → Level
  | .directive .. | .depth .. | .range .. | .skipped .. | .stayed .. | .signalled .. => .trace
  | .warned .. => .warn
  | _ => .debug

def message : Event → String
  | .directive .. => "directive"
  | .depth .. => "stack"
  | .range .. => "range"
  | .folded .. => "folding scan complete"
  | .cancelled .. => "folding scan cancelled"
  | .skipped .. => "skipping commented-out directive"
  | .opened .. => "open"
  | .branched .. => "branch"
  | .inverted .. => "else"
  | .closed .. => "endif"
  | .decorated .. => "decoration scan complete"
  | .stayed .. => "cursor line unchanged"
  | .moved .. => "cursor line changed"
  | .signalled .. => "host event"
  | .warned _ diagnostic => diagnostic.message

def optionalLine : Option Nat → String
  | some line => s!"Some({line})"
  | none => "None"

def fields : Event → List (String × FieldValue)
  | .directive line keyword =>
    [("line", .number line), ("keyword", .text (String.ofList keyword.spelling))]
  | .depth blocks => [("depth", .number blocks)]
  | .range lines => [("start", .number lines.first), ("end", .number lines.last)]
  | .folded ranges => [("ranges", .number ranges)]
  | .cancelled line => [("line", .number line)]
  | .skipped line => [("line", .number line)]
  | .opened line kind name path =>
    [("line", .number line), ("kind", .text kind.display), ("name", .text (String.ofList name)),
      ("path", .text (arrowJoin path))]
  | .branched line name path =>
    [("line", .number line), ("name", .text (String.ofList name)), ("path", .text (arrowJoin path))]
  | .inverted line label path =>
    [("line", .number line), ("label", .text (String.ofList label)),
      ("path", .text (arrowJoin path))]
  | .closed line label closes =>
    [("line", .number line), ("combined", .text (String.ofList label)),
      ("closes", .text (String.ofList closes))]
  | .decorated path => [("path", .text path.display)]
  | .stayed line => [("line", .number line)]
  | .moved previous cursor =>
    [("previous", .text (optionalLine previous)), ("line", .number cursor.line),
      ("column", .number cursor.column)]
  | .signalled signal => [("event", .text signal.name)]
  | .warned .. => []

def record (event : Event) : Record :=
  { level := event.level, target := event.target, message := event.message
    fields := event.fields }

end Event

def logged (chosen : Categories) (events : List Event) : List Event :=
  events.filter (Event.isLogged chosen)

structure Logged (α : Type) where
  value : α
  log : List Event

def Logged.map {α β : Type} (f : α → β) (result : Logged α) : Logged β :=
  { value := f result.value, log := result.log }

end Conditionals
