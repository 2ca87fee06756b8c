import Conditionals.Decoration.Chain
import Conditionals.Directive.Occurrence
import Conditionals.LineTable

/-!
# The decoration scan

The scan visits every directive of a text, wherever it stands on its line, and passes over those
on comment lines. Its trace does not depend on any line of reference; the hints, the
diagnostics, the active path of a line and the log are read off the trace.
-/

namespace Conditionals.Decoration

/-- A directive with its line, and whether that line is a comment. -/
structure Located where
  line : Nat
  commented : Bool
  directive : Directive
  deriving DecidableEq, Repr

def locate (text : Text) : List Located :=
  let table := LineTable.ofText text
  (occurrences text).map fun occurrence =>
    let line := table.lineOf occurrence.offset
    { line, commented := (table.text? line).any isComment, directive := occurrence.directive }

def State.visit (state : State) (located : Located) : Step × State :=
  if located.commented then
    ({ line := located.line, act := .skipped, frames := state.frames }, state)
  else
    let (act, next) := state.meet located.line located.directive
    ({ line := located.line, act, frames := next.frames }, next)

structure Trace where
  steps : List Step
  state : State
  deriving DecidableEq, Repr

def trace (state : State) : List Located → Trace
  | [] => { steps := [], state }
  | located :: rest =>
    let (step, next) := state.visit located
    let tail := trace next rest
    { tail with steps := step :: tail.steps }

structure Decorations where
  /-- Hints in the order of their directives. -/
  emitted : List Hint
  path : ActivePath
  diagnostics : List Diagnostic
  deriving DecidableEq, Repr

namespace Decorations

def band (decorations : Decorations) (band : Nat) : List Hint :=
  decorations.emitted.filter fun hint => hint.band = band

def bands (decorations : Decorations) : List (List Hint) :=
  (List.range bandCount).map decorations.band

/-- All hints by line. On one line, those of a lower band come first. -/
def hints (decorations : Decorations) : List Hint :=
  decorations.bands.flatten.mergeSort fun first second => first.line ≤ second.line

def status (decorations : Decorations) : String :=
  decorations.path.status

end Decorations

namespace Trace

def pathAt (trace : Trace) (reference : Nat) : ActivePath :=
  trace.steps.foldl (Step.follow reference) {}

def decorations (trace : Trace) (reference : Nat) : Decorations :=
  { emitted := trace.steps.filterMap Step.hint?
    path := trace.pathAt reference
    diagnostics :=
      trace.steps.filterMap Step.diagnostic? ++ trace.state.frames.map Frame.diagnostic }

def events (trace : Trace) (reference : Nat) : List Event :=
  trace.steps.map Step.event ++
    trace.state.frames.map (fun frame => .warned .decorations frame.diagnostic) ++
    [.decorated (trace.pathAt reference)]

end Trace

def traceOf (text : Text) : Trace :=
  trace {} (locate text)

def decorate (text : Text) (reference : Nat) : Decorations :=
  (traceOf text).decorations reference

def scan (chosen : Categories) (text : Text) (reference : Nat) : Logged Decorations :=
  let trace := traceOf text
  { value := trace.decorations reference, log := logged chosen (trace.events reference) }

end Conditionals.Decoration
