import Conditionals.Fold.Block
import Conditionals.LineTable

/-!
# The folding scan

The scan reads lines one after the other and looks at the directive at the start of each. Its
trace holds what every directive did; the ranges, the diagnostics and the log are read off the
trace. `folding` reads all lines. `scan` asks a token before each line whether to go on, and gives
no ranges at all once the token says stop.
-/

namespace Conditionals.Fold

structure State where
  line : Nat := 0
  blocks : List Block := []
  deriving DecidableEq, Repr

def State.read (state : State) (text : Text) : State × Option Step :=
  match classify text with
  | none => ({ state with line := state.line + 1 }, none)
  | some directive =>
    let (effect, blocks) := meet state.line directive.kind state.blocks
    ({ line := state.line + 1, blocks },
      some { line := state.line, directive, effect, depth := blocks.length })

structure Trace where
  steps : List Step
  state : State
  deriving DecidableEq, Repr

def trace (state : State) : List Text → Trace
  | [] => { steps := [], state }
  | text :: rest =>
    let (next, step?) := state.read text
    let tail := trace next rest
    { tail with steps := step?.toList ++ tail.steps }

structure Folding where
  ranges : List LineRange
  diagnostics : List Diagnostic
  deriving DecidableEq, Repr

namespace Trace

def lastLine (trace : Trace) : Nat :=
  trace.state.line - 1

/-- The result when no further line follows. Blocks still open are closed at the last line, the
innermost first. -/
def folding (trace : Trace) : Folding :=
  { ranges := trace.steps.filterMap Step.range? ++ trace.state.blocks.map (Block.range trace.lastLine)
    diagnostics := trace.steps.filterMap Step.diagnostic? ++ trace.state.blocks.map Block.diagnostic }

def events (trace : Trace) : List Event :=
  trace.steps.flatMap Step.events ++ trace.state.blocks.flatMap (Block.events trace.lastLine) ++
    [.folded trace.folding.ranges.length]

end Trace

def folding (lines : List Text) : Folding :=
  (trace {} lines).folding

def foldingOfText (text : Text) : Folding :=
  folding (LineTable.ofText text).texts

def foldText (chosen : Categories) (text : Text) : Logged Folding :=
  let trace := trace {} (LineTable.ofText text).texts
  { value := trace.folding, log := logged chosen trace.events }

/-! ### Cancellation -/

/-- Something that can be asked whether to stop. It gives its `asked`-th answer next. -/
structure Token where
  answers : Nat → Bool
  asked : Nat := 0

namespace Token

def never : Token := { answers := fun _ => false }

def constant (answer : Bool) : Token := { answers := fun _ => answer }

def stopAfter (count : Nat) : Token := { answers := fun asked => count ≤ asked }

def poll (token : Token) : Bool × Token :=
  (token.answers token.asked, { token with asked := token.asked + 1 })

end Token

/-- A scan was cancelled before it read the given line. -/
structure Cancelled where
  line : Nat
  deriving DecidableEq, Repr

def Cancelled.message (cancelled : Cancelled) : String :=
  s!"folding scan cancelled before line {cancelled.line}"

structure Run where
  trace : Trace
  token : Token
  cancelled : Bool

def run (token : Token) (state : State) : List Text → Run
  | [] => { trace := { steps := [], state }, token, cancelled := false }
  | text :: rest =>
    let (stop, asked) := token.poll
    if stop then
      { trace := { steps := [], state }, token := asked, cancelled := true }
    else
      let (next, step?) := state.read text
      let tail := run asked next rest
      { tail with trace := { tail.trace with steps := step?.toList ++ tail.trace.steps } }

namespace Run

def result (run : Run) : Except Cancelled Folding :=
  if run.cancelled then .error { line := run.trace.state.line } else .ok run.trace.folding

def events (run : Run) : List Event :=
  if run.cancelled then
    run.trace.steps.flatMap Step.events ++ [.cancelled run.trace.state.line]
  else
    run.trace.events

end Run

structure Scan where
  result : Except Cancelled Folding
  log : List Event
  polls : Nat

def scan (chosen : Categories) (token : Token) (lines : List Text) : Scan :=
  let run := run token {} lines
  { result := run.result, log := logged chosen run.events, polls := run.token.asked - token.asked }

def scanText (chosen : Categories) (token : Token) (text : Text) : Scan :=
  scan chosen token (LineTable.ofText text).texts

end Conditionals.Fold
