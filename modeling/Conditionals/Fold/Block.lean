import Conditionals.Diagnostic
import Conditionals.Directive.Basic
import Conditionals.LineRange
import Conditionals.Log.Event

/-!
# Blocks being folded

Every branch of a conditional block folds on its own. The branches that have not ended yet form a
stack, the innermost first, and each directive opens a branch, completes one, or finds none.
-/

namespace Conditionals.Fold

/-- A branch that has not ended yet: the line and the kind of its directive. -/
structure Block where
  line : Nat
  kind : Kind
  deriving DecidableEq, Repr

inductive Effect where
  | opened
  | completed (range : LineRange)
  | unmatched
  deriving DecidableEq, Repr

/-- Meets a directive on a line. A branch ends the innermost block on the line above and starts
another in its place; a closer ends it on its own line. -/
def meet (line : Nat) (kind : Kind) (blocks : List Block) : Effect × List Block :=
  match kind.role, blocks with
  | .opener, _ => (.opened, { line, kind } :: blocks)
  | .branch, block :: outer =>
    (.completed { first := block.line, last := line - 1 }, { line, kind } :: outer)
  | .closer, block :: outer => (.completed { first := block.line, last := line }, outer)
  | _, [] => (.unmatched, [])

structure Step where
  line : Nat
  directive : Directive
  effect : Effect
  depth : Nat
  deriving DecidableEq, Repr

namespace Step

def range? (step : Step) : Option LineRange :=
  match step.effect with
  | .completed range => some range
  | _ => none

def diagnostic? (step : Step) : Option Diagnostic :=
  match step.effect with
  | .unmatched => some { fault := .unmatched, line := step.line, kind := step.directive.kind }
  | _ => none

def events (step : Step) : List Event :=
  .directive step.line step.directive.keyword ::
    match step.effect with
    | .opened => [.depth step.depth]
    | .completed range => [.range range, .depth step.depth]
    | .unmatched =>
      [.warned .folding
        { fault := .unmatched, line := step.line, kind := step.directive.kind }]

end Step

namespace Block

def range (last : Nat) (block : Block) : LineRange :=
  { first := block.line, last }

def diagnostic (block : Block) : Diagnostic :=
  { fault := .unterminated, line := block.line, kind := block.kind }

def events (last : Nat) (block : Block) : List Event :=
  [.warned .folding block.diagnostic, .range (block.range last)]

end Block
end Conditionals.Fold
