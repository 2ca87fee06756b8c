import Conditionals.Condition
import Conditionals.Decoration.Hint
import Conditionals.Diagnostic
import Conditionals.Directive.Basic
import Conditionals.Log.Event

/-!
# Chains of branches

The directives from an opener to its closer form a chain. While a chain is open it has a frame on
a stack, the innermost first. A branch with a condition renames the frame, the last branch leaves
it alone, and the nesting level stays the one the chain was opened at. Beside the frames stand the
names seen in the open chains, the latest first; a closer collects those of its own chain into one
label.
-/

namespace Conditionals.Decoration

/-- An open chain: the latest directive that named it, and its nesting level. -/
structure Frame where
  line : Nat
  kind : Kind
  name : Text
  level : Nat
  deriving DecidableEq, Repr

structure Sibling where
  name : Text
  kind : Kind
  deriving DecidableEq, Repr

/-- Puts a name before a label. An empty label gives way to the name. -/
def prependName (name label : Text) : Text :=
  if label = [] then name else name ++ ' ' :: '&' :: ' ' :: label

/-- Collects the names of the innermost chain before `label`, and gives the names of the chains
around it. The name that an opener brought is the last one taken. -/
def collect (label : Text) : List Sibling → Text × List Sibling
  | [] => (label, [])
  | sibling :: earlier =>
    let label := prependName sibling.name label
    if sibling.kind.isOpener then (label, earlier) else collect label earlier

structure State where
  frames : List Frame := []
  siblings : List Sibling := []
  deriving DecidableEq, Repr

inductive Act where
  | skipped
  | opened (kind : Kind) (name : Text) (level : Nat)
  | branched (name : Text) (level : Nat)
  /-- It turns a chain to its last branch, labelled with the opposite of the frame's name. -/
  | inverted (label : Text) (level : Nat)
  | closed (label : Text) (frame : Frame)
  | unmatched (kind : Kind)
  deriving DecidableEq, Repr

namespace State

def openChain (state : State) (line : Nat) (kind : Kind) (condition : Text) : Act × State :=
  let name := Condition.openName kind (Condition.name condition)
  let level := state.frames.length
  (.opened kind name level,
    { frames := { line, kind, name, level } :: state.frames
      siblings := { name, kind } :: state.siblings })

def branch (state : State) (line : Nat) (condition : Text) : Act × State :=
  match state.frames with
  | [] => (.unmatched .elseIf, state)
  | frame :: outer =>
    let name := Condition.name condition
    (.branched name frame.level,
      { frames := { frame with line, kind := .elseIf, name } :: outer
        siblings := { name, kind := .elseIf } :: state.siblings })

def invert (state : State) : Act × State :=
  match state.frames with
  | [] => (.unmatched .otherwise, state)
  | frame :: _ =>
    let label := Condition.negate frame.name
    (.inverted label frame.level,
      { state with siblings := { name := label, kind := .otherwise } :: state.siblings })

def closeChain (state : State) : Act × State :=
  match state.frames with
  | [] => (.unmatched .endIf, state)
  | frame :: outer =>
    let (label, siblings) := collect [] state.siblings
    (.closed label frame, { frames := outer, siblings })

def meet (state : State) (line : Nat) (directive : Directive) : Act × State :=
  match directive.kind with
  | .ifTrue | .ifDefined | .ifUndefined =>
    state.openChain line directive.kind directive.condition
  | .elseIf => state.branch line directive.condition
  | .otherwise => state.invert
  | .endIf => state.closeChain

end State

structure Step where
  line : Nat
  act : Act
  frames : List Frame
  deriving DecidableEq, Repr

namespace Step

def path (step : Step) : List Text :=
  (step.frames.map Frame.name).reverse

def hint? (step : Step) : Option Hint :=
  match step.act with
  | .opened _ label level | .branched label level | .inverted label level
  | .closed label { level, .. } =>
    some { line := step.line, band := level % bandCount, label }
  | .skipped | .unmatched _ => none

def diagnostic? (step : Step) : Option Diagnostic :=
  match step.act with
  | .unmatched kind => some { fault := .unmatched, line := step.line, kind }
  | _ => none

def event (step : Step) : Event :=
  match step.act with
  | .skipped => .skipped step.line
  | .opened kind name _ => .opened step.line kind name step.path
  | .branched name _ => .branched step.line name step.path
  | .inverted label _ => .inverted step.line label step.path
  | .closed label frame => .closed step.line label frame.name
  | .unmatched kind => .warned .decorations { fault := .unmatched, line := step.line, kind }

/-- Follows a step on the path of the line `reference`: what stands at or above the line is entered, and
what is closed above it is left. -/
def follow (reference : Nat) (path : ActivePath) (step : Step) : ActivePath :=
  match step.act with
  | .opened _ name _ => if step.line ≤ reference then path.push name else path
  | .branched label _ | .inverted label _ =>
    if step.line ≤ reference then path.replaceLast label else path
  | .closed .. => if step.line < reference then path.pop else path
  | .skipped | .unmatched _ => path

end Step

def Frame.diagnostic (frame : Frame) : Diagnostic :=
  { fault := .unterminated, line := frame.line, kind := frame.kind }

end Conditionals.Decoration
