import Conditionals.Directive.Basic

/-!
# Occurrences of directives

A directive may stand anywhere on a line. `occurrences` finds the first one in every stretch of
text without carriage returns and line feeds. Its condition is the rest of the stretch, so another
`#` there belongs to the condition and is not found again.
-/

namespace Conditionals

/-- A directive, and the offset of its `#`. -/
structure Occurrence where
  offset : Nat
  directive : Directive
  deriving DecidableEq, Repr

def isBreak (c : Char) : Bool :=
  c = '\r' || c = '\n'

namespace Occurrence

/-- The occurrences in a text that starts at `offset`. No directive has been found yet in the
current stretch exactly when `seeking` holds. -/
def findFrom (offset : Nat) (seeking : Bool) : Text → List Occurrence
  | [] => []
  | c :: text =>
    let next := offset + c.utf8Size
    if isBreak c then
      findFrom next true text
    else if seeking && c = '#' then
      match Directive.read? text with
      | none => findFrom next true text
      | some directive =>
        let condition := directive.condition.takeWhile fun c => !isBreak c
        { offset, directive := { directive with condition } } :: findFrom next false text
    else
      findFrom next seeking text

end Occurrence

def occurrences (text : Text) : List Occurrence :=
  Occurrence.findFrom 0 true text

end Conditionals
