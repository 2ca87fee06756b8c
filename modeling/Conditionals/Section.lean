import Conditionals.Directive.Occurrence
import Conditionals.LineRange

/-!
# Sections

The section of a line runs from the nearest line at or above it that opens a block or turns one to
another condition, to the first line from there on that closes a block. Nesting is not balanced:
the closer may belong to an inner block.
-/

namespace Conditionals

def Kind.startsSection (kind : Kind) : Bool :=
  kind.isOpener || kind = .elseIf

def hasDirective (wanted : Kind → Bool) (line : Text) : Bool :=
  (occurrences line).any fun occurrence => wanted occurrence.directive.kind

/-- The section of a line. A line past the end counts as the last one. -/
def sectionAt (lines : List Text) (line : Nat) : Option LineRange := do
  let above := lines.take (line + 1)
  let back ← above.reverse.findIdx? (hasDirective Kind.startsSection)
  let first := above.length - 1 - back
  let ahead ← (lines.drop first).findIdx? (hasDirective fun kind => kind = .endIf)
  return { first, last := first + ahead }

end Conditionals
