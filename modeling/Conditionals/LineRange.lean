/-!
# Line ranges

A range of lines names its first and its last line.
-/

namespace Conditionals

/-- The lines from `first` to `last`, both included. -/
structure LineRange where
  first : Nat
  last : Nat
  deriving DecidableEq, Repr

namespace LineRange

def contains (outer inner : LineRange) : Bool :=
  outer.first ≤ inner.first && inner.last ≤ outer.last

def display (range : LineRange) : String :=
  s!"{range.first}..={range.last}"

end LineRange
end Conditionals
