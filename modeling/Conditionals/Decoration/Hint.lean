import Conditionals.Text.Basic

/-!
# Hints

A hint is a label shown at the end of a directive's line. Its colour band follows from the
nesting level, and the bands repeat when the palette is used up.
-/

namespace Conditionals.Decoration

def bandCount : Nat := 10

def palette : List String :=
  ["blue", "green", "red", "orange", "purple", "cyan", "magenta", "brown", "lime", "pink"]

/-- The colour of a band. Bands past the palette start over. -/
def bandColor (band : Nat) : String :=
  have : band % bandCount < palette.length := Nat.mod_lt band (by decide)
  palette[band % bandCount]

structure Hint where
  line : Nat
  band : Nat
  label : Text
  deriving DecidableEq, Repr

namespace Hint

def rendered (hint : Hint) : String :=
  " <-- " ++ String.ofList hint.label

def color (hint : Hint) : String :=
  bandColor hint.band

end Hint
end Conditionals.Decoration
