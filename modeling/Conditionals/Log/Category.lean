import Conditionals.Text.Blank

/-!
# Log categories

Events belong to a category, and only the events of chosen categories are logged. A choice is
written as a list of words separated by commas.
-/

namespace Conditionals

inductive Category where
  | folding
  | decorations
  deriving DecidableEq, Repr

structure Categories where
  folding : Bool
  decorations : Bool
  deriving DecidableEq, Repr

namespace Categories

def quiet : Categories := { folding := false, decorations := false }

def all : Categories := { folding := true, decorations := true }

/-- The choice when nothing is said: decorations only. -/
def standard : Categories := { folding := false, decorations := true }

def union (first second : Categories) : Categories :=
  { folding := first.folding || second.folding
    decorations := first.decorations || second.decorations }

def has (chosen : Categories) : Category → Bool
  | .folding => chosen.folding
  | .decorations => chosen.decorations

def bits (chosen : Categories) : Nat :=
  chosen.folding.toNat + 2 * chosen.decorations.toNat

def ofBits (bits : Nat) : Categories :=
  { folding := bits.testBit 0, decorations := bits.testBit 1 }

def ofWord? (word : Text) : Option Categories :=
  if word = ['a', 'l', 'l'] then some all
  else if word = ['n', 'o', 'n', 'e'] then some quiet
  else if word = ['f', 'o', 'l', 'd', 'i', 'n', 'g'] then some { quiet with folding := true }
  else if word = ['d', 'e', 'c', 'o', 'r', 'a', 't', 'i', 'o', 'n', 's'] then
    some { quiet with decorations := true }
  else none

/-- The words of a list: trimmed, in lower case, and without the empty ones. -/
def words (list : Text) : List Text :=
  (((list.splitOn ',').map Text.trim).filter fun word => word ≠ []).map fun word =>
    word.map Char.toLower

structure Unknown where
  word : Text
  deriving DecidableEq, Repr

def Unknown.message (unknown : Unknown) : String :=
  s!"unknown debug category '{String.ofList unknown.word}' " ++
    "(expected folding, decorations, all or none)"

/-- The union of what the words stand for. The first unknown word is reported. -/
def ofWords : List Text → Except Unknown Categories
  | [] => .ok quiet
  | word :: rest =>
    match ofWord? word with
    | some chosen => (ofWords rest).map chosen.union
    | none => .error { word }

def parse (list : Text) : Except Unknown Categories :=
  ofWords (words list)

end Categories
end Conditionals
