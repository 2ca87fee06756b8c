import Conditionals.Cursor.Basic
import Conditionals.Decoration.Scan

/-!
# Following the caret

A tracker remembers the line the caret was on and scans again only when the caret comes to another
line. The column never matters.
-/

namespace Conditionals

open Decoration (Decorations)

inductive Refresh where
  | scanned (decorations : Decorations)
  | suppressed
  deriving DecidableEq, Repr

structure Tracker where
  chosen : Categories
  previous : Option Nat := none
  deriving DecidableEq, Repr

def Tracker.refresh (tracker : Tracker) (text : Text) (cursor : Cursor) :
    Logged (Refresh × Tracker) :=
  if tracker.previous = some cursor.line then
    { value := (.suppressed, tracker)
      log := logged tracker.chosen [.stayed cursor.line] }
  else
    let scan := Decoration.scan tracker.chosen text cursor.line
    { value := (.scanned scan.value, { tracker with previous := some cursor.line })
      log := logged tracker.chosen [.moved tracker.previous cursor] ++ scan.log }

end Conditionals
