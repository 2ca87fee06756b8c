import Conditionals.Cursor.Decorator

/-!
# Replaying caret moves

A replay opens a text at the first caret position, moves through the others, and tells what the
screen shows after each. Its log is that of the decorator; what a screen notes when it is released
is left out.
-/

namespace Conditionals.Replay

structure Step where
  cursor : Cursor
  scanned : Bool
  status : String
  hints : Nat
  deriving DecidableEq, Repr

def occasions (text : Text) : List Cursor → List Occasion
  | [] => []
  | first :: others =>
    { signal := .bufferOpened, text, cursor := first } ::
      others.map fun cursor => { signal := .selectionMoved, text, cursor }

def watch (screen : Screen) : List (Cursor × Response) → List Step
  | [] => []
  | (cursor, response) :: rest =>
    let screen := screen.applyAll response.calls
    { cursor, scanned := response.scanned, status := screen.status, hints := screen.shown } ::
      watch screen rest

def run (chosen : Categories) (text : Text) (cursors : List Cursor) : Logged (List Step) :=
  ((Decorator.new chosen).session (occasions text cursors)).map fun responses =>
    watch (({} : Screen).applyAll Decorator.created) (cursors.zip responses)

end Conditionals.Replay
