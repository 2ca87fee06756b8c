/-!
# Cursors

The position of the caret in an editor, and the signals an editor sends.
-/

namespace Conditionals

structure Cursor where
  line : Nat
  column : Nat := 0
  deriving DecidableEq, Repr

inductive Signal where
  | bufferChanged
  | activeViewSwitched
  | bufferOpened
  | selectionMoved
  deriving DecidableEq, Repr

namespace Signal

def all : List Signal :=
  [.bufferChanged, .activeViewSwitched, .bufferOpened, .selectionMoved]

def name : Signal → String
  | .bufferChanged => "BufferChanged"
  | .activeViewSwitched => "ActiveViewSwitched"
  | .bufferOpened => "BufferOpened"
  | .selectionMoved => "SelectionMoved"

def ofName? (name : String) : Option Signal :=
  all.find? fun signal => signal.name = name

end Signal
end Conditionals
