import Conditionals.Text.Basic

/-!
# The active path

The active path of a line names the conditions around it, the outermost first.
-/

namespace Conditionals

def arrowJoin (names : List Text) : String :=
  "->".intercalate (names.map String.ofList)

/-- The names of the conditions around a line, outermost first. -/
structure ActivePath where
  names : List Text := []
  deriving DecidableEq, Repr

namespace ActivePath

def push (path : ActivePath) (name : Text) : ActivePath :=
  { names := path.names ++ [name] }

/-- Turns the innermost block to another branch. An empty path stays empty. -/
def replaceLast (path : ActivePath) (name : Text) : ActivePath :=
  if path.names = [] then path else { names := path.names.dropLast ++ [name] }

def pop (path : ActivePath) : ActivePath :=
  { names := path.names.dropLast }

def last? (path : ActivePath) : Option Text :=
  path.names.getLast?

def display (path : ActivePath) : String :=
  if path.names = [] then "<None>" else arrowJoin path.names

def status (path : ActivePath) : String :=
  "IFDEF Path: " ++ path.display

end ActivePath
end Conditionals
