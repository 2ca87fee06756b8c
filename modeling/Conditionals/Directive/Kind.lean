/-!
# Kinds of directives

A conditional block opens with an opener, may turn to other branches, and ends with a closer. The
kind of a directive fixes which of these roles it plays.
-/

namespace Conditionals

inductive Role where
  | opener
  | branch
  | closer
  deriving DecidableEq, Repr

inductive Kind where
  | ifTrue
  | ifDefined
  | ifUndefined
  /-- `#elif` and `#elseif` -/
  | elseIf
  | otherwise
  | endIf
  deriving DecidableEq, Repr

namespace Kind

def all : List Kind :=
  [.ifTrue, .ifDefined, .ifUndefined, .elseIf, .otherwise, .endIf]

def role : Kind → Role
  | .ifTrue | .ifDefined | .ifUndefined => .opener
  | .elseIf | .otherwise => .branch
  | .endIf => .closer

def isOpener (kind : Kind) : Bool :=
  kind.role = .opener

def isBranch (kind : Kind) : Bool :=
  kind.role = .branch

def name : Kind → String
  | .ifTrue => "if"
  | .ifDefined => "ifdef"
  | .ifUndefined => "ifndef"
  | .elseIf => "elif"
  | .otherwise => "else"
  | .endIf => "endif"

def display (kind : Kind) : String :=
  "#" ++ kind.name

/-- The word for a kind in documents. It differs from the name only for `elseIf`. -/
def tag : Kind → String
  | .elseIf => "elseif"
  | kind => kind.name

def ofTag? (tag : String) : Option Kind :=
  all.find? fun kind => kind.tag = tag

end Kind
end Conditionals
