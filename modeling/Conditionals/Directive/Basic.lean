import Conditionals.Directive.Keyword
import Conditionals.Text.Blank

/-!
# Directives

A directive is a keyword after a `#`, with the condition text that follows the keyword. `classify`
looks at one line and accepts a directive only at its first non-blank character.
-/

namespace Conditionals

structure Directive where
  keyword : Keyword
  condition : Text
  deriving DecidableEq, Repr

namespace Directive

def kind (directive : Directive) : Kind :=
  directive.keyword.kind

def read? (text : Text) : Option Directive :=
  (Keyword.read? text).map fun (keyword, condition) => { keyword, condition }

end Directive

/-- The directive at the first non-blank character of a line. Its condition reaches to the last
non-blank character. -/
def classify (line : Text) : Option Directive :=
  match Text.trim line with
  | '#' :: text => Directive.read? text
  | _ => none

/-- Whether a line is a comment: its first non-blank characters are `//` or `/*`. -/
def isComment (line : Text) : Bool :=
  let text := Text.trim line
  Text.startsWith ['/', '/'] text || Text.startsWith ['/', '*'] text

end Conditionals
