import Conditionals.Directive.Kind
import Conditionals.Text.Basic

/-!
# Keywords

A keyword is a spelling that a directive starts with. Spellings are tried in a fixed order in
which a longer spelling comes before its own beginnings, so the longest one that fits is read.
Nothing is asked of the character after a keyword: `iffy` reads as `if` followed by `fy`.
-/

namespace Conditionals

inductive Keyword where
  | ifdef
  | ifndef
  | plainIf
  | elseif
  | elif
  | plainElse
  | endif
  deriving DecidableEq, Repr

namespace Keyword

/-- Every keyword, in the order in which they are tried. -/
def all : List Keyword :=
  [.ifdef, .ifndef, .plainIf, .elseif, .elif, .plainElse, .endif]

def spelling : Keyword → Text
  | .ifdef => ['i', 'f', 'd', 'e', 'f']
  | .ifndef => ['i', 'f', 'n', 'd', 'e', 'f']
  | .plainIf => ['i', 'f']
  | .elseif => ['e', 'l', 's', 'e', 'i', 'f']
  | .elif => ['e', 'l', 'i', 'f']
  | .plainElse => ['e', 'l', 's', 'e']
  | .endif => ['e', 'n', 'd', 'i', 'f']

def kind : Keyword → Kind
  | .ifdef => .ifDefined
  | .ifndef => .ifUndefined
  | .plainIf => .ifTrue
  | .elseif | .elif => .elseIf
  | .plainElse => .otherwise
  | .endif => .endIf

def read? (text : Text) : Option (Keyword × Text) :=
  all.findSome? fun keyword => (Text.after? keyword.spelling text).map (keyword, ·)

theorem eq_append_of_read? {text rest : Text} {keyword : Keyword}
    (read : read? text = some (keyword, rest)) : text = keyword.spelling ++ rest := by
  obtain ⟨candidate, _, found⟩ := List.exists_of_findSome?_eq_some read
  obtain ⟨tail, split, same⟩ := Option.map_eq_some_iff.1 found
  cases same
  exact Text.after?_eq_some_iff.1 split

end Keyword
end Conditionals
