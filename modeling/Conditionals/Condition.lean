import Conditionals.Directive.Kind
import Conditionals.Text.Blank

/-!
# Names of conditions

The name of a condition is what remains of its text after a few simplifications, repeated until
none of them changes anything. Every simplification only takes characters away, so a change makes
the text shorter and the repetition ends.
-/

namespace Conditionals.Condition

def beforeComment : Text → Text
  | [] => []
  | c :: text => if c = '/' ∧ text.head? = some '/' then [] else c :: beforeComment text

/-- `defined(X)` becomes `X`. What follows the first closing parenthesis is kept. -/
def unwrapDefined (text : Text) : Text :=
  match Text.after? ['d', 'e', 'f', 'i', 'n', 'e', 'd', '('] text with
  | some inner => if ')' ∈ inner then inner.erase ')' else text
  | none => text

def unwrapTest : Text → Text
  | '!' :: text => '!' :: unwrapDefined text
  | text => unwrapDefined text

/-- `!(X)` becomes `!X`. The closing parenthesis has to be the last character. -/
def unwrapNegation (text : Text) : Text :=
  match Text.after? ['!', '('] text with
  | some inner => if inner.getLast? = some ')' then '!' :: inner.dropLast else text
  | none => text

/-- Removes pairs of `!` from left to right. What a removal brings together is not looked at
again. -/
def dropDoubleNegations : Text → Text
  | '!' :: '!' :: text => dropDoubleNegations text
  | c :: text => c :: dropDoubleNegations text
  | [] => []

def simplify (text : Text) : Text :=
  dropDoubleNegations (unwrapNegation (unwrapTest (Text.trim (beforeComment text))))

/-! ### A round only takes characters away -/

theorem beforeComment_sublist (text : Text) : (beforeComment text).Sublist text := by
  induction text with
  | nil => exact .slnil
  | cons c text ih =>
    rw [beforeComment]
    split
    · exact List.nil_sublist _
    · exact ih.cons_cons c

theorem unwrapDefined_sublist (text : Text) : (unwrapDefined text).Sublist text := by
  unfold unwrapDefined
  split
  · rename_i inner split
    rw [Text.after?_eq_some_iff] at split
    split
    · rw [split]
      exact List.erase_sublist.trans (List.sublist_append_right _ _)
    · exact .refl text
  · exact .refl text

theorem unwrapTest_sublist (text : Text) : (unwrapTest text).Sublist text := by
  unfold unwrapTest
  split
  · exact (unwrapDefined_sublist _).cons_cons '!'
  · exact unwrapDefined_sublist text

theorem unwrapNegation_sublist (text : Text) : (unwrapNegation text).Sublist text := by
  unfold unwrapNegation
  split
  · rename_i inner split
    rw [Text.after?_eq_some_iff] at split
    split
    · rw [split]
      exact ((List.dropLast_sublist inner).cons '(').cons_cons '!'
    · exact .refl text
  · exact .refl text

theorem dropDoubleNegations_sublist (text : Text) :
    (dropDoubleNegations text).Sublist text := by
  fun_induction dropDoubleNegations text with
  | case1 text ih => exact (ih.cons '!').cons '!'
  | case2 c text _ ih => exact ih.cons_cons c
  | case3 => exact .slnil

theorem simplify_sublist (text : Text) : (simplify text).Sublist text :=
  (dropDoubleNegations_sublist _).trans <| (unwrapNegation_sublist _).trans <|
    (unwrapTest_sublist _).trans <| (Text.trim_sublist _).trans (beforeComment_sublist text)

theorem length_simplify_lt {text : Text} (changed : simplify text ≠ text) :
    (simplify text).length < text.length :=
  Nat.lt_of_le_of_ne (simplify_sublist text).length_le fun same =>
    changed ((simplify_sublist text).eq_of_length same)

def name (text : Text) : Text :=
  if simplify text = text then text else name (simplify text)
termination_by text.length
decreasing_by exact length_simplify_lt ‹_›

/-- The name shown for an opener. It has exactly one leading `!` when the directive asks for an
undefined name or when the condition is negated already. -/
def openName (kind : Kind) (name : Text) : Text :=
  match name with
  | '!' :: _ => name
  | _ => if kind = .ifUndefined then '!' :: name else name

def negate : Text → Text
  | '!' :: name => name
  | name => '!' :: name

end Conditionals.Condition
