import Conditionals.Directive.Kind

/-!
# Diagnostics

Malformed nesting never stops a scan. It is reported beside the result.
-/

namespace Conditionals

inductive Fault where
  /-- A branch or a closer met with no block open. It is ignored. -/
  | unmatched
  /-- A block that is still open at the end. It is closed at the last line. -/
  | unterminated
  deriving DecidableEq, Repr

def Fault.tag : Fault → String
  | .unmatched => "unmatched"
  | .unterminated => "unterminated"

structure Diagnostic where
  fault : Fault
  line : Nat
  kind : Kind
  deriving DecidableEq, Repr

def Diagnostic.message (diagnostic : Diagnostic) : String :=
  let place := s!"line {diagnostic.line}: {diagnostic.kind.display}"
  match diagnostic.fault with
  | .unmatched => place ++ " found without matching opening directive"
  | .unterminated => place ++ " is never closed"

end Conditionals
