import Conditionals.Text.Basic

/-!
# Decimal numbers

Line and column numbers are written in decimal. A written number may carry one leading plus sign
and leading zeros, and its value has to fit a 64-bit word.
-/

namespace Conditionals.Text

def decimalBound : Nat := 0x10000000000000000

def digitsValue (digits : Text) : Nat :=
  digits.foldl (fun value digit => 10 * value + (digit.toNat - '0'.toNat)) 0

def unsigned : Text → Text
  | '+' :: digits => digits
  | digits => digits

/-- Reads a decimal number: at least one digit, nothing but digits, and a value below the bound. -/
def readDecimal? (text : Text) : Option Nat :=
  let digits := unsigned text
  if digits ≠ [] ∧ digits.all Char.isDigit ∧ digitsValue digits < decimalBound then
    some (digitsValue digits)
  else
    none

def ofNat (n : Nat) : Text :=
  Nat.toDigits 10 n

theorem not_mem_ofNat {c : Char} (other : c.isDigit = false) (n : Nat) : c ∉ ofNat n := by
  intro member
  rw [Nat.isDigit_of_mem_toDigits (by decide) (by decide) member] at other
  cases other

end Conditionals.Text
