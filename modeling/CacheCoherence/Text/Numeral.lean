/-!
# Numeral — reading natural numbers below a bound

A numeral is an optional plus sign and at least one digit of its radix; its value
must stay below a bound. Characters are taken from left to right, and the first
one that is wrong decides: a character that is no digit, or a digit that carries
the value to the bound.
-/

namespace CacheCoherence.Text

/-- What is wrong with a numeral. -/
inductive NumeralError where
  /-- There is nothing to read. -/
  | empty
  /-- A character is no digit, or there is only a sign. -/
  | invalidDigit
  /-- The value is not below the bound. -/
  | tooLarge
deriving DecidableEq, Repr

/-- The text shown for a wrong numeral. -/
def NumeralError.message : NumeralError → String
  | .empty => "cannot parse integer from empty string"
  | .invalidDigit => "invalid digit found in string"
  | .tooLarge => "number too large to fit in target type"

/-- The value of a digit, letters counting on from nine in either case. -/
def digitValue (c : Char) : Option Nat :=
  if '0' ≤ c ∧ c ≤ '9' then some (c.toNat - '0'.toNat)
  else if 'a' ≤ c ∧ c ≤ 'z' then some (c.toNat - 'a'.toNat + 10)
  else if 'A' ≤ c ∧ c ≤ 'Z' then some (c.toNat - 'A'.toNat + 10)
  else none

/-- The value of a digit of a given radix. -/
def digit? (radix : Nat) (c : Char) : Option Nat := (digitValue c).filter (· < radix)

/-- Reads on from a value that earlier digits gave. -/
def readDigits (radix bound : Nat) : Nat → List Char → Except NumeralError Nat
  | v, [] => .ok v
  | v, c :: rest =>
      match digit? radix c with
      | none => .error .invalidDigit
      | some d =>
          let v := v * radix + d
          if v < bound then readDigits radix bound v rest else .error .tooLarge

/-- Reads a numeral whose value must be below `bound`. -/
def readNat (radix bound : Nat) : List Char → Except NumeralError Nat
  | [] => .error .empty
  | ['+'] => .error .invalidDigit
  | '+' :: digits => readDigits radix bound 0 digits
  | digits => readDigits radix bound 0 digits

end CacheCoherence.Text
