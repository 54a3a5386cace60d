/-!
# Numbers in text

A 64-bit natural number is written in ASCII digits, with an optional plus sign in front.
-/

namespace Propositional.Text

/-- The number that the digits write. -/
def ofDigits (cs : List Char) : Nat := cs.foldl (fun n c => 10 * n + (c.toNat - '0'.toNat)) 0

/-- What stands behind a plus sign, if there is one. -/
def unsigned : List Char → List Char
  | '+' :: cs => cs
  | cs => cs

/-- The number that a text writes, if it is one and fits. -/
def word64? (s : String) : Option Nat :=
  let digits := unsigned s.toList
  if digits ≠ [] ∧ digits.all Char.isDigit ∧ ofDigits digits < UInt64.size then
    some (ofDigits digits)
  else none

end Propositional.Text
