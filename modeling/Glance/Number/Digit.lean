/-!
# Digits

The values of digits in the usual bases, letters of either case standing for the digits from ten on.
-/

namespace Glance.Number

/-- The value of a digit in base 16 or less. -/
def digitValue? (base : Nat) (c : Char) : Option Nat :=
  let value :=
    if c.isDigit then c.toNat - '0'.toNat
    else if 'a' ≤ c ∧ c ≤ 'f' then c.toNat - 'a'.toNat + 10
    else if 'A' ≤ c ∧ c ≤ 'F' then c.toNat - 'A'.toNat + 10
    else base
  if value < base then some value else none

end Glance.Number
