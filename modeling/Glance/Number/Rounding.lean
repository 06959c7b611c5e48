/-!
# Rounding a quotient

The one place where a quotient becomes a whole number: to the nearest, and from halfway to the even
neighbour. Binary formats and printed decimals both round by it.
-/

namespace Glance.Number

/-- `num / den` rounded to the nearest whole number, a tie to the even one. -/
def roundEven (num den : Nat) : Nat :=
  let low := num / den
  let twice := 2 * (num % den)
  if twice < den then low
  else if den < twice then low + 1
  else low + low % 2

theorem roundEven_mul_right (n : Nat) {den : Nat} (pos : 0 < den) : roundEven (n * den) den = n := by
  simp [roundEven, Nat.mul_div_cancel _ pos, pos]

end Glance.Number
