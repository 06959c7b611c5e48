import Glance.Number.Binary

/-!
# Decimal text of numbers

Two ways to write a number in decimal. With fixed places it is rounded to that many places, a tie to
the even digit. In shortest form it has the fewest digits that read back as the same number, and of
those the nearest to it; where the point goes is the caller's choice, here that of stored data:
plain notation from `1e-5` up to below `1e16`, and at least one digit behind the point.
-/

namespace Glance.Number

/-- Decimal digits of a number. -/
def digits (n : Nat) : List Char :=
  Nat.toDigits 10 n

/-- At least `width` digits, filled up with zeros in front. -/
def padded (width n : Nat) : List Char :=
  let ds := digits n
  List.replicate (width - ds.length) '0' ++ ds

/-! ## Fixed places -/

/-- `num / den` with `places` digits behind the point. -/
def fixed (places num den : Nat) : List Char :=
  let n := roundEven (num * Nat.pow 10 places) den
  if places = 0 then digits n
  else digits (n / Nat.pow 10 places) ++ '.' :: padded places (n % Nat.pow 10 places)

/-- A number with `places` digits behind the point. -/
def Extended.fixed (places : Nat) : Extended → List Char
  | .nan => "NaN".toList
  | .infinite negative => (if negative then "-inf" else "inf").toList
  | .ratio negative num den => (if negative then ['-'] else []) ++ Number.fixed places num den

/-! ## Shortest form -/

/-- Significand `d` and exponent `e` of the number `d · 10 ^ e`. -/
structure Scientific where
  significand : Nat
  exponent : Int
  deriving DecidableEq, Repr

/-- The value of a decimal, as a ratio. -/
def Scientific.exact (negative : Bool) (s : Scientific) : Extended :=
  .ratio negative (s.significand * Nat.pow 10 s.exponent.toNat) (Nat.pow 10 (-s.exponent).toNat)

/-- The largest `k` with `10 ^ k ≤ num / den`. -/
def log10Ratio (num den : Nat) : Int :=
  let k : Int := (digits num).length - (digits den).length
  if den * Nat.pow 10 k.toNat ≤ num * Nat.pow 10 (-k).toNat then k else k - 1

/-- A multiple of `10 ^ e` next to `num / den` that reads back as `bits`. Of the two neighbours the
nearer wins, and from halfway the even one. -/
def neighbor? (f : Layout) (bits num den : Nat) (e : Int) : Option Scientific :=
  let n := num * Nat.pow 10 (-e).toNat
  let d := den * Nat.pow 10 e.toNat
  let near := roundEven n d
  let far := if near = n / d then near + 1 else n / d
  let back (m : Nat) : Bool :=
    match Scientific.exact false ⟨m, e⟩ with
    | .ratio _ num den => f.nearest num den == bits
    | _ => false
  if back near then some ⟨near, e⟩ else if back far then some ⟨far, e⟩ else none

/-- The shortest decimal with at most `fuel` further digits below the exponent `e`. -/
def shortestFrom (f : Layout) (bits num den : Nat) : (fuel : Nat) → (e : Int) → Scientific
  | 0, e => ⟨roundEven (num * Nat.pow 10 (-e).toNat) (den * Nat.pow 10 e.toNat), e⟩
  | fuel + 1, e =>
    match neighbor? f bits num den e with
    | some s => s
    | none => shortestFrom f bits num den fuel (e - 1)

/-- The shortest decimal that reads back as the finite pattern `bits` without sign, whose value is
`num / den`. Seventeen digits are enough for both formats. -/
def shortest (f : Layout) (bits num den : Nat) : Scientific :=
  if num = 0 then ⟨0, 0⟩ else shortestFrom f bits num den 16 (log10Ratio num den)

/-- Removes zeros at the end of the digits. -/
def Scientific.trim (s : Scientific) : (fuel : Nat) → Scientific
  | 0 => s
  | fuel + 1 =>
    if s.significand % 10 = 0 ∧ s.significand ≠ 0 then
      Scientific.trim ⟨s.significand / 10, s.exponent + 1⟩ fuel
    else s

/-- A decimal in text, with a point always and an exponent outside plain notation. -/
def Scientific.write (s : Scientific) : List Char :=
  let s := s.trim (digits s.significand).length
  let ds := digits s.significand
  let point : Int := ds.length + s.exponent
  if s.significand = 0 then "0.0".toList
  else if -4 ≤ point ∧ point ≤ 16 then
    if point ≤ 0 then '0' :: '.' :: (List.replicate (-point).toNat '0' ++ ds)
    else if ds.length ≤ point.toNat then
      ds ++ List.replicate (point.toNat - ds.length) '0' ++ ['.', '0']
    else ds.take point.toNat ++ '.' :: ds.drop point.toNat
  else
    let tail := ds.drop 1
    let e := point - 1
    ds.take 1 ++ (if tail.isEmpty then [] else '.' :: tail) ++
      'e' :: (if e < 0 then '-' else '+') :: digits e.natAbs

/-- A finite number of a format in shortest form. -/
def writeShortest (f : Layout) (bits : Nat) : List Char :=
  match f.decode bits with
  | .ratio negative num den =>
    (if negative then ['-'] else []) ++ (shortest f (bits % f.sign) num den).write
  | other => other.fixed 0

def Double.shortest (x : Double) : List Char :=
  writeShortest .double x.bits.toNat

def Single.shortest (x : Single) : List Char :=
  writeShortest .single x.bits.toNat

end Glance.Number
