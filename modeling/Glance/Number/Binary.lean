import Glance.Number.Rounding

/-!
# Binary floating point

Numbers of a binary interchange format, kept as their bit patterns. Every operation is exact
arithmetic on ratios followed by one rounding to the nearest number of the format, ties to even, so
it is determined by the format's two field widths. Order needs no arithmetic: patterns without their
sign are ordered as the sizes they stand for.
-/

namespace Glance.Number

/-- The field widths of a format. -/
structure Layout where
  fraction : Nat
  exponent : Nat
  deriving DecidableEq, Repr

/-- What a bit pattern stands for. -/
inductive Extended where
  | nan
  | infinite (negative : Bool)
  /-- A ratio with its sign; zero has one too. -/
  | ratio (negative : Bool) (num den : Nat)
  deriving DecidableEq, Repr

namespace Layout

/-- 32 bits, 24 of them significant. -/
def single : Layout := ⟨23, 8⟩

/-- 64 bits, 53 of them significant. -/
def double : Layout := ⟨52, 11⟩

/-- The exponent of the last place of the smallest numbers. -/
def bottom (f : Layout) : Int :=
  2 - (Nat.pow 2 (f.exponent - 1) : Nat) - f.fraction

/-- The pattern of infinity. -/
def top (f : Layout) : Nat :=
  (Nat.pow 2 f.exponent - 1) * Nat.pow 2 f.fraction

/-- The sign bit. -/
def sign (f : Layout) : Nat :=
  Nat.pow 2 (f.exponent + f.fraction)

/-! ## Reading a pattern -/

/-- The significand of a finite pattern without sign, in units of its last place. -/
def significand (f : Layout) (size : Nat) : Nat :=
  if size < Nat.pow 2 f.fraction then size else Nat.pow 2 f.fraction + size % Nat.pow 2 f.fraction

/-- The exponent of the last place of a finite pattern without sign, counted from the bottom. -/
def place (f : Layout) (size : Nat) : Nat :=
  size / Nat.pow 2 f.fraction - 1

/-- `m · 2 ^ e` as a ratio. -/
def scaled (negative : Bool) (m : Nat) (e : Int) : Extended :=
  if 0 ≤ e then .ratio negative (m * Nat.pow 2 e.toNat) 1 else .ratio negative m (Nat.pow 2 (-e).toNat)

def decode (f : Layout) (bits : Nat) : Extended :=
  let negative := f.sign ≤ bits
  let size := bits % f.sign
  if f.top < size then .nan
  else if size = f.top then .infinite negative
  else scaled negative (f.significand size) (f.bottom + f.place size)

/-! ## Rounding to a pattern -/

/-- The largest `k` with `2 ^ k ≤ num / den`. -/
def log2Ratio (num den : Nat) : Int :=
  let k : Int := num.log2 - den.log2
  if den * Nat.pow 2 k.toNat ≤ num * Nat.pow 2 (-k).toNat then k else k - 1

/-- The exponent of the last place that the ratio is rounded to. -/
def target (f : Layout) (num den : Nat) : Int :=
  max (log2Ratio num den - f.fraction) f.bottom

/-- The pattern without sign that is nearest to `num / den`. Counting places from the bottom and
adding the rounded significand lets a carry run into the exponent field by itself. -/
def nearest (f : Layout) (num den : Nat) : Nat :=
  if num = 0 then 0
  else
    let e := f.target num den
    let m := roundEven (num * Nat.pow 2 (-e).toNat) (den * Nat.pow 2 e.toNat)
    min ((e - f.bottom).toNat * Nat.pow 2 f.fraction + m) f.top

def encode (f : Layout) : Extended → Nat
  | .nan => f.top + Nat.pow 2 (f.fraction - 1)
  | .infinite negative => f.top + if negative then f.sign else 0
  | .ratio negative num den => f.nearest num den + if negative then f.sign else 0

end Layout

/-! ## Exact operations -/

namespace Extended

def mul : Extended → Extended → Extended
  | .nan, _ | _, .nan => .nan
  | .infinite a, .infinite b => .infinite (a != b)
  | .infinite a, .ratio b num _ | .ratio b num _, .infinite a =>
    if num = 0 then .nan else .infinite (a != b)
  | .ratio a n d, .ratio b n' d' => .ratio (a != b) (n * n') (d * d')

def div : Extended → Extended → Extended
  | .nan, _ | _, .nan => .nan
  | .infinite _, .infinite _ => .nan
  | .infinite a, .ratio b _ _ => .infinite (a != b)
  | .ratio a _ _, .infinite b => .ratio (a != b) 0 1
  | .ratio a n d, .ratio b n' d' =>
    if n' = 0 then (if n = 0 then .nan else .infinite (a != b))
    else .ratio (a != b) (n * d') (d * n')

def ofInt (i : Int) : Extended :=
  .ratio (i < 0) i.natAbs 1

def ofNat (n : Nat) : Extended :=
  .ratio false n 1

def negate : Extended → Extended
  | .nan => .nan
  | .infinite a => .infinite (!a)
  | .ratio a n d => .ratio (!a) n d

end Extended

/-! ## Single and double precision -/

/-- A number in 32 bits. -/
structure Single where
  bits : UInt32
  deriving DecidableEq, Repr

/-- A number in 64 bits. -/
structure Double where
  bits : UInt64
  deriving DecidableEq, Repr

namespace Double

def round (x : Extended) : Double :=
  ⟨UInt64.ofNat (Layout.double.encode x)⟩

def exact (x : Double) : Extended :=
  Layout.double.decode x.bits.toNat

def mul (x y : Double) : Double := round (x.exact.mul y.exact)

def div (x y : Double) : Double := round (x.exact.div y.exact)

def ofNat (n : Nat) : Double := round (.ofNat n)

def ofInt (i : Int) : Double := round (.ofInt i)

def isInfinite (x : Double) : Bool :=
  x.bits.toNat % Layout.double.sign == Layout.double.top

end Double

namespace Single

def round (x : Extended) : Single :=
  ⟨UInt32.ofNat (Layout.single.encode x)⟩

def exact (x : Single) : Extended :=
  Layout.single.decode x.bits.toNat

def mul (x y : Single) : Single := round (x.exact.mul y.exact)

def div (x y : Single) : Single := round (x.exact.div y.exact)

def ofNat (n : Nat) : Single := round (.ofNat n)

def ofInt (i : Int) : Single := round (.ofInt i)

/-- The same number in 64 bits. -/
def widen (x : Single) : Double := .round x.exact

/-- The nearest number in 32 bits. -/
def ofDouble (x : Double) : Single := round x.exact

/-- `num / den`, rounded. -/
def ofRatio (num den : Nat) : Single := round (.ratio false num den)

/-! ### Order -/

/-- The pattern without its sign. -/
def size (x : Single) : Nat :=
  x.bits.toNat % Layout.single.sign

def isNaN (x : Single) : Bool :=
  Layout.single.top < x.size

def isFinite (x : Single) : Bool :=
  x.size < Layout.single.top

/-- Ordered as the numbers are, with one key for both zeros. -/
def key (x : Single) : Int :=
  if Layout.single.sign ≤ x.bits.toNat then -(x.size : Int) else x.size

/-- The usual order, in which nothing is comparable with NaN. -/
instance : LE Single := ⟨fun x y => x.isNaN = false ∧ y.isNaN = false ∧ x.key ≤ y.key⟩

instance : LT Single := ⟨fun x y => x.isNaN = false ∧ y.isNaN = false ∧ x.key < y.key⟩

instance (x y : Single) : Decidable (x ≤ y) :=
  inferInstanceAs (Decidable (_ ∧ _ ∧ _))

instance (x y : Single) : Decidable (x < y) :=
  inferInstanceAs (Decidable (_ ∧ _ ∧ _))

/-- The smaller of two numbers; of a number and NaN, the number. -/
def min (x y : Single) : Single :=
  if x.isNaN then y else if y.isNaN then x else if y < x then y else x

/-- The nearest number between `low` and `high`; NaN stays NaN. -/
def clamp (x low high : Single) : Single :=
  if x < low then low else if high < x then high else x

end Single

end Glance.Number
