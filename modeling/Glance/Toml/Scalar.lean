import Glance.Number.Binary
import Glance.Number.Digit
import Glance.Toml

/-!
# Words of a settings file

Numbers, points in time and the other values that are written as one word. A word is read as a whole
or not at all.
-/

namespace Glance.Toml

open Number (digitValue?)

/-! ## Whole numbers -/

/-- The number that digits stand for; between two digits there may be an underscore. `after` says
that a digit came just before. -/
def groups? (base : Nat) : (n : Nat) → (after : Bool) → List Char → Option Nat
  | n, after, [] => if after then some n else none
  | n, after, c :: rest =>
    if c = '_' then (if after then groups? base n false rest else none)
    else
      match digitValue? base c with
      | some d => groups? base (base * n + d) true rest
      | none => none

/-- A number in some base, without a sign. -/
def natural? (base : Nat) (word : List Char) : Option Nat :=
  groups? base 0 false word

/-- A decimal number that does not begin with a needless zero. -/
def decimal? (word : List Char) : Option Nat :=
  match word with
  | '0' :: _ :: _ => none
  | _ => natural? 10 word

/-- The sign of a word, true for minus, and the rest of it. -/
def splitSign (word : List Char) : Bool × List Char :=
  match word with
  | '+' :: rest => (false, rest)
  | '-' :: rest => (true, rest)
  | _ => (false, word)

/-- The number if it fits 64 bits with a sign. -/
def int64? (i : Int) : Option Toml :=
  if -0x8000000000000000 ≤ i ∧ i < 0x8000000000000000 then some (.integer i) else none

def integer? (word : List Char) : Option Toml :=
  match word with
  | '0' :: 'x' :: digits => (natural? 16 digits).bind fun n => int64? n
  | '0' :: 'o' :: digits => (natural? 8 digits).bind fun n => int64? n
  | '0' :: 'b' :: digits => (natural? 2 digits).bind fun n => int64? n
  | _ =>
    let (negative, digits) := splitSign word
    (decimal? digits).bind fun n => int64? (if negative then -(n : Int) else n)

/-! ## Floats -/

/-- A word cut at the first character that `p` holds of; the second part begins behind it. -/
def cutAt (p : Char → Bool) (word : List Char) : List Char × Option (List Char) :=
  match word.dropWhile (!p ·) with
  | [] => (word, none)
  | _ :: rest => (word.takeWhile (!p ·), some rest)

/-- The positive number `m · 10 ^ e` is too large for 64 bits. -/
def overflows (m : Nat) (e : Int) : Bool :=
  let point : Int := (Nat.toDigits 10 m).length + e
  if m = 0 ∨ point < 309 then false
  else if 309 < point then true
  else (Number.Double.round (.ratio false (m * Nat.pow 10 e.toNat) (Nat.pow 10 (-e).toNat))).isInfinite

/-- An exponent, which may begin with zeros. -/
def exponent? (word : List Char) : Option Int :=
  let (negative, digits) := splitSign word
  (natural? 10 digits).map fun n => if negative then -(n : Int) else n

def float? (word : List Char) : Option Toml :=
  let (negative, size) := splitSign word
  if size = "inf".toList ∨ size = "nan".toList then some .float
  else
    let (mantissa, exponent) := cutAt (fun c => c == 'e' || c == 'E') size
    let (whole, part) := cutAt (· == '.') mantissa
    if exponent.isNone && part.isNone then none
    else do
      let _ ← decimal? whole
      let places := (part.getD []).filter (· != '_')
      let _ ← if part.isSome then natural? 10 (part.getD []) else some 0
      let e ← if exponent.isSome then exponent? (exponent.getD []) else some 0
      let m ← natural? 10 (whole.filter (· != '_') ++ places)
      if !negative && overflows m (e - places.length) then none else some .float

/-! ## Points in time -/

/-- A number of two digits between two limits, and what follows. -/
def twoDigits (low high : Nat) : List Char → Option (Nat × List Char)
  | a :: b :: rest =>
    match digitValue? 10 a, digitValue? 10 b with
    | some x, some y =>
      let n := 10 * x + y
      if low ≤ n ∧ n ≤ high then some (n, rest) else none
    | _, _ => none
  | _ => none

/-- Passes one character. -/
def sign (c : Char) : List Char → Option (List Char)
  | d :: rest => if d = c then some rest else none
  | [] => none

def isLeapYear (year : Nat) : Bool :=
  year % 4 == 0 && (year % 100 != 0 || year % 400 == 0)

def daysIn (year month : Nat) : Nat :=
  if month = 2 then (if isLeapYear year then 29 else 28)
  else if month ∈ [4, 6, 9, 11] then 30
  else 31

/-- A date such as `2001-12-31`; returns what follows. -/
def date? (word : List Char) : Option (List Char) := do
  let (century, word) ← twoDigits 0 99 word
  let (year, word) ← twoDigits 0 99 word
  let word ← sign '-' word
  let (month, word) ← twoDigits 1 12 word
  let word ← sign '-' word
  let (_, word) ← twoDigits 1 (daysIn (100 * century + year) month) word
  return word

/-- A time of day such as `23:59:60.25`; returns what follows. -/
def time? (word : List Char) : Option (List Char) := do
  let (_, word) ← twoDigits 0 23 word
  let word ← sign ':' word
  let (_, word) ← twoDigits 0 59 word
  let word ← sign ':' word
  let (_, word) ← twoDigits 0 60 word
  match word with
  | '.' :: d :: rest => if d.isDigit then some (rest.dropWhile Char.isDigit) else none
  | '.' :: [] => none
  | _ => some word

/-- The end of a time, or a distance from universal time. -/
def isOffset (word : List Char) : Bool :=
  match word with
  | [] | ['Z'] | ['z'] => true
  | c :: rest =>
    (c == '+' || c == '-') &&
      match twoDigits 0 23 rest with
      | some (_, rest) =>
        match (sign ':' rest).bind (twoDigits 0 59) with
        | some (_, []) => true
        | _ => false
      | none => false

/-- A date, a time of day, or a date and a time with `T` between them. -/
def isMoment (word : List Char) : Bool :=
  match date? word with
  | some [] => true
  | some (c :: rest) =>
    (c == 'T' || c == 't') &&
      match time? rest with
      | some rest => isOffset rest
      | none => false
  | none => time? word == some []

/-! ## Any word -/

/-- Characters that belong to one word. -/
def isWordPart (c : Char) : Bool :=
  c.isAlphanum || c == '+' || c == '-' || c == '_' || c == '.' || c == ':'

/-- The value that a word stands for. -/
def word? (word : List Char) : Option Toml :=
  if word = "true".toList then some (.boolean true)
  else if word = "false".toList then some (.boolean false)
  else if isMoment word then some .moment
  else (integer? word).or (float? word)

/-- The word at the front of a text, and what follows. A date and a time may be parted by one
blank. -/
def spanWord (text : List Char) : List Char × List Char :=
  let word := text.takeWhile isWordPart
  match text.dropWhile isWordPart with
  | ' ' :: d :: rest =>
    if d.isDigit ∧ date? word = some [] then
      let time := (d :: rest).takeWhile isWordPart
      (word ++ 'T' :: time, (d :: rest).dropWhile isWordPart)
    else (word, ' ' :: d :: rest)
  | rest => (word, rest)

end Glance.Toml
