import Glance.Json
import Glance.Number.Digit
import Glance.Text.Utf8

/-!
# Reading stored values

A strict reader: no comments, no trailing commas, no blank characters but space, tab, line feed and
carriage return, no control character inside a string, no lone surrogate escape, nothing behind the
value. Containers may be nested only up to a limit.

A number without point and exponent that fits 64 bits is a whole number. Any other number is read
digit by digit into a 64-bit significand, further digits only counting as powers of ten, and the
significand is then scaled by one rounded multiplication or division; so up to fifteen digits are
read exactly rounded. A number too large for a float is refused.
-/

namespace Glance.Json

/-- Reads a value off the front of a text. -/
abbrev Reader (α : Type) := List Char → Option (α × List Char)

def isBlank (c : Char) : Bool :=
  c == ' ' || c == '\n' || c == '\r' || c == '\t'

def skipBlank (text : List Char) : List Char :=
  text.dropWhile isBlank

/-! ## Numbers -/

def digitValue (c : Char) : Nat :=
  c.toNat - '0'.toNat

/-- The largest significand. -/
def maxSignificand : Nat := 0xFFFFFFFFFFFFFFFF

/-- Digits read into a significand for as long as it fits: the significand, the number of digits in
it, the number of digits behind them. -/
def readDigits : (significand used extra : Nat) → List Char → Nat × Nat × Nat
  | m, used, extra, [] => (m, used, extra)
  | m, used, extra, c :: rest =>
    if extra = 0 ∧ 10 * m + digitValue c ≤ maxSignificand then
      readDigits (10 * m + digitValue c) (used + 1) 0 rest
    else readDigits m used (extra + 1) rest

/-- The float nearest to a power of ten. -/
def powerOfTen (n : Nat) : Number.Double :=
  .ofNat (Nat.pow 10 n)

/-- Scales by powers of ten until the exponent is used up, at most `10 ^ 308` at a time. -/
def scale : (fuel : Nat) → Number.Double → Int → Option Number.Double
  | 0, x, _ => some x
  | fuel + 1, x, e =>
    if e.natAbs ≤ 308 then
      let y := if 0 ≤ e then x.mul (powerOfTen e.natAbs) else x.div (powerOfTen e.natAbs)
      if y.isInfinite then none else some y
    else if x.bits = 0 then some x
    else if 0 ≤ e then none
    else scale fuel (x.div (powerOfTen 308)) (e + 308)

/-- The float for a significand and a power of ten. Below `10 ^ -1000` every significand gives
zero. -/
def toFloat (negative : Bool) (m : Nat) (e : Int) : Option Json :=
  (scale 4 (.ofNat m) (max e (-1000))).map fun x =>
    .float (if negative then .round x.exact.negate else x)

/-- The digits at the front of a text, and what follows. -/
def spanDigits (text : List Char) : List Char × List Char :=
  (text.takeWhile Char.isDigit, text.dropWhile Char.isDigit)

/-- An optional exponent: its value, and what follows. -/
def exponent? (text : List Char) : Option (Option Int × List Char) :=
  match text with
  | c :: rest =>
    if c = 'e' ∨ c = 'E' then
      let (negative, rest) :=
        match rest with
        | '+' :: r => (false, r)
        | '-' :: r => (true, r)
        | r => (false, r)
      let (ds, rest) := spanDigits rest
      if ds.isEmpty then none
      else
        let e : Int := ds.foldl (fun n c => 10 * n + digitValue c) 0
        some (some (if negative then -e else e), rest)
    else some (none, text)
  | [] => some (none, [])

/-- A fraction behind the point: its digits, and what follows. Without a point there are none. -/
def fraction? (text : List Char) : Option (Option (List Char) × List Char) :=
  match text with
  | '.' :: rest =>
    let (ds, rest) := spanDigits rest
    if ds.isEmpty then none else some (some ds, rest)
  | _ => some (none, text)

/-- A number without its sign. -/
def unsigned (negative : Bool) : Reader Json := fun text => do
  let (whole, rest) := spanDigits text
  if whole.isEmpty || (whole.head? == some '0' && 1 < whole.length) then none
  let (part, rest) ← fraction? rest
  let (e, rest) ← exponent? rest
  let (m, _, extra) := readDigits 0 0 0 whole
  match part, e with
  | none, none =>
    if extra = 0 then
      if negative then
        if m = 0 ∨ 0x8000000000000000 < m then
          return (.float (.round (.ratio true m 1)), rest)
        else return (.int (-m), rest)
      else return (.int m, rest)
    else
      let x ← toFloat negative m extra
      return (x, rest)
  | _, _ =>
    let (m, used, _) := readDigits m 0 0 (part.getD [])
    let x ← toFloat negative m (e.getD 0 + extra - used)
    return (x, rest)

def number : Reader Json
  | '-' :: rest => unsigned true rest
  | text => unsigned false text

/-! ## Strings -/

/-- What the reader of a string expects next. A character above U+FFFF is escaped as two code units,
the first of which is remembered as `high`. -/
inductive Expecting where
  | character
  | escape
  /-- Hexadecimal digits of a code unit, of which `value` has been read. -/
  | unit (high : Option Nat) (left value : Nat)
  /-- The backslash before the second unit. -/
  | secondMark (high : Nat)
  /-- The letter before the second unit. -/
  | secondLetter (high : Nat)

/-- The character that a backslash and `c` stand for. -/
def escaped? (c : Char) : Option Char :=
  match c with
  | '"' => some '"'
  | '\\' => some '\\'
  | '/' => some '/'
  | 'b' => some '\x08'
  | 'f' => some '\x0c'
  | 'n' => some '\n'
  | 'r' => some '\r'
  | 't' => some '\t'
  | _ => none

/-- A code unit that is the first of two. -/
def isHigh (unit : Nat) : Bool :=
  0xD800 ≤ unit && unit < 0xDC00

/-- A code unit that is the second of two. -/
def isLow (unit : Nat) : Bool :=
  0xDC00 ≤ unit && unit < 0xE000

/-- The character of two code units. -/
def joinUnits (high low : Nat) : Char :=
  Char.ofNat (0x10000 + (high - 0xD800) * 0x400 + (low - 0xDC00))

/-- The rest of a string, up to its closing quote. `seen` holds the characters so far, last
first. -/
def stringBody : Expecting → (seen : List Char) → Reader (List Char)
  | _, _, [] => none
  | .character, seen, c :: rest =>
    if c = '"' then some (seen.reverse, rest)
    else if c = '\\' then stringBody .escape seen rest
    else if c.toNat < 0x20 then none
    else stringBody .character (c :: seen) rest
  | .escape, seen, c :: rest =>
    if c = 'u' then stringBody (.unit none 4 0) seen rest
    else
      match escaped? c with
      | some d => stringBody .character (d :: seen) rest
      | none => none
  | .secondMark high, seen, c :: rest =>
    if c = '\\' then stringBody (.secondLetter high) seen rest else none
  | .secondLetter high, seen, c :: rest =>
    if c = 'u' then stringBody (.unit (some high) 4 0) seen rest else none
  | .unit high left value, seen, c :: rest =>
    match Number.digitValue? 16 c with
    | none => none
    | some d =>
      let value := 16 * value + d
      if 1 < left then stringBody (.unit high (left - 1) value) seen rest
      else
        match high with
        | some high =>
          if isLow value then stringBody .character (joinUnits high value :: seen) rest else none
        | none =>
          if isHigh value then stringBody (.secondMark value) seen rest
          else if isLow value then none
          else stringBody .character (Char.ofNat value :: seen) rest

/-- A string behind its opening quote. -/
def string : Reader String := fun text =>
  (stringBody .character [] text).map fun (s, rest) => (String.ofList s, rest)

/-! ## Containers -/

/-- The items of an array, the first of them still to come and at most `fuel` of them. `seen` holds
the items so far, last first. -/
def items (item : Reader Json) (seen : List Json) : (fuel : Nat) → Reader (List Json)
  | 0, _ => none
  | fuel + 1, text =>
    match item (skipBlank text) with
    | none => none
    | some (value, rest) =>
      match skipBlank rest with
      | ']' :: rest => some ((value :: seen).reverse, rest)
      | ',' :: rest => items item (value :: seen) fuel rest
      | _ => none

/-- One member of an object. -/
def member (item : Reader Json) : Reader (String × Json) := fun text =>
  match skipBlank text with
  | '"' :: rest =>
    match string rest with
    | none => none
    | some (key, rest) =>
      match skipBlank rest with
      | ':' :: rest => (item (skipBlank rest)).map fun (value, rest) => ((key, value), rest)
      | _ => none
  | _ => none

/-- The members of an object, the first of them still to come and at most `fuel` of them. `seen`
holds the members so far, last first. -/
def members (item : Reader Json) (seen : List (String × Json)) :
    (fuel : Nat) → Reader (List (String × Json))
  | 0, _ => none
  | fuel + 1, text =>
    match member item text with
    | none => none
    | some (m, rest) =>
      match skipBlank rest with
      | '}' :: rest => some ((m :: seen).reverse, rest)
      | ',' :: rest => members item (m :: seen) fuel rest
      | _ => none

/-- A word that stands for a value. -/
def word (spelling : String) (value : Json) : Reader Json := fun text =>
  if spelling.toList.isPrefixOf text then some (value, text.drop spelling.length) else none

/-- A value, without blanks in front, in which `depth` containers may be nested and every container
has at most `most` parts. -/
def value (most : Nat) : (depth : Nat) → Reader Json
  | depth, text =>
    match text with
    | 'n' :: _ => word "null" .null text
    | 't' :: _ => word "true" (.bool true) text
    | 'f' :: _ => word "false" (.bool false) text
    | '"' :: rest => (string rest).map fun (s, rest) => (.str s, rest)
    | '[' :: rest =>
      match depth with
      | 0 => none
      | depth + 1 =>
        match skipBlank rest with
        | ']' :: rest => some (.arr [], rest)
        | _ => (items (value most depth) [] most rest).map fun (vs, rest) => (.arr vs, rest)
    | '{' :: rest =>
      match depth with
      | 0 => none
      | depth + 1 =>
        match skipBlank rest with
        | '}' :: rest => some (.obj [], rest)
        | _ => (members (value most depth) [] most rest).map fun (ms, rest) => (object ms, rest)
    | _ => number text

/-- The containers that may be nested in a stored text. -/
def nestingLimit : Nat := 127

/-- Reads a whole text in which `depth` containers may be nested. -/
def parse (depth : Nat) (text : List Char) : Option Json :=
  match value text.length depth (skipBlank text) with
  | some (value, rest) => if (skipBlank rest).isEmpty then some value else none
  | none => none

/-- Reads a whole stored text from its bytes. -/
def ofBytes? (bytes : List UInt8) : Option Json :=
  (Text.decode? bytes).bind (parse nestingLimit)

end Glance.Json
