import Glance.Number.Digit

/-!
# Quoted texts in a settings file

Four ways to quote: with double quotes, where a backslash escapes, or with single quotes, where
nothing does; and either of them three times, for a text over several lines. A text over several
lines does not hold the line break right behind its opening quotes, and may hold one or two quotes
anywhere, also in front of its closing ones. A backslash at the end of a line joins the line with
the next character that is neither blank nor line break.
-/

namespace Glance.Toml

/-- Characters that may stand in a comment or in a text: all but control characters, tab excepted.
-/
def isPrintable (c : Char) : Bool :=
  c == '\t' || (0x20 ≤ c.toNat && c.toNat != 0x7F)

def isBlank (c : Char) : Bool :=
  c == ' ' || c == '\t'

/-- What the reader of a text expects next. -/
inductive Expecting where
  /-- Any character; in a text over several lines, blanks and line breaks may be passed over. -/
  | character (joining : Bool)
  | escape
  /-- The line break behind a backslash. -/
  | lineEnd
  /-- Hexadecimal digits of a character code of which `value` has been read. -/
  | code (left value : Nat)

/-- The character that a backslash and `c` stand for. -/
def escaped? (c : Char) : Option Char :=
  match c with
  | 'b' => some '\x08'
  | 't' => some '\t'
  | 'n' => some '\n'
  | 'f' => some '\x0c'
  | 'r' => some '\r'
  | '"' => some '"'
  | '\\' => some '\\'
  | _ => none

/-- The end of a long text at the first of its closing quotes `q`: the quotes that still belong to
it, and what follows. `rest` lies behind the first quote. -/
def closing? (q : Char) (rest : List Char) : Option (List Char × List Char) :=
  match rest with
  | a :: b :: rest =>
    if a = q ∧ b = q then
      match rest with
      | c :: d :: more =>
        if c = q then (if d = q then some ([q, q], more) else some ([q], d :: more))
        else some ([], rest)
      | [c] => if c = q then some ([q], []) else some ([], [c])
      | [] => some ([], [])
    else none
  | _ => none

/-- The rest of a text in double quotes, behind the opening ones. `seen` holds the characters so
far, last first. -/
def basic (long : Bool) : Expecting → (seen : List Char) → List Char →
    Option (List Char × List Char)
  | _, _, [] => none
  | .escape, seen, c :: rest =>
    if c = 'u' then basic long (.code 4 0) seen rest
    else if c = 'U' then basic long (.code 8 0) seen rest
    else
      match escaped? c with
      | some d => basic long (.character false) (d :: seen) rest
      | none =>
        if !long then none
        else if isBlank c then basic long .lineEnd seen rest
        else if c = '\n' then basic long (.character true) seen rest
        else if c = '\r' ∧ rest.head? = some '\n' then basic long .lineEnd seen rest
        else none
  | .lineEnd, seen, c :: rest =>
    if isBlank c then basic long .lineEnd seen rest
    else if c = '\n' then basic long (.character true) seen rest
    else if c = '\r' ∧ rest.head? = some '\n' then basic long .lineEnd seen rest
    else none
  | .code left value, seen, c :: rest =>
    match Number.digitValue? 16 c with
    | none => none
    | some d =>
      let value := 16 * value + d
      if 1 < left then basic long (.code (left - 1) value) seen rest
      else if value.isValidChar then basic long (.character false) (Char.ofNat value :: seen) rest
      else none
  | .character joining, seen, c :: rest =>
    if c = '"' then
      if long then
        match closing? '"' rest with
        | some (quotes, rest) => some ((quotes ++ seen).reverse, rest)
        | none => basic long (.character false) (c :: seen) rest
      else some (seen.reverse, rest)
    else if c = '\\' then basic long .escape seen rest
    else if joining ∧ isBlank c then basic long (.character true) seen rest
    else if isPrintable c then basic long (.character false) (c :: seen) rest
    else if long ∧ c = '\n' then
      basic long (.character joining) (if joining then seen else c :: seen) rest
    else if long ∧ c = '\r' ∧ rest.head? = some '\n' then basic long (.character joining) seen rest
    else none

/-- The rest of a text in single quotes, behind the opening ones. -/
def literal (long : Bool) : (seen : List Char) → List Char → Option (List Char × List Char)
  | _, [] => none
  | seen, c :: rest =>
    if c = '\'' then
      if long then
        match closing? '\'' rest with
        | some (quotes, rest) => some ((quotes ++ seen).reverse, rest)
        | none => literal long (c :: seen) rest
      else some (seen.reverse, rest)
    else if isPrintable c then literal long (c :: seen) rest
    else if long ∧ c = '\n' then literal long (c :: seen) rest
    else if long ∧ c = '\r' ∧ rest.head? = some '\n' then literal long seen rest
    else none

/-- Passes the line break that does not belong to a long text. -/
def skipLineBreak : List Char → List Char
  | '\n' :: rest => rest
  | '\r' :: '\n' :: rest => rest
  | text => text

/-- A text in quotes on one line. -/
def shortText : List Char → Option (List Char × List Char)
  | '"' :: rest => basic false (.character false) [] rest
  | '\'' :: rest => literal false [] rest
  | _ => none

/-- A text in quotes of any kind. -/
def quoted : List Char → Option (List Char × List Char)
  | '"' :: '"' :: '"' :: rest => basic true (.character false) [] (skipLineBreak rest)
  | '\'' :: '\'' :: '\'' :: rest => literal true [] (skipLineBreak rest)
  | text => shortText text

end Glance.Toml
