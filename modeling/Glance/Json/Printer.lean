import Glance.Json

/-!
# Writing stored values

Values are written over several lines, two blanks deeper for each container; empty containers stay
on one line. Strings escape quotes, backslashes and control characters and nothing else.
-/

namespace Glance.Json

def hexDigit (n : Nat) : Char :=
  if n < 10 then Char.ofNat (48 + n) else Char.ofNat (87 + n)

def escapeChar (c : Char) : List Char :=
  if c = '"' then ['\\', '"']
  else if c = '\\' then ['\\', '\\']
  else if c = '\x08' then ['\\', 'b']
  else if c = '\x0c' then ['\\', 'f']
  else if c = '\n' then ['\\', 'n']
  else if c = '\r' then ['\\', 'r']
  else if c = '\t' then ['\\', 't']
  else if c.toNat < 0x20 then
    ['\\', 'u', '0', '0', hexDigit (c.toNat / 16), hexDigit (c.toNat % 16)]
  else [c]

def quote (text : List Char) : List Char :=
  '"' :: (text.flatMap escapeChar ++ ['"'])

def writeInt (i : Int) : List Char :=
  (if i < 0 then ['-'] else []) ++ Number.digits i.natAbs

/-- A line break and the indentation of the new line. -/
def lineBreak (depth : Nat) : List Char :=
  '\n' :: List.replicate (2 * depth) ' '

mutual

/-- A value whose first line starts at the given depth. -/
def write (depth : Nat) : Json → List Char
  | .null => "null".toList
  | .bool b => (if b then "true" else "false").toList
  | .int i => writeInt i
  | .float x => x.shortest
  | .str s => quote s.toList
  | .arr [] => ['[', ']']
  | .arr (item :: items) =>
    '[' :: (lineBreak (depth + 1) ++ write (depth + 1) item ++ writeItems (depth + 1) items ++
      lineBreak depth ++ [']'])
  | .obj [] => ['{', '}']
  | .obj ((key, value) :: members) =>
    '{' :: (lineBreak (depth + 1) ++ quote key.toList ++ ':' :: ' ' :: write (depth + 1) value ++
      writeMembers (depth + 1) members ++ lineBreak depth ++ ['}'])

/-- Further items of an array. -/
def writeItems (depth : Nat) : List Json → List Char
  | [] => []
  | item :: items => ',' :: (lineBreak depth ++ write depth item ++ writeItems depth items)

/-- Further members of an object. -/
def writeMembers (depth : Nat) : List (String × Json) → List Char
  | [] => []
  | (key, value) :: members =>
    ',' :: (lineBreak depth ++ quote key.toList ++ ':' :: ' ' :: write depth value ++
      writeMembers depth members)

end

/-- The text of a value. -/
def pretty (value : Json) : List Char :=
  write 0 value

end Glance.Json
