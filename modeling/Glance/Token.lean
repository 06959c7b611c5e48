import Glance.Language

/-!
# Tokens

What a line of a file is cut into: stretches of text with a kind. The kind of a word depends on the
language alone; the kind of a bracket holds the colour its nesting depth gives it.
-/

namespace Glance

/-- The number of bracket colours. -/
abbrev bracketColors : Nat := 5

inductive TokenKind where
  | plain
  | keyword
  | string
  | comment
  | number
  /-- `true`, `false`, `null` or `none` in any letter case. -/
  | boolean
  /-- A bracket in one of the bracket colours. -/
  | bracket (color : Fin bracketColors)
  deriving DecidableEq, Repr

/-- A stretch of a line. -/
structure Token where
  kind : TokenKind
  text : List Char
  deriving DecidableEq, Repr

namespace Token

/-- The words that are booleans in every language, in small letters. -/
def booleans : List (List Char) :=
  ["true".toList, "false".toList, "null".toList, "none".toList]

/-- The kind of a whole word: a reserved word, else a boolean, else a run of digits, else plain. -/
def classify (lang : Language) (word : List Char) : TokenKind :=
  if lang.isKeyword word then .keyword
  else if booleans.contains (word.map Char.toLower) then .boolean
  else if !word.isEmpty && word.all Char.isDigit then .number
  else .plain

/-! ## Brackets -/

/-- `(`, `[` and `}` open. -/
def isOpener (c : Char) : Bool :=
  c == '(' || c == '[' || c == '}'

/-- `)`, `]` and `{` close. -/
def isCloser (c : Char) : Bool :=
  c == ')' || c == ']' || c == '{'

end Token

/-- How many brackets are open, carried from line to line of a file. More closers than openers take
it below zero, down to a floor. -/
structure BracketDepth where
  value : Int
  deriving DecidableEq, Repr

namespace BracketDepth

/-- The depth at which a file starts. -/
def zero : BracketDepth := ⟨0⟩

/-- Closers do not go below this depth. -/
def floor : Int := -1000

/-- Openers do not go above this depth. -/
def ceiling : Int := 0x7FFFFFFF

/-- The colour of a bracket at this depth; depths below zero share the first colour. -/
def color (d : BracketDepth) : Fin bracketColors :=
  ⟨d.value.toNat % bracketColors, Nat.mod_lt _ (by decide)⟩

/-- The depth behind an opener, which has the colour of the depth before it. -/
def opened (d : BracketDepth) : BracketDepth :=
  ⟨min (d.value + 1) ceiling⟩

/-- The depth behind a closer, which has the colour of that depth. -/
def closed (d : BracketDepth) : BracketDepth :=
  ⟨max (d.value - 1) floor⟩

end BracketDepth

end Glance
