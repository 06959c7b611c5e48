/-!
# Documents

A document is a decoded text. Its lines end at `'\n'` only: a `'\r'` before it, or a Unicode line
separator, is an ordinary character of the line. A text with `n` line feeds therefore has `n + 1`
lines, and character offsets into the text and line numbers convert into each other without a table.
-/

namespace Glance

/-- A decoded, immutable text. -/
structure Document where
  text : List Char
  deriving DecidableEq, Repr

namespace Document

/-- A position outside the document. -/
inductive PositionError where
  | lineOutOfBounds (line lineTotal : Nat)
  | charOutOfBounds (index : Nat)
  deriving DecidableEq, Repr

def PositionError.message : PositionError → String
  | .lineOutOfBounds line total =>
    "Line " ++ line.repr ++ " is out of bounds (document has " ++ total.repr ++ " lines)"
  | .charOutOfBounds index => "Invalid character index: " ++ index.repr

def empty : Document := ⟨[]⟩

/-! ## Lines -/

/-- Puts a character in front of a text that is already split into its first line and the others. -/
def consLine (c : Char) (split : List Char × List (List Char)) : List Char × List (List Char) :=
  if c = '\n' then ([], split.1 :: split.2) else (c :: split.1, split.2)

/-- The first line of a text, and the others. -/
def splitLines (text : List Char) : List Char × List (List Char) :=
  text.foldr consLine ([], [])

/-- The lines, without the line feeds that end them. -/
def lines (doc : Document) : List (List Char) :=
  (splitLines doc.text).1 :: (splitLines doc.text).2

/-- The number of lines, the empty one after a final line feed included. -/
def lineTotal (doc : Document) : Nat :=
  doc.text.count '\n' + 1

/-- The number of lines a reader counts: a final line feed starts no line, and an empty document
has none. -/
def lineCount (doc : Document) : Nat :=
  match doc.text.getLast? with
  | none => 0
  | some c => if c = '\n' then doc.lineTotal - 1 else doc.lineTotal

/-- Line `i`, counted from 0. -/
def line (doc : Document) (i : Nat) : Except PositionError (List Char) :=
  match doc.lines[i]? with
  | some l => .ok l
  | none => .error (.lineOutOfBounds i doc.lineTotal)

/-! ## Sizes -/

def charCount (doc : Document) : Nat :=
  doc.text.length

/-- The length of a text in UTF-8. -/
def utf8Length (text : List Char) : Nat :=
  text.foldl (fun n c => n + c.utf8Size) 0

def byteCount (doc : Document) : Nat :=
  utf8Length doc.text

def isEmpty (doc : Document) : Bool :=
  doc.text.isEmpty

/-- The text holds U+FFFD, the character that stands for bytes that could not be decoded. -/
def isLossy (doc : Document) : Bool :=
  doc.text.contains '\uFFFD'

/-! ## Positions -/

/-- The line that character offset `i` lies on; the offset just past the text is allowed. -/
def lineOfChar (doc : Document) (i : Nat) : Except PositionError Nat :=
  if doc.text.length < i then .error (.charOutOfBounds i)
  else .ok ((doc.text.take i).count '\n')

/-- The character offset at which line `i` starts. -/
def charOfLine (doc : Document) (i : Nat) : Except PositionError Nat :=
  if doc.lineTotal ≤ i then .error (.lineOutOfBounds i doc.lineTotal)
  else .ok ((doc.lines.take i).foldl (fun n l => n + (l.length + 1)) 0)

end Document

end Glance
