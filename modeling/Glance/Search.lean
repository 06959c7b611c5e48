import Glance.Text.LetterCase

/-!
# Search

The occurrences of a query in a text, found from left to right without overlap and without regard to
letter case: after a hit the scan goes on behind it, so `aa` occurs twice in `aaaa`. Offsets count
characters of the text itself; folding keeps lengths, so they are offsets of the folded text too.
-/

namespace Glance

/-- One occurrence of a query. -/
structure Match where
  start : Nat
  length : Nat
  deriving DecidableEq, Repr

/-- The offset just behind the occurrence. -/
def Match.stop (m : Match) : Nat :=
  m.start + m.length

namespace Search

/-- Scans a folded text. `wait` characters still belong to the previous hit, `pos` is the offset of
the next character, and `found` holds the hits so far, last first. -/
def scan (needle : List Char) (found : List Match) :
    (wait pos : Nat) → List Char → List Match
  | _, _, [] => found.reverse
  | wait + 1, pos, _ :: rest => scan needle found wait (pos + 1) rest
  | 0, pos, c :: rest =>
    if needle.isPrefixOf (c :: rest) then
      scan needle (⟨pos, needle.length⟩ :: found) (needle.length - 1) (pos + 1) rest
    else
      scan needle found 0 (pos + 1) rest

/-- The occurrences of `query` in `text`, in order. An empty query has none. -/
def hits (text query : List Char) : List Match :=
  if query.isEmpty then [] else scan (Text.fold query) [] 0 0 (Text.fold text)

/-- The number of occurrences. -/
def count (text query : List Char) : Nat :=
  (hits text query).length

end Search

/-- The occurrences of one query in one text. Another text or another query needs another index. -/
structure MatchIndex where
  query : List Char
  hits : List Match
  deriving DecidableEq, Repr

namespace MatchIndex

def empty : MatchIndex := ⟨[], []⟩

def ofText (text query : List Char) : MatchIndex :=
  ⟨query, Search.hits text query⟩

def count (index : MatchIndex) : Nat :=
  index.hits.length

def isEmpty (index : MatchIndex) : Bool :=
  index.hits.isEmpty

def get? (index : MatchIndex) (i : Nat) : Option Match :=
  index.hits[i]?

end MatchIndex

end Glance
