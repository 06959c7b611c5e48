import Glance.Document
import Glance.Markup

/-!
# Pages

A page is a whole document in markup: one row per line, each with a gutter for its number. The
bracket depth starts at zero and is carried from row to row. Search matches lie in the text as a
whole; each row shows the part of them that lies on its line.
-/

namespace Glance

/-- What a page shows. -/
structure PageOptions where
  /-- Line numbers stand in the gutter. -/
  lineNumbers : Bool
  /-- Tokens have their colours; without them only search marks remain. -/
  colors : Bool
  theme : Theme
  deriving DecidableEq, Repr

namespace Page

/-- One line of a page. -/
structure Row where
  number : Option Nat
  runs : List Markup.Run
  deriving DecidableEq, Repr

def Row.write (row : Row) : List Char :=
  "<span class=\"gutter\">".toList ++ (row.number.map (Nat.toDigits 10)).getD [] ++
    "</span>".toList ++ Markup.write row.runs ++ ['\n']

/-- Search matches with their place in the list of all matches. -/
abbrev Numbered := List (Match × Nat)

/-- The part of a match that lies on the line from `low` to `high`, as an offset into the line. -/
def clip (current : Option Nat) (low high : Nat) (hit : Match × Nat) : Markup.Mark :=
  ⟨max hit.1.start low - low, min hit.1.stop high - low, current == some hit.2⟩

/-- The marks of the line from `low` to `high`, when no match in front of `pending` reaches it. -/
def marksOn (current : Option Nat) (low high : Nat) (pending : Numbered) : List Markup.Mark :=
  (pending.takeWhile (fun hit => hit.1.start < high)).map (clip current low high)

/-- What the rows above hand to the next one: its number and offset, the matches that may still
touch it, and the bracket depth. -/
structure State where
  index : Nat
  offset : Nat
  pending : Numbered
  depth : BracketDepth

/-- One row, and what it hands on. -/
def row (lang : Language) (current : Option Nat) (options : PageOptions) (s : State)
    (line : List Char) : Row × State :=
  let high := s.offset + line.length
  let pending := s.pending.dropWhile (fun hit => hit.1.stop ≤ s.offset)
  let marks := marksOn current s.offset high pending
  let number := if options.lineNumbers then some (s.index + 1) else none
  let (runs, depth) :=
    if options.colors then Markup.colored lang options.theme s.depth marks line
    else (Markup.uncolored marks line, s.depth)
  (⟨number, runs⟩, ⟨s.index + 1, high + 1, pending, depth⟩)

/-- The rows of lines below the rows `done`, which come last first. -/
def rowsFrom (lang : Language) (current : Option Nat) (options : PageOptions)
    (done : List Row) (s : State) : List (List Char) → List Row
  | [] => done.reverse
  | line :: rest =>
    let (next, s) := row lang current options s line
    rowsFrom lang current options (next :: done) s rest

/-- The rows of a document. `current` is the number of the emphasized match. -/
def rows (doc : Document) (lang : Language) (index : MatchIndex) (current : Option Nat)
    (options : PageOptions) : List Row :=
  rowsFrom lang current options [] ⟨0, 0, index.hits.zipIdx, .zero⟩ doc.lines

end Page

/-- The markup of a document. -/
def Document.render (doc : Document) (lang : Language) (index : MatchIndex)
    (current : Option Nat) (options : PageOptions) : List Char :=
  (Page.rows doc lang index current options).flatMap Page.Row.write

end Glance
