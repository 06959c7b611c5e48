import Glance.Search
import Glance.Theme
import Glance.Token.Scan

/-!
# Markup

A rendered line is a list of runs. A run has a colour, or none for plain text, and is cut into
fragments where search marks begin and end. In writing, a colour is a `span` around the run, an
emphasis is a `mark` around the fragment, and `&`, `<` and `>` are escaped, so that the line can be
read back from its markup.
-/

namespace Glance.Markup

inductive Emphasis where
  | unmarked
  | found
  | current
  deriving DecidableEq, Repr

/-- A region to emphasize, by character offsets into the line. -/
structure Mark where
  start : Nat
  stop : Nat
  current : Bool
  deriving DecidableEq, Repr

def Mark.emphasis (m : Mark) : Emphasis :=
  if m.current then .current else .found

/-- Characters under one emphasis. -/
structure Fragment where
  emphasis : Emphasis
  text : List Char
  deriving DecidableEq, Repr

/-- Fragments under one colour. -/
structure Run where
  color : Option String
  fragments : List Fragment
  deriving DecidableEq, Repr

/-! ## Cutting at marks -/

/-- How far a text has been cut: the offset reached, the text from there on, and the fragments so
far, last first. -/
structure Progress where
  position : Nat
  ahead : List Char
  done : List Fragment

/-- Cuts along one mark. `text` lies at the offsets from `start` to `stop`; the part of the mark
outside is ignored, and a mark with nothing inside leaves no trace. A mark that begins before the
offset reached shows its characters once more. -/
def Progress.cut (text : List Char) (start stop : Nat) (p : Progress) (m : Mark) : Progress :=
  let low := max m.start start
  let high := min m.stop stop
  if high ≤ low then p
  else
    let before := if p.position < low then [⟨.unmarked, p.ahead.take (low - p.position)⟩] else []
    let onward := if p.position ≤ low then p.ahead.drop (low - p.position)
      else text.drop (low - start)
    { position := high
      ahead := onward.drop (high - low)
      done := ⟨m.emphasis, onward.take (high - low)⟩ :: (before ++ p.done) }

/-- The fragments of `text`, which lies at the offsets from `start` on. -/
def fragments (start : Nat) (text : List Char) (marks : List Mark) : List Fragment :=
  let stop := start + text.length
  let p := marks.foldl (Progress.cut text start stop) ⟨start, text, []⟩
  (if p.position < stop then ⟨.unmarked, p.ahead⟩ :: p.done else p.done).reverse

/-- The runs of consecutive tokens, of which the first lies at `start`. -/
def runsFrom (theme : Theme) (marks : List Mark) (start : Nat) (tokens : List Token) : List Run :=
  let (_, runs) := tokens.foldl
    (fun (start, runs) t =>
      (start + t.text.length, ⟨theme.color t.kind, fragments start t.text marks⟩ :: runs))
    (start, [])
  runs.reverse

/-! ## Writing -/

def escapeChar : Char → List Char
  | '&' => "&amp;".toList
  | '<' => "&lt;".toList
  | '>' => "&gt;".toList
  | c => [c]

def escape (text : List Char) : List Char :=
  text.flatMap escapeChar

/-- The tag that begins an emphasis. -/
def Emphasis.openTag : Emphasis → List Char
  | .unmarked => []
  | .found => "<mark class=\"match\">".toList
  | .current => "<mark class=\"match current\">".toList

/-- The tag that ends an emphasis. -/
def Emphasis.closeTag : Emphasis → List Char
  | .unmarked => []
  | .found | .current => "</mark>".toList

/-- The tag that begins a colour. -/
def openColor (color : String) : List Char :=
  "<span style=\"color:".toList ++ color.toList ++ "\">".toList

/-- The tag that ends a colour. -/
def closeColor : List Char :=
  "</span>".toList

def Fragment.write (f : Fragment) : List Char :=
  f.emphasis.openTag ++ escape f.text ++ f.emphasis.closeTag

def Run.write (r : Run) : List Char :=
  match r.color with
  | none => r.fragments.flatMap Fragment.write
  | some color => openColor color ++ r.fragments.flatMap Fragment.write ++ closeColor

def write (runs : List Run) : List Char :=
  runs.flatMap Run.write

/-! ## Lines -/

/-- The runs of a line in the colours of a theme, and the depth behind it. -/
def colored (lang : Language) (theme : Theme) (depth : BracketDepth) (marks : List Mark)
    (line : List Char) : List Run × BracketDepth :=
  let (tokens, after) := Token.scan lang depth line
  (runsFrom theme marks 0 tokens, after)

/-- A line with its marks and no colours. -/
def uncolored (marks : List Mark) (line : List Char) : List Run :=
  [⟨none, fragments 0 line marks⟩]

/-- The markup of a line, and the depth behind it. -/
def renderLine (lang : Language) (theme : Theme) (depth : BracketDepth) (marks : List Mark)
    (line : List Char) : List Char × BracketDepth :=
  let (runs, after) := colored lang theme depth marks line
  (write runs, after)

/-- The markup of a line with its marks and no colours. -/
def renderPlain (marks : List Mark) (line : List Char) : List Char :=
  write (uncolored marks line)

/-- The marks of search matches, none of them emphasized. -/
def marksOf (hits : List Match) : List Mark :=
  hits.map fun m => ⟨m.start, m.stop, false⟩

/-- A line in the classic theme with every occurrence of `query` in it marked, and the depth behind
it. -/
def highlightLine (lang : Language) (query : List Char) (depth : BracketDepth)
    (line : List Char) : List Char × BracketDepth :=
  renderLine lang .classic depth (marksOf (Search.hits line query)) line

end Glance.Markup
