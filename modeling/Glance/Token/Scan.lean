import Glance.Token
import Glance.Text.WordChar

/-!
# Scanning a line

A line is cut from left to right. At every place the first of these applies: a block comment, a line
comment, a quoted string, a word, a bracket, any other character. What has no end on the line runs
to the end of the line, so every line can be cut. Neighbouring plain stretches become one token.

The bracket depth is all that one line hands to the next.
-/

namespace Glance.Token

/-- The first token of a line, what follows it, and the depth behind it. -/
structure Cut where
  token : Token
  rest : List Char
  depth : BracketDepth

/-! ## Stretches with an end of their own -/

/-- The text up to and including the first `*/`, and what follows; all of it when there is none.
`seen` is what was passed so far, last character first. -/
def closeComment (seen : List Char) : List Char → List Char × List Char
  | '*' :: '/' :: rest => (('/' :: '*' :: seen).reverse, rest)
  | c :: rest => closeComment (c :: seen) rest
  | [] => (seen.reverse, [])

/-- The text up to and including the next quote, and what follows. -/
def closeString (text : List Char) : List Char × List Char :=
  let inside := text.takeWhile (· != '"')
  match text.dropWhile (· != '"') with
  | [] => (inside, [])
  | quote :: rest => (inside ++ [quote], rest)

/-- A block comment of the language starts here. -/
def startsBlock (lang : Language) (text : List Char) : Bool :=
  lang.hasBlockComments && ['/', '*'].isPrefixOf text

/-- A line comment of the language starts here. -/
def startsLine (lang : Language) (text : List Char) : Bool :=
  match lang.lineComment with
  | some sign => sign.isPrefixOf text
  | none => false

/-! ## One token -/

/-- Cuts the first token off the line `c :: rest`. -/
def first (lang : Language) (depth : BracketDepth) (c : Char) (rest : List Char) : Cut :=
  if startsBlock lang (c :: rest) then
    let (body, after) := closeComment [] (rest.drop 1)
    ⟨⟨.comment, '/' :: '*' :: body⟩, after, depth⟩
  else if startsLine lang (c :: rest) then
    ⟨⟨.comment, c :: rest⟩, [], depth⟩
  else if c = '"' then
    let (body, after) := closeString rest
    ⟨⟨.string, '"' :: body⟩, after, depth⟩
  else if Text.isWordChar c then
    let word := c :: rest.takeWhile Text.isWordChar
    ⟨⟨classify lang word, word⟩, rest.dropWhile Text.isWordChar, depth⟩
  else if isOpener c then
    ⟨⟨.bracket depth.color, [c]⟩, rest, depth.opened⟩
  else if isCloser c then
    ⟨⟨.bracket depth.closed.color, [c]⟩, rest, depth.closed⟩
  else
    ⟨⟨.plain, [c]⟩, rest, depth⟩

theorem length_closeComment_le (seen text : List Char) :
    (closeComment seen text).2.length ≤ text.length := by
  fun_induction closeComment seen text with
  | case1 => simp only [List.length_cons]; omega
  | case2 _ _ _ _ ih => simp only [List.length_cons]; omega
  | case3 => simp

theorem length_dropWhile_le (p : Char → Bool) (text : List Char) :
    (text.dropWhile p).length ≤ text.length :=
  (List.dropWhile_suffix p).length_le

theorem length_closeString_le (text : List Char) :
    (closeString text).2.length ≤ text.length := by
  have h := length_dropWhile_le (· != '"') text
  unfold closeString
  split
  · simp
  · rename_i e
    simp only [e, List.length_cons] at h
    simp only
    omega

theorem length_first_rest_le (lang : Language) (depth : BracketDepth) (c : Char)
    (rest : List Char) : (first lang depth c rest).rest.length ≤ rest.length := by
  unfold first
  split
  · have := length_closeComment_le [] (rest.drop 1)
    simp only [List.length_drop] at this
    exact Nat.le_trans this (Nat.sub_le _ _)
  · split
    · simp
    · split
      · exact length_closeString_le rest
      · split
        · exact length_dropWhile_le _ _
        · split
          · exact Nat.le_refl _
          · split <;> exact Nat.le_refl _

/-! ## A whole line -/

/-- Cuts a line into tokens, plain stretches still in pieces. `done` holds the tokens so far, last
first. -/
def pieces (lang : Language) (done : List Token) (depth : BracketDepth) :
    List Char → List Token × BracketDepth
  | [] => (done.reverse, depth)
  | c :: rest =>
    let cut := first lang depth c rest
    pieces lang (cut.token :: done) cut.depth cut.rest
  termination_by line => line.length
  decreasing_by
    have := length_first_rest_le lang depth c rest
    simp only [List.length_cons]
    omega

/-- Puts a token in front of a line, as part of its first token when both are plain. -/
def consMerged (t : Token) : List Token → List Token
  | [] => [t]
  | next :: rest =>
    if t.kind = .plain ∧ next.kind = .plain then ⟨.plain, t.text ++ next.text⟩ :: rest
    else t :: next :: rest

/-- Makes neighbouring plain tokens one. -/
def merge (tokens : List Token) : List Token :=
  tokens.foldr consMerged []

/-- The tokens of a line, and the depth behind it. -/
def scan (lang : Language) (depth : BracketDepth) (line : List Char) :
    List Token × BracketDepth :=
  let (tokens, after) := pieces lang [] depth line
  (merge tokens, after)

end Glance.Token
