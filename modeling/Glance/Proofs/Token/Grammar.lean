import Glance.Document
import Glance.Proofs.Token.Words
import Glance.Token.Scan

/-!
# The grammar of a line

What it means for classified byte ranges to be the tokens of a line, said without scanning: each
range is judged by its own text, what lies before it and what lies behind it (`Fits`), the ranges
cover the line without gaps, plain ranges are as long as they can be, and the brackets take their
colours from the depth that runs through the line (`Depths`).

`Proofs.Token.Unique` shows that exactly one list of ranges satisfies it.
-/

namespace Glance

namespace Token

/-! ## Texts of tokens -/

/-- A comment of the language starts here. -/
def StartsComment (lang : Language) (text : List Char) : Prop :=
  (lang.hasBlockComments ∧ ['/', '*'] <+: text) ∨
    ∃ sign, lang.lineComment = some sign ∧ sign <+: text

/-- From `/*` to the first `*/` behind it, or to the end of the line if there is none. -/
def IsBlockComment (lang : Language) (text after : List Char) : Prop :=
  lang.hasBlockComments ∧ ∃ body, text = '/' :: '*' :: body ∧
    ((∃ inner, body = inner ++ ['*', '/'] ∧ ¬ ['*', '/'] <:+: inner ++ ['*']) ∨
      (after = [] ∧ ¬ ['*', '/'] <:+: body))

/-- From the sign of a line comment to the end of the line. -/
def IsLineComment (lang : Language) (text after : List Char) : Prop :=
  after = [] ∧ ∃ sign, lang.lineComment = some sign ∧ sign <+: text

/-- From a quote to the next one, or to the end of the line if there is none. -/
def IsQuoted (text after : List Char) : Prop :=
  ∃ body, text = '"' :: body ∧
    ((∃ inner, body = inner ++ ['"'] ∧ '"' ∉ inner) ∨ (after = [] ∧ '"' ∉ body))

/-- Neither a comment nor a quoted string starts here, and no bracket stands here. -/
def Neutral (lang : Language) (c : Char) (rest : List Char) : Prop :=
  ¬ StartsComment lang (c :: rest) ∧ c ≠ '"' ∧ ¬ isOpener c ∧ ¬ isCloser c

/-- Nothing but plain words and other neutral characters; a word that begins or ends elsewhere does
not reach into the text. -/
structure IsPlain (lang : Language) (before text after : List Char) : Prop where
  neutral : ∀ k < text.length, ∀ c rest, (text ++ after).drop k = c :: rest → Neutral lang c rest
  words : ∀ i j, WordRun (before ++ text ++ after) i j →
    i < before.length + text.length → before.length < j →
    before.length ≤ i ∧ j ≤ before.length + text.length ∧
      classify lang (((before ++ text ++ after).take j).drop i) = .plain

/-- The text can have the kind, in its place on the line. -/
def Fits (lang : Language) (before text after : List Char) : TokenKind → Prop
  | .comment => IsBlockComment lang text after ∨ IsLineComment lang text after
  | .string => IsQuoted text after
  | .bracket _ => ∃ c, text = [c] ∧ (isOpener c ∨ isCloser c)
  | .plain => IsPlain lang before text after
  | kind => IsWord before text after ∧ classify lang text = kind

/-! ## Depths -/

/-- An opener has the colour of the depth before it and a closer that of the depth behind it; a
token that is no bracket leaves the depth alone. -/
inductive Steps : BracketDepth → Token → BracketDepth → Prop
  | opener {depth : BracketDepth} {c : Char} :
    isOpener c → Steps depth ⟨.bracket depth.color, [c]⟩ depth.opened
  | closer {depth : BracketDepth} {c : Char} :
    isCloser c → Steps depth ⟨.bracket depth.closed.color, [c]⟩ depth.closed
  | other {depth : BracketDepth} {t : Token} :
    (∀ color, t.kind ≠ .bracket color) → Steps depth t depth

end Token

/-! ## Ranges of a line -/

/-- A classified range of a line, in bytes of its UTF-8 form. -/
structure Span where
  kind : TokenKind
  start : ℕ
  stop : ℕ
  deriving DecidableEq, Repr

namespace Span

/-- Both ends of the span lie between characters of the line, and this is how they cut it. -/
structure Cuts (s : Span) (line before text after : List Char) : Prop where
  line_eq : line = before ++ text ++ after
  start_eq : Document.utf8Length before = s.start
  stop_eq : Document.utf8Length (before ++ text) = s.stop

/-- The spans are not empty, and each begins where the one before it ends. -/
def Cover : (start stop : ℕ) → List Span → Prop
  | start, stop, [] => start = stop
  | start, stop, s :: rest => s.start = start ∧ s.start < s.stop ∧ Cover s.stop stop rest

/-- Going through the spans, each takes its step from the depth before it to the depth behind it. -/
inductive Depths (line : List Char) : BracketDepth → List Span → BracketDepth → Prop
  | nil {depth : BracketDepth} : Depths line depth [] depth
  | cons {depth next last : BracketDepth} {s : Span} {spans : List Span}
      {before text after : List Char} :
    s.Cuts line before text after → Token.Steps depth ⟨s.kind, text⟩ next →
    Depths line next spans last → Depths line depth (s :: spans) last

/-- The spans are the tokens of the line from `start` on, between the first depth and the last. -/
structure Grammar (lang : Language) (line : List Char) (start : ℕ) (depth : BracketDepth)
    (spans : List Span) (last : BracketDepth) : Prop where
  cover : Cover start (Document.utf8Length line) spans
  cuts : ∀ s ∈ spans, ∃ before text after, s.Cuts line before text after
  apart : spans.IsChain fun s next => ¬ (s.kind = .plain ∧ next.kind = .plain)
  fits : ∀ s ∈ spans, ∀ before text after, s.Cuts line before text after →
    Token.Fits lang before text after s.kind
  depths : Depths line depth spans last

/-- Tokens as ranges, the first of which begins at `start`. -/
def ofTokens (start : ℕ) : List Token → List Span
  | [] => []
  | t :: rest =>
    ⟨t.kind, start, start + Document.utf8Length t.text⟩ ::
      ofTokens (start + Document.utf8Length t.text) rest

end Span

end Glance
