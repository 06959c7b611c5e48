import Glance.Proofs.Token.Grammar
import Mathlib.Data.List.TakeWhile

/-!
# The first token of a line

What starts a token is decided by its first character, apart from the two kinds of comment, so each
branch of `first` has an equation without the branches above it (`first_block`, …, `first_other`),
and one of them always applies (`start_cases`). `closeComment` and `closeString` stop at the first
end they meet, wherever the text is cut.
-/

namespace Glance.Token

variable {lang : Language} {depth : BracketDepth} {c : Char} {rest text : List Char}

/-! ## What starts a token -/

theorem startsBlock_iff :
    startsBlock lang text ↔ lang.hasBlockComments ∧ ['/', '*'] <+: text := by
  unfold startsBlock
  rw [Bool.and_eq_true, List.isPrefixOf_iff_prefix]

theorem startsLine_iff :
    startsLine lang text ↔ ∃ sign, lang.lineComment = some sign ∧ sign <+: text := by
  unfold startsLine
  cases lang.lineComment with
  | none => simp
  | some sign => simp

theorem startsComment_iff :
    StartsComment lang text ↔ startsBlock lang text ∨ startsLine lang text := by
  unfold StartsComment
  rw [startsBlock_iff, startsLine_iff]

theorem startsBlock_cons (h : startsBlock lang (c :: rest)) :
    c = '/' ∧ ∃ body, rest = '*' :: body := by
  obtain ⟨body, eq⟩ := (startsBlock_iff.mp h).2
  obtain ⟨rfl, rfl⟩ := List.cons.inj eq
  exact ⟨rfl, body, rfl⟩

theorem head_of_startsLine (h : startsLine lang (c :: rest)) : c = '/' ∨ c = '#' := by
  obtain ⟨sign, known, body, eq⟩ := startsLine_iff.mp h
  cases lang <;> cases known <;> obtain ⟨rfl, -⟩ := List.cons.inj eq
  · exact .inl rfl
  · exact .inr rfl
  · exact .inl rfl
  · exact .inr rfl

theorem not_startsBlock_of_startsLine (h : startsLine lang (c :: rest)) :
    ¬ startsBlock lang (c :: rest) := by
  intro block
  obtain ⟨rfl, body, rfl⟩ := startsBlock_cons block
  obtain ⟨sign, known, tail, eq⟩ := startsLine_iff.mp h
  cases lang <;> cases known <;> simp at eq

theorem head_of_startsComment (h : StartsComment lang (c :: rest)) : c = '/' ∨ c = '#' := by
  rcases startsComment_iff.mp h with block | line
  · exact .inl (startsBlock_cons block).1
  · exact head_of_startsLine line

/-- The characters that start a token of their own are no word characters. -/
theorem not_isWordChar {c : Char} (h : c ∈ ['/', '#', '"', '(', '[', '}', ')', ']', '{']) :
    ¬ Text.isWordChar c := by
  simp only [List.mem_cons, List.not_mem_nil, or_false] at h
  rcases h with rfl | rfl | rfl | rfl | rfl | rfl | rfl | rfl | rfl <;> decide

theorem isBracket_mem (h : isOpener c ∨ isCloser c) : c ∈ ['(', '[', '}', ')', ']', '{'] := by
  simp only [isOpener, isCloser, Bool.or_eq_true, beq_iff_eq] at h
  simp only [List.mem_cons, List.not_mem_nil, or_false]
  tauto

theorem not_isCloser_of_isOpener (h : isOpener c) : ¬ isCloser c := by
  simp only [isOpener, Bool.or_eq_true, beq_iff_eq] at h
  rcases h with (rfl | rfl) | rfl <;> decide

theorem not_startsComment_of_isBracket (h : isOpener c ∨ isCloser c) :
    ¬ StartsComment lang (c :: rest) ∧ c ≠ '"' := by
  have mem := isBracket_mem h
  constructor
  · intro comment
    rcases head_of_startsComment comment with rfl | rfl <;> simp at mem
  · rintro rfl
    simp at mem

theorem not_isWordChar_of_isBracket (h : isOpener c ∨ isCloser c) : ¬ Text.isWordChar c := by
  refine not_isWordChar ?_
  have mem := isBracket_mem h
  simp only [List.mem_cons, List.not_mem_nil, or_false] at mem ⊢
  tauto

theorem neutral_of_isWordChar (h : Text.isWordChar c) : Neutral lang c rest := by
  refine ⟨fun comment => ?_, ?_, fun opener => ?_, fun closer => ?_⟩
  · rcases head_of_startsComment comment with rfl | rfl <;> exact not_isWordChar (by simp) h
  · rintro rfl
    exact not_isWordChar (by simp) h
  · exact not_isWordChar_of_isBracket (.inl opener) h
  · exact not_isWordChar_of_isBracket (.inr closer) h

/-- One of the rules applies. -/
theorem start_cases (lang : Language) (c : Char) (rest : List Char) :
    startsBlock lang (c :: rest) ∨ startsLine lang (c :: rest) ∨ c = '"' ∨ Text.isWordChar c ∨
      isOpener c ∨ isCloser c ∨ (Neutral lang c rest ∧ ¬ Text.isWordChar c) := by
  unfold Neutral
  rw [startsComment_iff]
  tauto

/-! ## The rules -/

theorem first_block (h : startsBlock lang (c :: rest)) :
    first lang depth c rest =
      ⟨⟨.comment, '/' :: '*' :: (closeComment [] (rest.drop 1)).1⟩,
        (closeComment [] (rest.drop 1)).2, depth⟩ := by
  unfold first
  rw [if_pos h]

theorem first_line (h : startsLine lang (c :: rest)) :
    first lang depth c rest = ⟨⟨.comment, c :: rest⟩, [], depth⟩ := by
  unfold first
  rw [if_neg (not_startsBlock_of_startsLine h), if_pos h]

theorem first_of_not_startsComment (h : ¬ StartsComment lang (c :: rest)) :
    first lang depth c rest =
      if c = '"' then ⟨⟨.string, '"' :: (closeString rest).1⟩, (closeString rest).2, depth⟩
      else if Text.isWordChar c then
        ⟨⟨classify lang (c :: rest.takeWhile Text.isWordChar), c :: rest.takeWhile Text.isWordChar⟩,
          rest.dropWhile Text.isWordChar, depth⟩
      else if isOpener c then ⟨⟨.bracket depth.color, [c]⟩, rest, depth.opened⟩
      else if isCloser c then ⟨⟨.bracket depth.closed.color, [c]⟩, rest, depth.closed⟩
      else ⟨⟨.plain, [c]⟩, rest, depth⟩ := by
  rw [startsComment_iff, not_or] at h
  unfold first
  rw [if_neg h.1, if_neg h.2]

theorem first_quote :
    first lang depth '"' rest =
      ⟨⟨.string, '"' :: (closeString rest).1⟩, (closeString rest).2, depth⟩ := by
  rw [first_of_not_startsComment, if_pos rfl]
  intro comment
  rcases head_of_startsComment comment with h | h <;> cases h

theorem first_word (h : Text.isWordChar c) :
    first lang depth c rest =
      ⟨⟨classify lang (c :: rest.takeWhile Text.isWordChar), c :: rest.takeWhile Text.isWordChar⟩,
        rest.dropWhile Text.isWordChar, depth⟩ := by
  have neutral : Neutral lang c rest := neutral_of_isWordChar h
  rw [first_of_not_startsComment neutral.1, if_neg neutral.2.1, if_pos h]

theorem first_opener (h : isOpener c) :
    first lang depth c rest = ⟨⟨.bracket depth.color, [c]⟩, rest, depth.opened⟩ := by
  obtain ⟨comment, quote⟩ : ¬ StartsComment lang (c :: rest) ∧ c ≠ '"' :=
    not_startsComment_of_isBracket (.inl h)
  have word := not_isWordChar_of_isBracket (.inl h)
  rw [first_of_not_startsComment comment, if_neg quote, if_neg word, if_pos h]

theorem first_closer (h : isCloser c) :
    first lang depth c rest = ⟨⟨.bracket depth.closed.color, [c]⟩, rest, depth.closed⟩ := by
  obtain ⟨comment, quote⟩ : ¬ StartsComment lang (c :: rest) ∧ c ≠ '"' :=
    not_startsComment_of_isBracket (.inr h)
  have word := not_isWordChar_of_isBracket (.inr h)
  have opener : ¬ isOpener c := fun opener => not_isCloser_of_isOpener opener h
  rw [first_of_not_startsComment comment, if_neg quote, if_neg word, if_neg opener, if_pos h]

theorem first_other (neutral : Neutral lang c rest) (word : ¬ Text.isWordChar c) :
    first lang depth c rest = ⟨⟨.plain, [c]⟩, rest, depth⟩ := by
  rw [first_of_not_startsComment neutral.1, if_neg neutral.2.1, if_neg word,
    if_neg neutral.2.2.1, if_neg neutral.2.2.2]

/-! ## Ends of comments and strings -/

theorem closeComment_cons (h : ¬ ['*', '/'] <+: c :: rest) (seen : List Char) :
    closeComment seen (c :: rest) = closeComment (c :: seen) rest := by
  rw [closeComment]
  rintro tail rfl rfl
  exact h ⟨tail, rfl⟩

theorem closeComment_closed {inner : List Char} (h : ¬ ['*', '/'] <:+: inner ++ ['*'])
    (seen rest : List Char) :
    closeComment seen (inner ++ '*' :: '/' :: rest) =
      (seen.reverse ++ (inner ++ ['*', '/']), rest) := by
  induction inner generalizing seen with
  | nil => simp [closeComment]
  | cons c inner ih =>
    rw [List.cons_append, List.infix_cons_iff, not_or] at h
    -- A `*/` right here would lie in the first two characters, which `h` speaks about.
    have closed : ¬ ['*', '/'] <+: c :: (inner ++ '*' :: '/' :: rest) := by
      intro here
      have whole : c :: (inner ++ ['*']) <+: c :: (inner ++ '*' :: '/' :: rest) :=
        ⟨'/' :: rest, by simp⟩
      exact h.1 (List.prefix_of_prefix_length_le here whole (by simp))
    rw [List.cons_append, closeComment_cons closed, ih h.2]
    simp

theorem closeComment_open (h : ¬ ['*', '/'] <:+: text) (seen : List Char) :
    closeComment seen text = (seen.reverse ++ text, []) := by
  induction text generalizing seen with
  | nil => simp [closeComment]
  | cons c text ih =>
    rw [List.infix_cons_iff, not_or] at h
    rw [closeComment_cons h.1, ih h.2]
    simp

/-- A text has a first `*/`, or none. -/
theorem exists_first_close (text : List Char) :
    (∃ inner rest, text = inner ++ '*' :: '/' :: rest ∧ ¬ ['*', '/'] <:+: inner ++ ['*']) ∨
      ¬ ['*', '/'] <:+: text := by
  induction text with
  | nil => exact .inr (by simp)
  | cons c text ih =>
    by_cases here : ['*', '/'] <+: c :: text
    · obtain ⟨rest, eq⟩ := here
      refine .inl ⟨[], rest, eq.symm, fun h => ?_⟩
      have := h.length_le
      simp at this
    · rcases ih with ⟨inner, rest, rfl, clear⟩ | clear
      · refine .inl ⟨c :: inner, rest, rfl, ?_⟩
        rw [List.cons_append, List.infix_cons_iff, not_or]
        refine ⟨fun h => here (h.trans ⟨'/' :: rest, ?_⟩), clear⟩
        simp
      · right
        rw [List.infix_cons_iff, not_or]
        exact ⟨here, clear⟩

theorem not_quote (h : '"' ∉ text) : ∀ c ∈ text, (c != '"') = true := by
  intro c mem
  rw [bne_iff_ne]
  rintro rfl
  exact h mem

theorem closeString_closed {inner : List Char} (h : '"' ∉ inner) (rest : List Char) :
    closeString (inner ++ '"' :: rest) = (inner ++ ['"'], rest) := by
  unfold closeString
  rw [List.takeWhile_append_of_pos (not_quote h), List.dropWhile_append_of_pos (not_quote h)]
  simp

theorem closeString_open (h : '"' ∉ text) : closeString text = (text, []) := by
  unfold closeString
  rw [List.takeWhile_eq_self_iff.mpr (not_quote h), List.dropWhile_eq_nil_iff.mpr (not_quote h)]

end Glance.Token
