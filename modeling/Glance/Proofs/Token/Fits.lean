import Glance.Proofs.Token.First

/-!
# The first token fits

`first` cuts off a token that fits its place (`sound_first`), and no other token than the one it
cuts off fits there (`Fits.first_eq`), except that a plain stretch may be longer than the piece that
is cut off from it (`IsPlain.first_eq`).
-/

namespace Glance.Token

variable {lang : Language} {depth next : BracketDepth} {kind : TokenKind} {c : Char}
  {before text more after rest : List Char} {t : Token} {color : Fin bracketColors}

/-! ## Plain stretches -/

theorem IsPlain.append (plain : IsPlain lang before text (more ++ after))
    (plain' : IsPlain lang (before ++ text) more after) :
    IsPlain lang before (text ++ more) after := by
  constructor
  · intro k lt c rest eq
    rw [List.length_append] at lt
    rw [List.append_assoc] at eq
    by_cases inside : k < text.length
    · exact plain.neutral k inside c rest eq
    · obtain ⟨m, rfl⟩ := Nat.exists_eq_add_of_le (not_lt.mp inside)
      rw [List.drop_length_add_append] at eq
      exact plain'.neutral m (by omega) c rest eq
  · intro i j run low high
    have lt := run.lt
    have words := plain.words i j
    have words' := plain'.words i j
    simp only [List.length_append, List.append_assoc] at *
    by_cases inside : i < before.length + text.length
    · obtain ⟨start, stop, kind⟩ := words run inside high
      exact ⟨start, by omega, kind⟩
    · obtain ⟨start, stop, kind⟩ := words' run (by omega) (by omega)
      exact ⟨by omega, by omega, kind⟩

theorem IsPlain.suffix (plain : IsPlain lang before (text ++ more) after)
    (apart : Apart (before ++ text) (more ++ after)) :
    IsPlain lang (before ++ text) more after := by
  constructor
  · intro k lt c rest eq
    refine plain.neutral (text.length + k) (by rw [List.length_append]; omega) c rest ?_
    rw [List.append_assoc, List.drop_length_add_append]
    exact eq
  · intro i j run low high
    have words := plain.words i j
    have cut : i < (before ++ text).length → j ≤ (before ++ text).length := by
      rw [List.append_assoc] at run
      exact apart.stop_le run
    simp only [List.length_append, List.append_assoc] at *
    obtain ⟨start, stop, kind⟩ := words run (by omega) (by omega)
    exact ⟨by omega, by omega, kind⟩

/-- A character of no word is plain where nothing else starts. -/
theorem isPlain_single (neutral : Neutral lang c after) (word : ¬ Text.isWordChar c) :
    IsPlain lang before [c] after := by
  constructor
  · intro k lt c' rest eq
    obtain rfl : k = 0 := by simpa using lt
    obtain ⟨rfl, rfl⟩ := List.cons.inj eq
    exact neutral
  · intro i j run low high
    rw [List.length_singleton] at low
    have here := run.inside before.length (by omega) high
    rw [List.append_assoc, isWordAt_length] at here
    exact absurd (isWordAt_zero.mp here) word

theorem drop_take_middle (before text after : List Char) :
    ((before ++ text ++ after).take (before.length + text.length)).drop before.length = text := by
  rw [List.append_assoc, List.take_length_add_append, List.take_left, List.drop_left]

/-- A whole word is plain when it is classified so. -/
theorem isPlain_word (word : IsWord before text after) (plain : classify lang text = .plain) :
    IsPlain lang before text after := by
  constructor
  · intro k lt c rest eq
    rw [List.drop_append_of_le_length lt.le, List.drop_eq_getElem_cons lt] at eq
    obtain ⟨rfl, -⟩ := List.cons.inj eq
    exact neutral_of_isWordChar (word.forall _ (List.getElem_mem lt))
  · intro i j run low high
    obtain ⟨rfl, rfl⟩ := run.unique word low high
    refine ⟨le_rfl, le_rfl, ?_⟩
    rw [drop_take_middle]
    exact plain

theorem classify_cases (lang : Language) (word : List Char) :
    classify lang word = .keyword ∨ classify lang word = .boolean ∨
      classify lang word = .number ∨ classify lang word = .plain := by
  unfold classify
  split_ifs <;> simp

theorem fits_word (word : IsWord before text after) :
    Fits lang before text after (classify lang text) := by
  rcases classify_cases lang text with kind | kind | kind | kind <;> rw [kind]
  · exact ⟨word, kind⟩
  · exact ⟨word, kind⟩
  · exact ⟨word, kind⟩
  · exact isPlain_word word kind

/-! ## Depths -/

theorem Steps.eq_of_ne (steps : Steps depth t next) (h : ∀ color, t.kind ≠ .bracket color) :
    next = depth := by
  cases steps with
  | opener => exact absurd rfl (h _)
  | closer => exact absurd rfl (h _)
  | other => rfl

theorem steps_word (lang : Language) (depth : BracketDepth) (word : List Char) :
    Steps depth ⟨classify lang word, word⟩ depth := by
  refine .other fun color => ?_
  rcases classify_cases lang word with kind | kind | kind | kind <;> simp [kind]

/-! ## The token that is cut off -/

/-- What is cut off a text is a token that fits there, and the next one can start behind it. -/
structure Cut.Sound (lang : Language) (before text : List Char) (depth : BracketDepth) (cut : Cut) :
    Prop where
  text_eq : text = cut.token.text ++ cut.rest
  ne_nil : cut.token.text ≠ []
  fits : Fits lang before cut.token.text cut.rest cut.token.kind
  steps : Steps depth cut.token cut.depth
  apart : Apart (before ++ cut.token.text) cut.rest

theorem sound_block (h : startsBlock lang (c :: rest)) :
    (first lang depth c rest).Sound lang before (c :: rest) depth := by
  rw [first_block h]
  have known := (startsBlock_iff.mp h).1
  obtain ⟨rfl, body, rfl⟩ := startsBlock_cons h
  rw [List.drop_one, List.tail_cons]
  rcases exists_first_close body with ⟨inner, after, rfl, clear⟩ | clear
  · rw [closeComment_closed clear, List.reverse_nil, List.nil_append]
    refine ⟨by simp, by simp, .inl ⟨known, _, rfl, .inl ⟨inner, rfl, clear⟩⟩, .other (by simp), ?_⟩
    have ends : before ++ '/' :: '*' :: (inner ++ ['*', '/']) =
        before ++ '/' :: '*' :: (inner ++ ['*']) ++ ['/'] := by simp
    show Apart (before ++ '/' :: '*' :: (inner ++ ['*', '/'])) after
    rw [ends]
    exact .snoc (not_isWordChar (by simp))
  · rw [closeComment_open clear, List.reverse_nil, List.nil_append]
    exact ⟨by simp, by simp, .inl ⟨known, _, rfl, .inr ⟨rfl, clear⟩⟩, .other (by simp),
      .of_right not_isWordAt_nil⟩

theorem sound_line (h : startsLine lang (c :: rest)) :
    (first lang depth c rest).Sound lang before (c :: rest) depth := by
  rw [first_line h]
  exact ⟨by simp, by simp, .inr ⟨rfl, startsLine_iff.mp h⟩, .other (by simp),
    .of_right not_isWordAt_nil⟩

theorem sound_quote : (first lang depth '"' rest).Sound lang before ('"' :: rest) depth := by
  rw [first_quote]
  by_cases quote : '"' ∈ rest
  · obtain ⟨inner, after, rfl, clear⟩ := List.eq_append_cons_of_mem quote
    rw [closeString_closed clear]
    refine ⟨by simp, by simp, ⟨_, rfl, .inl ⟨inner, rfl, clear⟩⟩, .other (by simp), ?_⟩
    have ends : before ++ '"' :: (inner ++ ['"']) = before ++ '"' :: inner ++ ['"'] := by simp
    show Apart (before ++ '"' :: (inner ++ ['"'])) after
    rw [ends]
    exact .snoc (not_isWordChar (by simp))
  · rw [closeString_open quote]
    exact ⟨by simp, by simp, ⟨_, rfl, .inr ⟨rfl, quote⟩⟩, .other (by simp),
      .of_right not_isWordAt_nil⟩

theorem split_word (c : Char) (rest : List Char) :
    c :: rest =
      (c :: rest.takeWhile Text.isWordChar) ++ rest.dropWhile Text.isWordChar := by
  rw [List.cons_append, List.takeWhile_append_dropWhile]

theorem isWord_takeWhile (apart : Apart before (c :: rest)) (h : Text.isWordChar c) :
    IsWord before (c :: rest.takeWhile Text.isWordChar) (rest.dropWhile Text.isWordChar) := by
  rw [split_word c rest] at apart
  refine apart.isWord (by simp) (fun a mem => ?_) (not_isWordAt_dropWhile rest)
  rcases List.mem_cons.mp mem with rfl | mem
  · exact h
  · exact List.mem_takeWhile_imp mem

theorem sound_word (apart : Apart before (c :: rest)) (h : Text.isWordChar c) :
    (first lang depth c rest).Sound lang before (c :: rest) depth := by
  rw [first_word h]
  exact ⟨split_word c rest, by simp, fits_word (isWord_takeWhile apart h), steps_word lang depth _,
    .of_right (not_isWordAt_dropWhile rest)⟩

theorem sound_opener (h : isOpener c) :
    (first lang depth c rest).Sound lang before (c :: rest) depth := by
  rw [first_opener h]
  exact ⟨rfl, by simp, ⟨c, rfl, .inl h⟩, .opener h, .snoc (not_isWordChar_of_isBracket (.inl h))⟩

theorem sound_closer (h : isCloser c) :
    (first lang depth c rest).Sound lang before (c :: rest) depth := by
  rw [first_closer h]
  exact ⟨rfl, by simp, ⟨c, rfl, .inr h⟩, .closer h, .snoc (not_isWordChar_of_isBracket (.inr h))⟩

theorem sound_other (neutral : Neutral lang c rest) (word : ¬ Text.isWordChar c) :
    (first lang depth c rest).Sound lang before (c :: rest) depth := by
  rw [first_other neutral word]
  exact ⟨rfl, by simp, isPlain_single neutral word, .other (by simp), .snoc word⟩

theorem sound_first (lang : Language) (depth : BracketDepth) (apart : Apart before (c :: rest)) :
    (first lang depth c rest).Sound lang before (c :: rest) depth := by
  rcases start_cases lang c rest with h | h | rfl | h | h | h | ⟨neutral, word⟩
  · exact sound_block h
  · exact sound_line h
  · exact sound_quote
  · exact sound_word apart h
  · exact sound_opener h
  · exact sound_closer h
  · exact sound_other neutral word

/-! ## No other token fits -/

theorem IsBlockComment.first_eq (block : IsBlockComment lang (c :: text) after) :
    first lang depth c (text ++ after) = ⟨⟨.comment, c :: text⟩, after, depth⟩ := by
  obtain ⟨known, body, eq, ends⟩ := block
  obtain ⟨rfl, rfl⟩ := List.cons.inj eq
  rw [first_block (startsBlock_iff.mpr ⟨known, body ++ after, by simp⟩), List.cons_append,
    List.drop_one, List.tail_cons]
  rcases ends with ⟨inner, rfl, clear⟩ | ⟨rfl, clear⟩
  · rw [List.append_assoc]
    show Cut.mk ⟨.comment, '/' :: '*' :: (closeComment [] (inner ++ '*' :: '/' :: after)).1⟩
      (closeComment [] (inner ++ '*' :: '/' :: after)).2 depth = _
    rw [closeComment_closed clear]
    rfl
  · rw [List.append_nil, closeComment_open clear]
    rfl

theorem IsLineComment.first_eq (line : IsLineComment lang (c :: text) after) :
    first lang depth c (text ++ after) = ⟨⟨.comment, c :: text⟩, after, depth⟩ := by
  obtain ⟨rfl, sign⟩ := line
  rw [List.append_nil, first_line (startsLine_iff.mpr sign)]

theorem IsQuoted.first_eq (quoted : IsQuoted (c :: text) after) :
    first lang depth c (text ++ after) = ⟨⟨.string, c :: text⟩, after, depth⟩ := by
  obtain ⟨body, eq, ends⟩ := quoted
  obtain ⟨rfl, rfl⟩ := List.cons.inj eq
  rw [first_quote]
  rcases ends with ⟨inner, rfl, clear⟩ | ⟨rfl, clear⟩
  · rw [List.append_assoc, List.singleton_append, closeString_closed clear]
  · rw [List.append_nil, closeString_open clear]

theorem IsWord.first_eq (word : IsWord before (c :: text) after) :
    first lang depth c (text ++ after) =
      ⟨⟨classify lang (c :: text), c :: text⟩, after, depth⟩ := by
  have chars := word.forall
  obtain ⟨take, drop⟩ := takeWhile_word (fun a mem => chars a (.tail c mem)) word.not_after
  rw [first_word (chars c (.head text)), take, drop]

theorem Steps.first_eq (steps : Steps depth ⟨.bracket color, c :: text⟩ next) :
    first lang depth c (text ++ after) = ⟨⟨.bracket color, c :: text⟩, after, next⟩ := by
  cases steps with
  | opener h => exact first_opener h
  | closer h => exact first_closer h
  | other h => exact absurd rfl (h color)

theorem Fits.first_eq (fits : Fits lang before (c :: text) after kind) (ne : kind ≠ .plain)
    (steps : Steps depth ⟨kind, c :: text⟩ next) :
    first lang depth c (text ++ after) = ⟨⟨kind, c :: text⟩, after, next⟩ := by
  cases kind with
  | plain => exact absurd rfl ne
  | bracket color => exact steps.first_eq
  | comment =>
    rw [steps.eq_of_ne (by simp)]
    exact fits.elim IsBlockComment.first_eq IsLineComment.first_eq
  | string =>
    rw [steps.eq_of_ne (by simp)]
    exact IsQuoted.first_eq fits
  | keyword =>
    rw [steps.eq_of_ne (by simp), fits.1.first_eq, fits.2]
  | number =>
    rw [steps.eq_of_ne (by simp), fits.1.first_eq, fits.2]
  | boolean =>
    rw [steps.eq_of_ne (by simp), fits.1.first_eq, fits.2]

/-- A plain stretch begins with the plain piece that is cut off there: a word that starts in it
stays in it. -/
theorem IsPlain.first_eq (plain : IsPlain lang before (c :: text) after)
    (apart : Apart before (c :: (text ++ after))) :
    ∃ word more, c :: text = word ++ more ∧ word ≠ [] ∧
      first lang depth c (text ++ after) = ⟨⟨.plain, word⟩, more ++ after, depth⟩ := by
  have neutral : Neutral lang c (text ++ after) := plain.neutral 0 (by simp) c _ rfl
  by_cases h : Text.isWordChar c
  · have word := isWord_takeWhile apart h
    have split := split_word c (text ++ after)
    rw [first_word h]
    generalize c :: (text ++ after).takeWhile Text.isWordChar = piece at *
    generalize (text ++ after).dropWhile Text.isWordChar = ahead at *
    have line : before ++ (c :: text) ++ after = before ++ piece ++ ahead := by
      rw [List.append_assoc, List.append_assoc, List.cons_append, split]
    have pos := word.lt
    -- The word is one of the line and meets the plain text, so it does not reach out of it.
    obtain ⟨-, stop, kind⟩ :=
      plain.words before.length (before.length + piece.length) (line ▸ word) (by simp) pos
    obtain ⟨more, eq⟩ : piece <+: c :: text :=
      List.prefix_of_prefix_length_le ⟨ahead, split.symm⟩ ⟨after, rfl⟩ (by omega)
    refine ⟨piece, more, eq.symm, fun nil => ?_, ?_⟩
    · simp [nil] at pos
    · rw [line, drop_take_middle] at kind
      rw [← List.cons_append, ← eq, List.append_assoc] at split
      rw [kind, List.append_cancel_left split]
  · exact ⟨[c], text, rfl, by simp, first_other neutral h⟩

end Glance.Token
