import Glance.Proofs.Token.Tiling

/-!
# Cutting a line between tokens

The tokens of a line up to a place where no word is cut in two are the tokens of that much of the
line, and the depth there is the one behind it (`scan_cut`): what fits in front of a text fits in
front of less of it. The depth itself follows from the tokens alone (`depthThrough`).
-/

namespace Glance.Token

variable {lang : Language} {kind : TokenKind} {depth next last : BracketDepth}
  {before text after more line : List Char} {t : Token} {tokens rest : List Token}
  {c : Char} {i j k : ℕ}

/-! ## Words -/

theorem IsWordAt.lt (h : IsWordAt text k) : k < text.length := by
  obtain ⟨c, eq, -⟩ := h
  exact (List.getElem?_eq_some_iff.mp eq).1

theorem WordRun.stop_le_length (run : WordRun line i j) : j ≤ line.length := by
  have lt := run.lt
  have := (run.inside (j - 1) (by omega) (by omega)).lt
  omega

theorem WordRun.of_append (run : WordRun (line ++ more) i j) (le : j ≤ line.length) :
    WordRun line i j := by
  have lt := run.lt
  refine ⟨lt, ?_, ?_, ?_⟩
  · intro k low high
    rw [← isWordAt_append_left (by omega)]
    exact run.inside k low high
  · intro k eq word
    rw [← isWordAt_append_left word.lt] at word
    exact run.left k eq word
  · intro word
    rw [← isWordAt_append_left word.lt] at word
    exact run.right word

theorem WordRun.append (apart : Apart line more) (run : WordRun line i j) :
    WordRun (line ++ more) i j := by
  have lt := run.lt
  have stop := run.stop_le_length
  refine ⟨lt, ?_, ?_, ?_⟩
  · intro k low high
    rw [isWordAt_append_left (by omega)]
    exact run.inside k low high
  · intro k eq
    rw [isWordAt_append_left (by omega)]
    exact run.left k eq
  · by_cases ends : j = line.length
    · rw [ends, isWordAt_length]
      exact apart (j - 1) (by omega) (run.inside (j - 1) (by omega) (by omega))
    · rw [isWordAt_append_left (by omega)]
      exact run.right

/-! ## Texts that fit -/

theorem StartsComment.append (starts : StartsComment lang text) (more : List Char) :
    StartsComment lang (text ++ more) := by
  rcases starts with ⟨known, block⟩ | ⟨sign, known, line⟩
  · exact .inl ⟨known, block.trans (List.prefix_append _ _)⟩
  · exact .inr ⟨sign, known, line.trans (List.prefix_append _ _)⟩

theorem IsPlain.cut (apart : Apart (before ++ text ++ after) more)
    (plain : IsPlain lang before text (after ++ more)) : IsPlain lang before text after := by
  constructor
  · intro k lt c rest eq
    have longer : (text ++ (after ++ more)).drop k = c :: (rest ++ more) := by
      have inside : k ≤ (text ++ after).length := by
        rw [List.length_append]
        omega
      rw [← List.append_assoc, List.drop_append_of_le_length inside, eq]
      rfl
    obtain ⟨comment, others⟩ := plain.neutral k lt c _ longer
    exact ⟨fun starts => comment (starts.append more), others⟩
  · intro i j run low high
    have words := plain.words i j
    rw [← List.append_assoc] at words
    obtain ⟨start, stop, kind⟩ := words (run.append apart) low high
    refine ⟨start, stop, ?_⟩
    rwa [List.take_append_of_le_length run.stop_le_length] at kind

theorem IsWord.cut (word : IsWord before text (after ++ more)) : IsWord before text after := by
  unfold IsWord at word ⊢
  rw [← List.append_assoc] at word
  refine word.of_append ?_
  simp only [List.length_append]
  omega

/-- What ends with its line fits there only if nothing is left of the line. -/
theorem Fits.cut (apart : Apart (before ++ text ++ after) more)
    (fits : Fits lang before text (after ++ more) kind) : Fits lang before text after kind := by
  by_cases nothing : more = []
  · rwa [nothing, List.append_nil] at fits
  have goes_on : after ++ more ≠ [] := List.append_ne_nil_of_right_ne_nil _ nothing
  cases kind with
  | plain => exact IsPlain.cut apart fits
  | comment =>
    rcases fits with ⟨known, body, eq, closed | ⟨ends, -⟩⟩ | ⟨ends, -⟩
    · exact .inl ⟨known, body, eq, .inl closed⟩
    · exact absurd ends goes_on
    · exact absurd ends goes_on
  | string =>
    obtain ⟨body, eq, closed | ⟨ends, -⟩⟩ := fits
    · exact ⟨body, eq, .inl closed⟩
    · exact absurd ends goes_on
  | bracket color => exact fits
  | keyword => exact ⟨IsWord.cut fits.1, fits.2⟩
  | number => exact ⟨IsWord.cut fits.1, fits.2⟩
  | boolean => exact ⟨IsWord.cut fits.1, fits.2⟩

/-! ## Depths -/

/-- The depth behind a token. -/
def depthBehind (depth : BracketDepth) (t : Token) : BracketDepth :=
  match t.kind with
  | .bracket _ => if t.text.any isOpener then depth.opened else depth.closed
  | _ => depth

/-- The depth behind tokens. -/
def depthThrough (depth : BracketDepth) (tokens : List Token) : BracketDepth :=
  tokens.foldl depthBehind depth

theorem Steps.next_eq (steps : Steps depth t next) : next = depthBehind depth t := by
  cases steps with
  | opener opener => simp [depthBehind, opener]
  | closer closer =>
    have : ¬ isOpener _ := fun opener => not_isCloser_of_isOpener opener closer
    simp [depthBehind, this]
  | other no =>
    unfold depthBehind
    split
    · rename_i color kind
      exact absurd kind (no color)
    · rfl

theorem Tiles.last_eq (tiles : Tiles lang before depth tokens last) :
    last = depthThrough depth tokens := by
  induction tiles with
  | nil => rfl
  | cons _ _ steps _ _ ih =>
    obtain rfl := steps.next_eq
    exact ih

theorem Tiles.behind (tiles : Tiles lang before depth (tokens ++ rest) last) :
    Tiles lang (before ++ tokens.flatMap Token.text) (depthThrough depth tokens) rest last := by
  induction tokens generalizing before depth with
  | nil => simpa [depthThrough] using tiles
  | cons t tokens ih =>
    rw [List.cons_append] at tiles
    cases tiles with
    | cons _ _ steps _ tiles =>
      obtain rfl := steps.next_eq
      rw [List.flatMap_cons, ← List.append_assoc]
      exact ih tiles

theorem Tiles.cut (apart : Apart (before ++ tokens.flatMap Token.text) (rest.flatMap Token.text))
    (tiles : Tiles lang before depth (tokens ++ rest) last) :
    Tiles lang before depth tokens (depthThrough depth tokens) := by
  induction tokens generalizing before depth with
  | nil => exact .nil
  | cons t tokens ih =>
    rw [List.cons_append] at tiles
    cases tiles with
    | cons ne fits steps separate tiles =>
      obtain rfl := steps.next_eq
      rw [List.flatMap_cons, ← List.append_assoc] at apart
      rw [List.flatMap_append] at fits
      refine .cons ne (Fits.cut apart fits) steps ?_ (ih apart tiles)
      intro u known
      refine separate u ?_
      rw [List.head?_append, Option.mem_def.mp known]
      rfl

/-- The tokens up to a place where a line can be cut are those of that much of the line. -/
theorem scan_cut (apart : Apart (tokens.flatMap Token.text) (rest.flatMap Token.text))
    (tiles : Tiles lang [] depth (tokens ++ rest) last) :
    scan lang depth (tokens.flatMap Token.text) = (tokens, depthThrough depth tokens) :=
  (tiles.cut apart).scan_eq (.nil _)

/-- A line can be cut before each of its brackets, and behind it. -/
theorem scan_bracket {color : Fin bracketColors} (kind : t.kind = .bracket color)
    (tiles : Tiles lang [] depth (tokens ++ t :: rest) last) :
    (scan lang depth (tokens.flatMap Token.text)).2 = depthThrough depth tokens ∧
      (scan lang depth (tokens.flatMap Token.text ++ t.text)).2 =
        depthThrough depth (tokens ++ [t]) ∧
      Steps (depthThrough depth tokens) t (depthThrough depth (tokens ++ [t])) := by
  cases tiles.behind with
  | cons _ fits steps =>
    rw [kind] at fits
    obtain ⟨c, single, bracket⟩ := fits
    have word := not_isWordChar_of_isBracket bracket
    have before : Apart (tokens.flatMap Token.text) ((t :: rest).flatMap Token.text) := by
      refine .of_right ?_
      rw [List.flatMap_cons, single, List.singleton_append, isWordAt_zero]
      exact word
    have behind : Apart ((tokens ++ [t]).flatMap Token.text) (rest.flatMap Token.text) := by
      rw [List.flatMap_append, List.flatMap_singleton, single]
      exact .snoc word
    refine ⟨by rw [scan_cut before tiles], ?_, ?_⟩
    · rw [← List.singleton_append, ← List.append_assoc] at tiles
      rw [← List.flatMap_singleton Token.text t, ← List.flatMap_append, scan_cut behind tiles]
    · rw [steps.next_eq] at steps
      rwa [depthThrough, depthThrough, List.foldl_append]

end Glance.Token
