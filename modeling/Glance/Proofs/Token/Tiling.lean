import Glance.Proofs.Token.Fits

/-!
# Tilings of a line

A tiling is a list of tokens each of which fits in front of those behind it. The scan finds one
(`tiles_scan`), and there is no other (`Tiles.scan_eq`): both follow the tokens from the left, and
what is behind a token is tiled on its own because no word reaches across its end.
-/

namespace Glance.Token

variable {lang : Language} {depth next last : BracketDepth} {before line text : List Char}
  {t : Token} {tokens : List Token} {c : Char} {rest : List Char}

/-- The tokens follow the text `before` and are those of the rest of its line, from the first depth
to the last. -/
inductive Tiles (lang : Language) : List Char → BracketDepth → List Token → BracketDepth → Prop
  | nil {before : List Char} {depth : BracketDepth} : Tiles lang before depth [] depth
  | cons {before : List Char} {depth next last : BracketDepth} {t : Token} {tokens : List Token} :
    t.text ≠ [] → Fits lang before t.text (tokens.flatMap Token.text) t.kind →
    Steps depth t next → (∀ u ∈ tokens.head?, ¬ (t.kind = .plain ∧ u.kind = .plain)) →
    Tiles lang (before ++ t.text) next tokens last → Tiles lang before depth (t :: tokens) last

/-! ## The scan, token by token -/

/-- Every line, by induction over the lines that are left when something is cut off. -/
theorem cut_induction {motive : List Char → Prop} (nil : motive [])
    (cons : ∀ c rest, (∀ text : List Char, text.length ≤ rest.length → motive text) →
      motive (c :: rest)) (line : List Char) : motive line := by
  induction n : line.length using Nat.strong_induction_on generalizing line with
  | _ n ih =>
    cases line with
    | nil => exact nil
    | cons c rest =>
      refine cons c rest fun text le => ih text.length ?_ text rfl
      rw [← n, List.length_cons]
      omega

theorem pieces_eq (lang : Language) (done : List Token) (depth : BracketDepth)
    (line : List Char) :
    pieces lang done depth line =
      (done.reverse ++ (pieces lang [] depth line).1, (pieces lang [] depth line).2) := by
  induction line using cut_induction generalizing done depth with
  | nil => simp [pieces]
  | cons c rest ih =>
    have le := length_first_rest_le lang depth c rest
    rw [pieces, pieces, ih _ le, ih _ le [_]]
    simp

theorem scan_nil (lang : Language) (depth : BracketDepth) : scan lang depth [] = ([], depth) := by
  simp [scan, pieces, merge]

/-- The first token goes in front of the tokens of what follows it. -/
theorem scan_cons (lang : Language) (depth : BracketDepth) (c : Char) (rest : List Char) :
    scan lang depth (c :: rest) =
      (consMerged (first lang depth c rest).token
        (scan lang (first lang depth c rest).depth (first lang depth c rest).rest).1,
      (scan lang (first lang depth c rest).depth (first lang depth c rest).rest).2) := by
  unfold scan
  rw [pieces, pieces_eq]
  rfl

theorem consMerged_plain (a b : List Char) (tokens : List Token) :
    consMerged ⟨.plain, a⟩ (⟨.plain, b⟩ :: tokens) = ⟨.plain, a ++ b⟩ :: tokens := by
  rw [consMerged, if_pos ⟨rfl, rfl⟩]

theorem consMerged_of_ne (h : ∀ u ∈ tokens.head?, ¬ (t.kind = .plain ∧ u.kind = .plain)) :
    consMerged t tokens = t :: tokens := by
  cases tokens with
  | nil => rfl
  | cons u tokens => rw [consMerged, if_neg (h u rfl)]

theorem text_consMerged (t : Token) (tokens : List Token) :
    (consMerged t tokens).flatMap Token.text = t.text ++ tokens.flatMap Token.text := by
  cases tokens with
  | nil => rfl
  | cons u tokens =>
    rw [consMerged]
    split_ifs <;> simp

/-! ## The scan tiles the line -/

theorem Tiles.consMerged (ne : t.text ≠ [])
    (fits : Fits lang before t.text (tokens.flatMap Token.text) t.kind)
    (steps : Steps depth t next) (tiles : Tiles lang (before ++ t.text) next tokens last) :
    Tiles lang before depth (consMerged t tokens) last := by
  cases tiles with
  | nil => exact .cons ne fits steps (by simp) .nil
  | @cons _ _ _ _ u tokens ne' fits' steps' apart tiles =>
    rw [Token.consMerged]
    split_ifs with plain
    · obtain ⟨left, right⟩ := plain
      rw [left] at fits
      rw [right] at fits'
      obtain rfl := steps.eq_of_ne (by simp [left])
      obtain rfl := steps'.eq_of_ne (by simp [right])
      rw [List.append_assoc] at tiles
      refine .cons (by simp [ne]) (IsPlain.append fits fits') (.other (by simp)) ?_ tiles
      simpa [right] using apart
    · exact .cons ne fits steps (by simpa using plain) (.cons ne' fits' steps' apart tiles)

theorem tiles_scan (lang : Language) (depth : BracketDepth) (apart : Apart before line) :
    (scan lang depth line).1.flatMap Token.text = line ∧
      Tiles lang before depth (scan lang depth line).1 (scan lang depth line).2 := by
  induction line using cut_induction generalizing depth before with
  | nil =>
    rw [scan_nil]
    exact ⟨rfl, .nil⟩
  | cons c rest ih =>
    have sound := sound_first lang depth apart
    obtain ⟨text, tiles⟩ := ih _ (length_first_rest_le lang depth c rest)
      (first lang depth c rest).depth sound.apart
    rw [scan_cons]
    constructor
    · rw [text_consMerged, text]
      exact sound.text_eq.symm
    · exact .consMerged sound.ne_nil (text.symm ▸ sound.fits) sound.steps tiles

/-- The texts of the tokens are the line. -/
theorem text_scan (lang : Language) (depth : BracketDepth) (line : List Char) :
    (scan lang depth line).1.flatMap Token.text = line :=
  (tiles_scan lang depth (.nil line)).1

/-! ## No other tiling -/

theorem scan_of_first (first : first lang depth c rest = ⟨t, text, next⟩)
    (behind : scan lang next text = (tokens, last)) :
    scan lang depth (c :: rest) = (consMerged t tokens, last) := by
  rw [scan_cons, first]
  show (Token.consMerged t (scan lang next text).1, (scan lang next text).2) = _
  rw [behind]

/-- A tiling whose first token is plain is one too without the piece that is cut off first. -/
theorem Tiles.drop_plain {word more : List Char}
    (tiles : Tiles lang before depth (⟨.plain, word ++ more⟩ :: tokens) last) (ne : more ≠ [])
    (apart : Apart (before ++ word) (more ++ tokens.flatMap Token.text)) :
    Tiles lang (before ++ word) depth (⟨.plain, more⟩ :: tokens) last := by
  cases tiles with
  | cons _ fits steps separate tiles =>
    obtain rfl := steps.eq_of_ne (by simp)
    refine .cons ne (IsPlain.suffix fits apart) (.other (by simp)) separate ?_
    rw [List.append_assoc]
    exact tiles

theorem Tiles.scan_eq (tiles : Tiles lang before depth tokens last)
    (apart : Apart before (tokens.flatMap Token.text)) :
    scan lang depth (tokens.flatMap Token.text) = (tokens, last) := by
  induction eq : tokens.flatMap Token.text using cut_induction
    generalizing before depth tokens with
  | nil =>
    cases tiles with
    | nil => exact scan_nil lang _
    | cons ne => simp [ne] at eq
  | cons c rest ih =>
    have whole := tiles
    cases tiles with
    | nil => cases eq
    | @cons _ _ next _ t tokens ne fits steps separate tiles =>
      obtain ⟨kind, text⟩ := t
      obtain ⟨c', text, rfl⟩ := List.exists_cons_of_ne_nil ne
      rw [List.flatMap_cons, List.cons_append] at eq apart
      obtain ⟨rfl, rfl⟩ := List.cons.inj eq
      have cut := (sound_first lang depth apart).apart
      by_cases plain : kind = .plain
      · subst plain
        obtain rfl := steps.eq_of_ne (by simp)
        obtain ⟨word, more, split, pos, first⟩ := IsPlain.first_eq fits apart
        rw [first] at cut
        rw [split] at whole tiles separate ⊢
        -- The piece that is cut off ends with the plain token, or the rest of the token is plain.
        by_cases stop : more = []
        · subst stop
          rw [List.append_nil] at tiles separate ⊢
          have behind := ih _ (by simp) tiles cut rfl
          rw [scan_of_first first behind, consMerged_of_ne separate]
        · have shorter : (more ++ tokens.flatMap Token.text).length ≤
              (text ++ tokens.flatMap Token.text).length := by
            have := congrArg List.length split
            have := List.length_pos_iff.mpr pos
            simp only [List.length_append, List.length_cons] at *
            omega
          have behind := ih _ shorter (whole.drop_plain stop cut) cut rfl
          rw [scan_of_first first behind, consMerged_plain]
      · have first := fits.first_eq plain steps
        rw [first] at cut
        have behind := ih _ (by simp) tiles cut rfl
        rw [scan_of_first first behind, consMerged_of_ne separate]

end Glance.Token
