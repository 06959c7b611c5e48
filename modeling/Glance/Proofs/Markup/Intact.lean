import Glance.Proofs.Markup.Shown

/-!
# Markup that no text and no marks break

Of `<`, `>` and `&` a markup holds only those of its own tags and entities, the tags are closed in
the order in which they have to be, and every character of the line is in it (`Intact`). That is so
for every line under any marks, sorted or not, apart or not, inside the line or not
(`renderLine_intact`).
-/

namespace Glance.Markup

/-! ## Tags and entities -/

/-- The tags of a markup in the colours of a theme. -/
inductive IsTag (theme : Theme) : List Char → Prop
  | openColor {kind : TokenKind} {color : String} : theme.color kind = some color →
    IsTag theme ("<span style=\"color:".toList ++ color.toList ++ "\">".toList)
  | closeColor : IsTag theme "</span>".toList
  | openFound : IsTag theme "<mark class=\"match\">".toList
  | openCurrent : IsTag theme "<mark class=\"match current\">".toList
  | closeMark : IsTag theme "</mark>".toList

/-- What stands for the characters that tags and entities are made of. -/
def entities : List (List Char) :=
  ["&amp;".toList, "&lt;".toList, "&gt;".toList]

/-- What cannot stand for itself. -/
def special : List Char :=
  ['<', '>', '&']

/-! ## Nesting -/

inductive Element where
  | span
  | mark
  deriving DecidableEq, Repr

/-- A sign as it is written. -/
def Sign.write : Sign → List Char
  | .color (some value) => "<span style=\"color:".toList ++ value.toList ++ "\">".toList
  | .color none => "</span>".toList
  | .emphasis .found => "<mark class=\"match\">".toList
  | .emphasis .current => "<mark class=\"match current\">".toList
  | .emphasis .unmarked => "</mark>".toList
  | .char c => escapeChar c

/-- The signs of a fragment. -/
def Fragment.signs (f : Fragment) : List Sign :=
  match f.emphasis with
  | .unmarked => f.text.map .char
  | emphasis => .emphasis emphasis :: f.text.map .char ++ [.emphasis .unmarked]

/-- The signs of a run. -/
def Run.signs (run : Run) : List Sign :=
  match run.color with
  | none => run.fragments.flatMap Fragment.signs
  | color => .color color :: run.fragments.flatMap Fragment.signs ++ [.color none]

/-- The signs close what is open, the last one first, and all of what they open themselves. A span
begins where nothing is open, and a mark where no mark is. -/
inductive Nested (theme : Theme) : (opened : List Element) → List Sign → Prop
  | nil : Nested theme [] []
  | char {opened : List Element} {c : Char} {signs : List Sign} :
    Nested theme opened signs → Nested theme opened (.char c :: signs)
  | openColor {opened : List Element} {kind : TokenKind} {color : String} {signs : List Sign} :
    theme.color kind = some color → .span ∉ opened → .mark ∉ opened →
    Nested theme (.span :: opened) signs → Nested theme opened (.color (some color) :: signs)
  | closeColor {opened : List Element} {signs : List Sign} :
    Nested theme opened signs → Nested theme (.span :: opened) (.color none :: signs)
  | openMark {opened : List Element} {emphasis : Emphasis} {signs : List Sign} :
    emphasis ≠ .unmarked → .mark ∉ opened →
    Nested theme (.mark :: opened) signs → Nested theme opened (.emphasis emphasis :: signs)
  | closeMark {opened : List Element} {signs : List Sign} :
    Nested theme opened signs → Nested theme (.mark :: opened) (.emphasis .unmarked :: signs)

/-- The markup of a line, in which nothing but the tags and entities is taken for one. -/
structure Intact (theme : Theme) (source markup : List Char) : Prop where
  less : ∀ before after, markup = before ++ '<' :: after →
    ∃ tag, IsTag theme tag ∧ tag <+: '<' :: after
  greater : ∀ before after, markup = before ++ '>' :: after →
    ∃ tag, IsTag theme tag ∧ tag <:+ before ++ ['>']
  ampersand : ∀ before after, markup = before ++ '&' :: after →
    ∃ entity ∈ entities, entity <+: '&' :: after
  nested : ∃ signs, Nested theme [] signs ∧ signs.flatMap Sign.write = markup
  shown : ∃ positions, Walk 0 positions source.length ∧
    (read none .unmarked markup).map (some ∘ Seen.char) = positions.map (fun i => source[i]?) ∧
    ∀ i < source.length, i ∈ positions

variable {theme : Theme} {opened : List Element} {signs rest : List Sign} {c : Char}
  {text before after : List Char} {emphasis : Emphasis}

/-! ## Where special characters stand -/

theorem forall_special {P : Char → Prop} : (∀ c ∈ special, P c) ↔ P '<' ∧ P '>' ∧ P '&' := by
  simp [special]

/-- What is written for one sign: a tag, an entity, or a character that stands for itself. -/
def Written (theme : Theme) (text : List Char) : Prop :=
  IsTag theme text ∨ text ∈ entities ∨ ∃ c ∉ special, text = [c]

theorem written_escapeChar (theme : Theme) (c : Char) : Written theme (escapeChar c) := by
  unfold escapeChar
  split
  · exact .inr (.inl (by decide))
  · exact .inr (.inl (by decide))
  · exact .inr (.inl (by decide))
  · next entity tag tag' =>
    refine .inr (.inr ⟨c, fun mem => ?_, rfl⟩)
    simp only [special, List.mem_cons, List.not_mem_nil, or_false] at mem
    rcases mem with rfl | rfl | rfl
    · exact tag rfl
    · exact tag' rfl
    · exact entity rfl

theorem Nested.written (nested : Nested theme opened signs) :
    ∀ s ∈ signs, Written theme s.write := by
  induction nested with
  | nil => exact fun s mem => by cases mem
  | char _ ih => exact List.forall_mem_cons.mpr ⟨written_escapeChar theme _, ih⟩
  | openColor known _ _ _ ih => exact List.forall_mem_cons.mpr ⟨.inl (.openColor known), ih⟩
  | closeColor _ ih => exact List.forall_mem_cons.mpr ⟨.inl .closeColor, ih⟩
  | @openMark _ emphasis _ marked _ _ ih =>
    refine List.forall_mem_cons.mpr ⟨.inl ?_, ih⟩
    cases emphasis with
    | unmarked => exact absurd rfl marked
    | found => exact .openFound
    | current => exact .openCurrent
  | closeMark _ ih => exact List.forall_mem_cons.mpr ⟨.inl .closeMark, ih⟩

/-- A tag has `<` in front and `>` at its end, and no special character in between. -/
theorem IsTag.ends (tag : IsTag theme text) :
    ∃ inside, text = '<' :: (inside ++ ['>']) ∧ ∀ c ∈ special, c ∉ inside := by
  cases tag with
  | @openColor kind color known =>
    refine ⟨"span style=\"color:".toList ++ color.toList ++ "\"".toList, ?_, ?_⟩
    · rw [List.append_assoc, List.append_assoc, List.append_assoc]
      rfl
    · intro c mem inside
      have letter : ∀ c ∈ special, c ≠ '#' ∧ ¬ c.isAlphanum := forall_special.mpr (by decide)
      have tag : ∀ c ∈ special, c ∉ "span style=\"color:".toList ∧ c ∉ "\"".toList :=
        forall_special.mpr (by decide)
      have clear := Theme.not_mem_color known (letter c mem).1 (letter c mem).2
      simp only [List.mem_append] at inside
      rcases inside with (inside | inside) | inside
      · exact (tag c mem).1 inside
      · exact clear inside
      · exact (tag c mem).2 inside
  | closeColor => exact ⟨"/span".toList, rfl, forall_special.mpr (by decide)⟩
  | openFound => exact ⟨"mark class=\"match\"".toList, rfl, forall_special.mpr (by decide)⟩
  | openCurrent =>
    exact ⟨"mark class=\"match current\"".toList, rfl, forall_special.mpr (by decide)⟩
  | closeMark => exact ⟨"/mark".toList, rfl, forall_special.mpr (by decide)⟩

/-- An entity has `&` in front, and no special character behind it. -/
theorem entity_begins (mem : text ∈ entities) :
    ∃ name, text = '&' :: name ∧ ∀ c ∈ special, c ∉ name := by
  simp only [entities, List.mem_cons, List.not_mem_nil, or_false] at mem
  rcases mem with rfl | rfl | rfl
  · exact ⟨"amp;".toList, rfl, forall_special.mpr (by decide)⟩
  · exact ⟨"lt;".toList, rfl, forall_special.mpr (by decide)⟩
  · exact ⟨"gt;".toList, rfl, forall_special.mpr (by decide)⟩

/-- A special character in what is written for one sign is in front of a tag, at the end of one, or
in front of an entity. -/
theorem Written.special_cases (written : Written theme text) (mem : c ∈ special)
    (eq : text = before ++ c :: after) :
    (c = '<' ∧ before = [] ∧ IsTag theme text) ∨ (c = '>' ∧ after = [] ∧ IsTag theme text) ∨
      (c = '&' ∧ before = [] ∧ text ∈ entities) := by
  rcases written with tag | entity | ⟨d, plain, rfl⟩
  · obtain ⟨inside, ends, clear⟩ := tag.ends
    rw [ends] at eq
    -- It is the first character, the last one, or inside, where none is.
    rcases List.cons_eq_append_iff.mp eq with ⟨front, first⟩ | ⟨front, rfl, behind⟩
    · exact .inl ⟨(List.cons.inj first).1, front, tag⟩
    · rcases List.eq_nil_or_concat after with rfl | ⟨after, last, rfl⟩
      · exact .inr (.inl ⟨(List.cons.inj (List.append_inj' behind rfl).2).1.symm, rfl, tag⟩)
      · rw [List.concat_eq_append, ← List.cons_append, ← List.append_assoc] at behind
        refine absurd ?_ (clear c mem)
        rw [(List.append_inj' behind rfl).1]
        simp
  · obtain ⟨name, begins, clear⟩ := entity_begins entity
    rw [begins] at eq
    rcases List.cons_eq_append_iff.mp eq with ⟨front, first⟩ | ⟨front, rfl, behind⟩
    · exact .inr (.inr ⟨(List.cons.inj first).1, front, entity⟩)
    · refine absurd ?_ (clear c mem)
      rw [behind]
      simp
  · refine absurd ?_ plain
    have one : c ∈ [d] := by
      rw [eq]
      simp
    rwa [← List.mem_singleton.mp one]

/-- A character of a text put together piece by piece is in one of the pieces. -/
theorem flatMap_split {α : Type} {f : α → List Char} {l : List α}
    (eq : l.flatMap f = before ++ c :: after) :
    ∃ a ∈ l, ∃ front behind, f a = front ++ c :: behind ∧ front <:+ before ∧ behind <+: after := by
  induction l generalizing before with
  | nil => simp at eq
  | cons a l ih =>
    rw [List.flatMap_cons] at eq
    rcases List.append_eq_append_iff.mp eq with ⟨more, rfl, later⟩ | ⟨more, here, eq⟩
    · obtain ⟨b, mem, front, behind, eq, suffix, pre⟩ := ih later
      exact ⟨b, .tail _ mem, front, behind, eq, suffix.trans (List.suffix_append _ _), pre⟩
    · cases more with
      | nil =>
        have later : l.flatMap f = [] ++ c :: after := eq.symm
        obtain ⟨b, mem, front, behind, eq, suffix, pre⟩ := ih later
        exact ⟨b, .tail _ mem, front, behind, eq, suffix.trans List.nil_suffix, pre⟩
      | cons d more =>
        obtain ⟨rfl, rfl⟩ := List.cons.inj eq
        exact ⟨a, .head _, before, more, here, List.suffix_rfl, List.prefix_append _ _⟩

/-- A special character of a markup is in front of a tag, at the end of one, or in front of an
entity. -/
theorem Nested.special_cases (nested : Nested theme opened signs) (mem : c ∈ special)
    (eq : signs.flatMap Sign.write = before ++ c :: after) :
    (c = '<' ∧ ∃ tag, IsTag theme tag ∧ tag <+: c :: after) ∨
      (c = '>' ∧ ∃ tag, IsTag theme tag ∧ tag <:+ before ++ [c]) ∨
      (c = '&' ∧ ∃ entity ∈ entities, entity <+: c :: after) := by
  obtain ⟨s, mem', front, behind, here, suffix, pre⟩ := flatMap_split eq
  rcases (nested.written s mem').special_cases mem here with
    ⟨rfl, rfl, tag⟩ | ⟨rfl, rfl, tag⟩ | ⟨rfl, rfl, entity⟩
  · refine .inl ⟨rfl, _, tag, ?_⟩
    rw [here]
    exact List.cons_prefix_cons.mpr ⟨rfl, pre⟩
  · refine .inr (.inl ⟨rfl, _, tag, ?_⟩)
    obtain ⟨more, rfl⟩ := suffix
    rw [here, List.append_assoc]
    exact List.suffix_append _ _
  · refine .inr (.inr ⟨rfl, _, entity, ?_⟩)
    rw [here]
    exact List.cons_prefix_cons.mpr ⟨rfl, pre⟩

/-! ## The signs of a line -/

theorem write_chars (text : List Char) :
    (text.map Sign.char).flatMap Sign.write = escape text := by
  rw [List.flatMap_map]
  rfl

theorem Fragment.write_signs (f : Fragment) : f.signs.flatMap Sign.write = f.write := by
  obtain ⟨emphasis, text⟩ := f
  have chars := write_chars text
  cases emphasis with
  | unmarked =>
    show (text.map Sign.char).flatMap Sign.write = [] ++ escape text ++ []
    rw [chars, List.append_nil, List.nil_append]
  | found | current =>
    unfold Fragment.signs Fragment.write
    simp only [List.flatMap_append, List.flatMap_cons, List.flatMap_nil, chars, List.append_nil]
    rfl

theorem Run.write_signs (run : Run) : run.signs.flatMap Sign.write = run.write := by
  obtain ⟨color, fragments⟩ := run
  have inside : (fragments.flatMap Fragment.signs).flatMap Sign.write =
      fragments.flatMap Fragment.write := by
    rw [List.flatMap_assoc]
    congr 1
    funext f
    exact f.write_signs
  cases color with
  | none => exact inside
  | some color =>
    unfold Run.signs Run.write
    simp only [List.flatMap_append, List.flatMap_cons, List.flatMap_nil, inside, List.append_nil]
    rfl

theorem write_signs (runs : List Run) :
    (runs.flatMap Run.signs).flatMap Sign.write = write runs := by
  unfold write
  rw [List.flatMap_assoc]
  congr 1
  funext run
  exact run.write_signs

theorem Nested.chars (nested : Nested theme opened rest) (text : List Char) :
    Nested theme opened (text.map .char ++ rest) := by
  induction text with
  | nil => exact nested
  | cons c text ih => exact .char ih

/-- A fragment fits wherever no mark is open. -/
theorem Nested.fragment (f : Fragment) (free : .mark ∉ opened)
    (nested : Nested theme opened rest) : Nested theme opened (f.signs ++ rest) := by
  obtain ⟨emphasis, text⟩ := f
  have marked (ne : emphasis ≠ .unmarked) : Nested theme opened
      (.emphasis emphasis :: text.map .char ++ [.emphasis .unmarked] ++ rest) := by
    rw [List.append_assoc]
    exact .openMark ne free (nested.closeMark.chars text)
  cases emphasis with
  | unmarked => exact nested.chars text
  | found | current => exact marked (by decide)

theorem Nested.fragments (fragments : List Fragment) (free : .mark ∉ opened)
    (nested : Nested theme opened rest) :
    Nested theme opened (fragments.flatMap Fragment.signs ++ rest) := by
  induction fragments with
  | nil => exact nested
  | cons f fragments ih =>
    rw [List.flatMap_cons, List.append_assoc]
    exact ih.fragment f free

/-- A run fits where nothing is open. -/
theorem Nested.run {run : Run}
    (colored : ∀ color ∈ run.color, ∃ kind, theme.color kind = some color)
    (nested : Nested theme [] rest) : Nested theme [] (run.signs ++ rest) := by
  obtain ⟨color, fragments⟩ := run
  cases color with
  | none => exact nested.fragments fragments (by decide)
  | some color =>
    obtain ⟨kind, known⟩ := colored color rfl
    show Nested theme [] (.color (some color) :: fragments.flatMap Fragment.signs ++
      [.color none] ++ rest)
    rw [List.append_assoc]
    exact .openColor known (by decide) (by decide)
      (nested.closeColor.fragments fragments (by decide))

theorem nested_runs {runs : List Run}
    (colored : ∀ run ∈ runs, ∀ color ∈ run.color, ∃ kind, theme.color kind = some color) :
    Nested theme [] (runs.flatMap Run.signs) := by
  induction runs with
  | nil => exact .nil
  | cons run runs ih =>
    obtain ⟨here, behind⟩ := List.forall_mem_cons.mp colored
    exact (ih behind).run here

/-! ## Lines -/

/-- Runs in colours of the theme that show a whole line. -/
theorem intact_write {source : List Char} {runs : List Run}
    (colored : ∀ run ∈ runs, ∀ color ∈ run.color, ∃ kind, theme.color kind = some color)
    (shown : Shown source 0 ((read none .unmarked (write runs)).map Seen.char) source.length) :
    Intact theme source (write runs) := by
  have nested := nested_runs colored
  have written := write_signs runs
  refine ⟨fun before after eq => ?_, fun before after eq => ?_, fun before after eq => ?_,
    ⟨_, nested, written⟩, ?_⟩
  · simpa using nested.special_cases (c := '<') (by decide) (written.trans eq)
  · simpa using nested.special_cases (c := '>') (by decide) (written.trans eq)
  · simpa using nested.special_cases (c := '&') (by decide) (written.trans eq)
  · obtain ⟨positions, walk, eq, all⟩ := shown.all
    rw [List.map_map] at eq
    exact ⟨positions, walk, eq, all⟩

/-- No text and no marks break the markup of a line: made by byte offsets it never fails, and it is
intact and shows the whole line, in colours and without. -/
theorem renderLine_intact (lang : Language) (theme : Theme) (depth : BracketDepth)
    (marks : List Mark) (line : List Char) :
    renderLine? lang theme depth marks line = some (renderLine lang theme depth marks line) ∧
    Intact theme line (renderLine lang theme depth marks line).1 ∧
    renderPlain? marks line = some (renderPlain marks line) ∧
    Intact theme line (renderPlain marks line) := by
  refine ⟨renderLine?_eq lang theme depth marks line, ?_, renderPlain?_eq marks line, ?_⟩
  · refine intact_write (fun run mem color known => ?_) (shown_colored lang theme depth marks line)
    obtain ⟨kind, eq⟩ := color_of_mem_runsFrom mem
    exact ⟨kind, eq.symm.trans known⟩
  · refine intact_write (fun run mem color known => ?_) (shown_uncolored marks line)
    rw [List.mem_singleton.mp mem] at known
    cases known

end Glance.Markup
