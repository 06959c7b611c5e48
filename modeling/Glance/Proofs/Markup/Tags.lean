import Glance.Proofs.Markup.Intact

/-!
# Tags in a markup

A markup is put together from pieces each of which is a whole tag or holds no `<`, so a tag that can
be found in it is one of the pieces (`infix_flatten_iff`). No fragment is empty. The tag of an
emphasis therefore stands in the markup of a line exactly if the line has a character under that
emphasis.
-/

namespace Glance.Markup

variable {theme : Theme} {text tag : List Char} {pieces : List (List Char)} {start : ℕ}
  {marks : List Mark} {runs : List Run} {emphasis : Emphasis} {p : Progress}

/-! ## Pieces of a markup -/

/-- A `<`, a `>` behind it, and neither in between. -/
def Bracketed (text : List Char) : Prop :=
  ∃ inside, text = '<' :: (inside ++ ['>']) ∧ '<' ∉ inside ∧ '>' ∉ inside

/-- What can be a piece of a markup. -/
def IsPiece (text : List Char) : Prop :=
  Bracketed text ∨ '<' ∉ text

theorem IsTag.bracketed (tag : IsTag theme text) : Bracketed text := by
  obtain ⟨inside, ends, clear⟩ := tag.ends
  exact ⟨inside, ends, clear '<' (by decide), clear '>' (by decide)⟩

theorem Written.isPiece (written : Written theme text) : IsPiece text := by
  rcases written with tag | entity | ⟨d, plain, rfl⟩
  · exact .inl tag.bracketed
  · obtain ⟨name, rfl, clear⟩ := entity_begins entity
    refine .inr ?_
    simpa using clear '<' (by decide)
  · refine .inr fun mem => plain ?_
    rw [← List.mem_singleton.mp mem]
    decide

theorem takeWhile_before_greater {inside : List Char} (clear : '>' ∉ inside) (rest : List Char) :
    (inside ++ '>' :: rest).takeWhile (· != '>') = inside := by
  have pos : ∀ c ∈ inside, (c != '>') = true := by
    intro c mem
    rw [bne_iff_ne]
    exact fun eq => clear (eq ▸ mem)
  rw [List.takeWhile_append_of_pos pos]
  simp

/-- A tag that begins where another one does is that one: both end with the first `>`. -/
theorem Bracketed.eq_of_prefix {rest : List Char} (bracketed : Bracketed text)
    (bracketed' : Bracketed tag) (begins : text <+: tag ++ rest) : text = tag := by
  obtain ⟨inside, rfl, -, clear⟩ := bracketed
  obtain ⟨inside', rfl, -, clear'⟩ := bracketed'
  obtain ⟨more, eq⟩ := begins
  simp only [List.cons_append, List.append_assoc, List.nil_append] at eq
  have same := congrArg (List.takeWhile (· != '>')) (List.cons.inj eq).2
  rw [takeWhile_before_greater clear, takeWhile_before_greater clear'] at same
  rw [same]

theorem infix_flatten_iff (clean : ∀ piece ∈ pieces, IsPiece piece) (bracketed : Bracketed tag) :
    tag <:+: pieces.flatten ↔ tag ∈ pieces := by
  refine ⟨?_, List.infix_of_mem_flatten⟩
  rintro ⟨before, after, eq⟩
  obtain ⟨inside, begins, -⟩ := id bracketed
  have split : pieces.flatMap id = before ++ '<' :: (inside ++ ['>'] ++ after) := by
    rw [List.flatMap_id, ← eq, begins]
    simp
  obtain ⟨piece, mem, front, behind, here, -, pre⟩ := flatMap_split split
  rw [id] at here
  rcases clean piece mem with whole | clear
  · -- The `<` of the tag is that of the piece, since a piece has only one.
    obtain ⟨body, ends, none, -⟩ := id whole
    have first : front = [] := by
      cases front with
      | nil => rfl
      | cons a front =>
        rw [ends, List.cons_append] at here
        have mem : '<' ∈ body ++ ['>'] := by
          rw [(List.cons.inj here).2]
          simp
        simp [none] at mem
    rw [first, List.nil_append] at here
    have begins' : piece <+: tag ++ after := by
      rw [here, begins, List.cons_append]
      exact List.cons_prefix_cons.mpr ⟨rfl, pre⟩
    rw [← whole.eq_of_prefix bracketed begins']
    exact mem
  · refine absurd ?_ clear
    rw [here]
    simp

/-! ## The tag of an emphasis -/

theorem bracketed_openTag (marked : emphasis ≠ .unmarked) : Bracketed emphasis.openTag := by
  cases emphasis with
  | unmarked => exact absurd rfl marked
  | found => exact ⟨"mark class=\"match\"".toList, rfl, by decide⟩
  | current => exact ⟨"mark class=\"match current\"".toList, rfl, by decide⟩

theorem openTag_injective : Function.Injective Emphasis.openTag := by
  intro a b eq
  cases a <;> cases b <;> first | rfl | exact absurd eq (by decide)

theorem write_emphasis (marked : emphasis ≠ .unmarked) :
    (Sign.emphasis emphasis).write = emphasis.openTag := by
  cases emphasis with
  | unmarked => exact absurd rfl marked
  | found | current => rfl

/-- Only the signs that open a mark are written with `<m` in front. -/
theorem begins_mark_iff {s : Sign} :
    s.write.take 2 = ['<', 'm'] ↔ ∃ emphasis, emphasis ≠ .unmarked ∧ s = .emphasis emphasis := by
  constructor
  · intro begins
    cases s with
    | color value =>
      cases value with
      | none => exact absurd begins (by decide)
      | some color =>
        change ("<span style=\"color:".toList ++ color.toList ++ "\">".toList).take 2 = _ at begins
        rw [List.append_assoc, List.take_append_of_le_length (by decide)] at begins
        exact absurd begins (by decide)
    | emphasis emphasis =>
      refine ⟨emphasis, ?_, rfl⟩
      rintro rfl
      exact absurd begins (by decide)
    | char c =>
      change (escapeChar c).take 2 = _ at begins
      unfold escapeChar at begins
      split at begins
      · exact absurd begins (by decide)
      · exact absurd begins (by decide)
      · exact absurd begins (by decide)
      · simp at begins
  · rintro ⟨emphasis, marked, rfl⟩
    cases emphasis with
    | unmarked => exact absurd rfl marked
    | found | current => rfl

theorem write_eq_openTag_iff {s : Sign} (marked : emphasis ≠ .unmarked) :
    s.write = emphasis.openTag ↔ s = .emphasis emphasis := by
  constructor
  · intro eq
    have begins := begins_mark_iff.mpr ⟨emphasis, marked, rfl⟩
    rw [write_emphasis marked, ← eq] at begins
    obtain ⟨other, marked', rfl⟩ := begins_mark_iff.mp begins
    rw [write_emphasis marked'] at eq
    rw [openTag_injective eq]
  · rintro rfl
    exact write_emphasis marked

/-- The sign of an emphasis is that of a fragment under it. -/
theorem mem_signs_iff (marked : emphasis ≠ .unmarked) :
    Sign.emphasis emphasis ∈ runs.flatMap Run.signs ↔
      ∃ run ∈ runs, ∃ f ∈ run.fragments, f.emphasis = emphasis := by
  have fragment (f : Fragment) : Sign.emphasis emphasis ∈ f.signs ↔ f.emphasis = emphasis := by
    obtain ⟨own, text⟩ := f
    cases own with
    | unmarked => simp [Fragment.signs, marked.symm]
    | found | current => simp [Fragment.signs, marked, eq_comm]
  have within (run : Run) : Sign.emphasis emphasis ∈ run.signs ↔
      ∃ f ∈ run.fragments, f.emphasis = emphasis := by
    obtain ⟨color, fragments⟩ := run
    cases color <;> simp [Run.signs, fragment]
  simp only [List.mem_flatMap, within]

/-! ## Fragments -/

theorem Progress.Lies.filled_cut (lies : p.Lies text start) (filled : ∀ f ∈ p.done, f.text ≠ [])
    (m : Mark) : ∀ f ∈ (p.cut text start (start + text.length) m).done, f.text ≠ [] := by
  by_cases inside : max m.start start < min m.stop (start + text.length)
  · have begins := lies.low
    rw [lies.cut_eq inside]
    refine List.forall_mem_cons.mpr ⟨?_, ?_⟩
    · rw [← List.length_pos_iff, List.length_take, List.length_drop]
      omega
    · intro f mem
      rcases List.mem_append.mp mem with gap | done
      · split_ifs at gap with more
        · rw [List.mem_singleton.mp gap, ← List.length_pos_iff, List.length_take,
            List.length_drop]
          omega
        · cases gap
      · exact filled f done
  · rw [cut_of_le (not_lt.mp inside)]
    exact filled

/-- No fragment is empty, whatever the marks are. -/
theorem filled_fragments (start : ℕ) (text : List Char) (marks : List Mark) :
    ∀ f ∈ fragments start text marks, f.text ≠ [] := by
  have all {p : Progress} (lies : p.Lies text start) (filled : ∀ f ∈ p.done, f.text ≠ []) :
      (marks.foldl (Progress.cut text start (start + text.length)) p).Lies text start ∧
        ∀ f ∈ (marks.foldl (Progress.cut text start (start + text.length)) p).done,
          f.text ≠ [] := by
    induction marks generalizing p with
    | nil => exact ⟨lies, filled⟩
    | cons m marks ih => exact ih (lies.cut m) (lies.filled_cut filled m)
  obtain ⟨lies, filled⟩ := all (Progress.lies_start text start) (by simp)
  have length := lies.length_ahead
  unfold fragments
  intro f mem
  dsimp only at mem
  rw [List.mem_reverse] at mem
  split_ifs at mem with more
  · rcases List.mem_cons.mp mem with rfl | mem
    · rw [← List.length_pos_iff]
      dsimp only
      omega
    · exact filled f mem
  · exact filled f mem

theorem filled_runsFrom (theme : Theme) (marks : List Mark) (start : ℕ) (tokens : List Token) :
    ∀ run ∈ runsFrom theme marks start tokens, ∀ f ∈ run.fragments, f.text ≠ [] := by
  induction tokens generalizing start with
  | nil =>
    intro run mem
    cases mem
  | cons t tokens ih =>
    rw [runsFrom_cons]
    exact List.forall_mem_cons.mpr ⟨filled_fragments start t.text marks, ih _⟩

/-! ## Characters under an emphasis -/

theorem exists_seen_iff (filled : ∀ run ∈ runs, ∀ f ∈ run.fragments, f.text ≠ []) :
    (∃ s ∈ runs.flatMap Run.seen, s.emphasis = emphasis) ↔
      ∃ run ∈ runs, ∃ f ∈ run.fragments, f.emphasis = emphasis := by
  constructor
  · rintro ⟨s, shown, rfl⟩
    obtain ⟨run, mem, inside⟩ := List.mem_flatMap.mp shown
    obtain ⟨f, mem', on⟩ := List.mem_flatMap.mp inside
    obtain ⟨c, -, rfl⟩ := List.mem_map.mp on
    exact ⟨run, mem, f, mem', rfl⟩
  · rintro ⟨run, mem, f, mem', rfl⟩
    obtain ⟨c, text, known⟩ := List.exists_cons_of_ne_nil (filled run mem f mem')
    refine ⟨⟨c, run.color, f.emphasis⟩, ?_, rfl⟩
    refine List.mem_flatMap.mpr ⟨run, mem, List.mem_flatMap.mpr ⟨f, mem', ?_⟩⟩
    unfold Fragment.seen
    rw [known]
    exact .head _

/-- The tag of an emphasis stands in a markup exactly if a character is under that emphasis. Other
pieces may stand in front. -/
theorem openTag_infix_iff (marked : emphasis ≠ .unmarked)
    (colored : ∀ run ∈ runs, ∀ color ∈ run.color, ∃ kind, theme.color kind = some color)
    (filled : ∀ run ∈ runs, ∀ f ∈ run.fragments, f.text ≠ [])
    (clean : ∀ piece ∈ pieces, IsPiece piece) (other : emphasis.openTag ∉ pieces) :
    emphasis.openTag <:+: pieces.flatten ++ write runs ↔
      ∃ s ∈ runs.flatMap Run.seen, s.emphasis = emphasis := by
  have whole : pieces.flatten ++ write runs =
      (pieces ++ (runs.flatMap Run.signs).map Sign.write).flatten := by
    rw [List.flatten_append, ← write_signs, List.flatMap_def]
  have all : ∀ piece ∈ pieces ++ (runs.flatMap Run.signs).map Sign.write, IsPiece piece := by
    intro piece mem
    rcases List.mem_append.mp mem with mem | mem
    · exact clean piece mem
    · obtain ⟨s, sign, rfl⟩ := List.mem_map.mp mem
      exact ((nested_runs colored).written s sign).isPiece
  rw [whole, infix_flatten_iff all (bracketed_openTag marked), exists_seen_iff filled,
    ← mem_signs_iff marked, List.mem_append, List.mem_map]
  constructor
  · rintro (mem | ⟨s, mem, eq⟩)
    · exact absurd mem other
    · rwa [← (write_eq_openTag_iff marked).mp eq]
  · intro mem
    exact .inr ⟨_, mem, write_emphasis marked⟩

end Glance.Markup
