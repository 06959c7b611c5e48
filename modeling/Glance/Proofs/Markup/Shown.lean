import Glance.Proofs.Markup.Line
import Glance.Proofs.Markup.Slices

/-!
# Every character of a line is shown

Marks in any order make the cutting go back and show characters once more, but it never goes on
further than to the character behind the last one shown. So every position of the line is passed, in
whatever order (`Shown.all`), and the markup of a line shows every character of it (`shown_colored`,
`shown_uncolored`).
-/

namespace Glance.Markup

/-- Positions passed one after another, from `next` on until `stop` lies behind the last one: each
is the one behind the position before it, or lies further back. -/
inductive Walk : (next : ℕ) → List ℕ → (stop : ℕ) → Prop
  | nil {next : ℕ} : Walk next [] next
  | cons {next i stop : ℕ} {positions : List ℕ} :
    i ≤ next → Walk (i + 1) positions stop → Walk next (i :: positions) stop

/-- The characters are those of a source at the positions of a walk. -/
def Shown (source : List Char) (next : ℕ) (chars : List Char) (stop : ℕ) : Prop :=
  ∃ positions, Walk next positions stop ∧ chars.map some = positions.map fun i => source[i]?

variable {line text before after : List Char} {start next middle stop low high i : ℕ}
  {positions : List ℕ} {marks : List Mark} {p : Progress}

/-! ## Walks -/

/-- No position is passed over. -/
theorem Walk.mem (walk : Walk next positions stop) (begins : next ≤ i) (ends : i < stop) :
    i ∈ positions := by
  induction walk with
  | nil => omega
  | @cons next j stop positions le _ ih =>
    by_cases here : i = j
    · exact here ▸ List.mem_cons_self
    · exact List.mem_cons_of_mem _ (ih (by omega) ends)

theorem Walk.append {more : List ℕ} (walk : Walk next positions middle)
    (onward : Walk middle more stop) : Walk next (positions ++ more) stop := by
  induction walk with
  | nil => exact onward
  | cons le _ ih => exact .cons le (ih onward)

theorem walk_range' (le : low ≤ next) (n : ℕ) :
    Walk next (List.range' low (n + 1)) (low + n + 1) := by
  induction n generalizing low next with
  | zero => exact .cons le .nil
  | succ n ih =>
    have onward := ih (le_refl (low + 1))
    rw [show low + 1 + n + 1 = low + (n + 1) + 1 by omega] at onward
    exact .cons le onward

/-! ## Shown characters -/

theorem Shown.nil (line : List Char) (next : ℕ) : Shown line next [] next :=
  ⟨[], .nil, rfl⟩

theorem Shown.append {chars more : List Char} (shown : Shown line next chars middle)
    (onward : Shown line middle more stop) : Shown line next (chars ++ more) stop := by
  obtain ⟨positions, walk, eq⟩ := shown
  obtain ⟨positions', walk', eq'⟩ := onward
  refine ⟨positions ++ positions', walk.append walk', ?_⟩
  rw [List.map_append, List.map_append, eq, eq']

/-- What lies between two offsets, of which the first is not behind what is shown already. -/
theorem shown_slice (source : List Char) (le : low ≤ next) (filled : low < high)
    (ends : high ≤ source.length) :
    Shown source next ((source.drop low).take (high - low)) high := by
  have walk := walk_range' le (high - low - 1)
  rw [show high - low - 1 + 1 = high - low by omega,
    show low + (high - low - 1) + 1 = high by omega] at walk
  refine ⟨_, walk, List.ext_getElem (by simp; omega) fun j lt lt' => ?_⟩
  simp

/-- Every position of the source is among those shown. -/
theorem Shown.all {source chars : List Char} (shown : Shown source 0 chars source.length) :
    ∃ positions, Walk 0 positions source.length ∧
      chars.map some = positions.map (fun i => source[i]?) ∧
      ∀ i < source.length, i ∈ positions := by
  obtain ⟨positions, walk, eq⟩ := shown
  exact ⟨positions, walk, eq, fun i lt => walk.mem i.zero_le lt⟩

/-! ## Fragments -/

/-- A slice of a text that lies on the line. -/
theorem shown_inside (whole : line = before ++ text ++ after) (length : before.length = start)
    (begins : start ≤ low) (le : low ≤ next) (filled : low < high)
    (ends : high ≤ start + text.length) :
    Shown line next ((text.drop (low - start)).take (high - low)) high := by
  have same : (line.drop low).take (high - low) =
      (text.drop (low - start)).take (high - low) := by
    rw [whole, List.append_assoc, List.drop_append, List.drop_of_length_le (by omega),
      List.nil_append, length, List.drop_append_of_le_length (by omega),
      List.take_append_of_le_length]
    rw [List.length_drop]
    omega
  rw [← same]
  refine shown_slice line le filled ?_
  rw [whole, List.length_append, List.length_append]
  omega

/-- The characters of the fragments so far. -/
def Progress.chars (p : Progress) : List Char :=
  p.done.reverse.flatMap Fragment.text

/-- Cutting along a mark, whatever it is, goes on where the last one stopped or further back. -/
theorem shown_cut (whole : line = before ++ text ++ after) (length : before.length = start)
    (lies : p.Lies text start) (shown : Shown line start p.chars p.position) (m : Mark) :
    let q := p.cut text start (start + text.length) m
    Shown line start q.chars q.position := by
  intro q
  by_cases inside : max m.start start < min m.stop (start + text.length)
  · have eq : q = _ := lies.cut_eq inside
    have begins := lies.low
    have here : Shown line (max p.position (max m.start start)) _ _ :=
      shown_inside whole length (le_max_right _ _) (le_max_right _ _) inside (min_le_right _ _)
    rw [eq]
    unfold Progress.chars
    dsimp only
    -- What lies between the marks is shown first; where they overlap there is nothing in between.
    split_ifs with gap
    · rw [max_eq_right gap.le] at here
      have front := shown_inside whole length begins le_rfl gap (by omega)
      simpa [Progress.chars] using shown.append (front.append here)
    · rw [max_eq_left (not_lt.mp gap)] at here
      simpa [Progress.chars] using shown.append here
  · have eq : q = p := cut_of_le (not_lt.mp inside)
    rw [eq]
    exact shown

/-- The same for the marks one after another. -/
theorem shown_foldl (whole : line = before ++ text ++ after) (length : before.length = start)
    (lies : p.Lies text start) (shown : Shown line start p.chars p.position) (marks : List Mark) :
    let q := marks.foldl (Progress.cut text start (start + text.length)) p
    q.Lies text start ∧ Shown line start q.chars q.position := by
  induction marks generalizing p with
  | nil => exact ⟨lies, shown⟩
  | cons m marks ih => exact ih (lies.cut m) (shown_cut whole length lies shown m)

/-- The fragments of a text show all of it, from its beginning to its end. -/
theorem shown_fragments (whole : line = before ++ text ++ after) (length : before.length = start)
    (marks : List Mark) :
    Shown line start ((fragments start text marks).flatMap Fragment.text)
      (start + text.length) := by
  obtain ⟨lies, shown⟩ := shown_foldl whole length (Progress.lies_start text start)
    (.nil line start) marks
  unfold fragments
  dsimp only
  generalize marks.foldl _ _ = p at lies shown
  have begins := lies.low
  have ends := lies.high
  have ahead := lies.length_ahead
  split_ifs with more
  · have rest := shown_inside whole length begins le_rfl more le_rfl
    rw [← lies.ahead, List.take_of_length_le (by omega)] at rest
    simpa [Progress.chars] using shown.append rest
  · rw [show start + text.length = p.position by omega]
    exact shown

/-! ## Lines -/

/-- What the runs show. -/
def chars (runs : List Run) : List Char :=
  runs.flatMap fun run => run.fragments.flatMap Fragment.text

theorem shown_runsFrom (theme : Theme) (marks : List Mark) {tokens : List Token}
    (whole : line = before ++ tokens.flatMap Token.text) (length : before.length = start) :
    Shown line start (chars (runsFrom theme marks start tokens)) line.length := by
  induction tokens generalizing before start with
  | nil =>
    rw [List.flatMap_nil, List.append_nil] at whole
    rw [whole, length]
    exact .nil _ _
  | cons t tokens ih =>
    rw [List.flatMap_cons, ← List.append_assoc] at whole
    rw [runsFrom_cons]
    refine (shown_fragments whole length marks).append (ih whole ?_)
    rw [List.length_append, length]

theorem char_seen (runs : List Run) : (runs.flatMap Run.seen).map Seen.char = chars runs := by
  unfold chars
  rw [List.map_flatMap]
  congr 1
  funext run
  unfold Run.seen Fragment.seen
  rw [List.map_flatMap]
  simp [Function.comp_def]

/-- A reader sees every character of a line in its markup. -/
theorem shown_colored (lang : Language) (theme : Theme) (depth : BracketDepth)
    (marks : List Mark) (line : List Char) :
    Shown line 0 ((read none .unmarked (renderLine lang theme depth marks line).1).map Seen.char)
      line.length := by
  show Shown line 0 ((read none .unmarked (write (colored lang theme depth marks line).1)).map
    Seen.char) line.length
  rw [read_write (plain_colored lang theme depth marks line), char_seen]
  have whole : line = [] ++ (Token.scan lang depth line).1.flatMap Token.text :=
    (Token.text_scan lang depth line).symm
  exact shown_runsFrom theme marks whole rfl

theorem shown_uncolored (marks : List Mark) (line : List Char) :
    Shown line 0 ((read none .unmarked (renderPlain marks line)).map Seen.char) line.length := by
  unfold renderPlain
  rw [read_write (plain_uncolored marks line), char_seen]
  have whole : line = [] ++ line ++ [] := (List.append_nil line).symm
  have shown := shown_fragments whole rfl marks
  simpa [chars, uncolored] using shown

end Glance.Markup
