import Glance.Proofs.Document
import Glance.Proofs.Markup.Line
import Glance.Proofs.Page.Marks

/-!
# The rows of a page

What a row is made from: the state that the rows above it hand on holds the number of its line, the
offset at which the line begins, the hits that may still reach it and the bracket depth (`Reached`).
Every row keeps this up, so it holds of all rows, and each row reads as its line does.
-/

namespace Glance.Page

variable {lang : Language} {current : Option ℕ} {options : PageOptions} {hits : List Match}
  {s : State} {above lines : List (List Char)} {line : List Char}

/-- The bracket depth behind lines, carried through all of them. -/
def depthAfter (lang : Language) (lines : List (List Char)) : BracketDepth :=
  lines.foldl (fun depth line => (Token.scan lang depth line).2) .zero

/-- The state that lines hand on to the next one. -/
def stateAfter (lang : Language) (current : Option ℕ) (options : PageOptions) (s : State)
    (lines : List (List Char)) : State :=
  lines.foldl (fun s line => (row lang current options s line).2) s

/-! ## One row after the other -/

theorem rowsFrom_step (done : List Row) (s : State) (line : List Char)
    (lines : List (List Char)) :
    rowsFrom lang current options done s (line :: lines) =
      rowsFrom lang current options ((row lang current options s line).1 :: done)
        (row lang current options s line).2 lines := rfl

theorem rowsFrom_eq_append (done : List Row) (s : State) (lines : List (List Char)) :
    rowsFrom lang current options done s lines =
      done.reverse ++ rowsFrom lang current options [] s lines := by
  induction lines generalizing done s with
  | nil => exact (List.append_nil _).symm
  | cons line lines ih =>
    rw [rowsFrom_step, rowsFrom_step, ih, ih [_], List.reverse_cons, List.append_assoc]
    rfl

theorem rowsFrom_cons (s : State) (line : List Char) (lines : List (List Char)) :
    rowsFrom lang current options [] s (line :: lines) =
      (row lang current options s line).1 ::
        rowsFrom lang current options [] (row lang current options s line).2 lines := by
  rw [rowsFrom_step, rowsFrom_eq_append]
  rfl

theorem length_rowsFrom (s : State) (lines : List (List Char)) :
    (rowsFrom lang current options [] s lines).length = lines.length := by
  induction lines generalizing s with
  | nil => rfl
  | cons line lines ih => rw [rowsFrom_cons, List.length_cons, List.length_cons, ih]

/-- A row is made from its line and from what the lines above it hand on. -/
theorem getElem?_rowsFrom (s : State) (lines : List (List Char)) (i : ℕ) :
    (rowsFrom lang current options [] s lines)[i]? = lines[i]?.map fun line =>
      (row lang current options (stateAfter lang current options s (lines.take i)) line).1 := by
  induction lines generalizing s i with
  | nil => rfl
  | cons line lines ih =>
    rw [rowsFrom_cons]
    cases i with
    | zero => rfl
    | succ i => exact ih _ i

/-! ## One row -/

/-- The marks of a row. -/
def rowMarks (current : Option ℕ) (s : State) (line : List Char) : List Markup.Mark :=
  marksOn current s.offset (s.offset + line.length)
    (s.pending.dropWhile fun hit => hit.1.stop ≤ s.offset)

theorem runs_row_of_colors (colors : options.colors) :
    (row lang current options s line).1.runs =
      (Markup.colored lang options.theme s.depth (rowMarks current s line) line).1 := by
  unfold row
  simp only [if_pos colors]
  rfl

theorem runs_row_of_not_colors (colors : ¬ options.colors) :
    (row lang current options s line).1.runs =
      Markup.uncolored (rowMarks current s line) line := by
  unfold row
  simp only [if_neg colors]
  rfl

theorem depth_row (colors : options.colors) :
    (row lang current options s line).2.depth = (Token.scan lang s.depth line).2 := by
  unfold row
  simp only [if_pos colors]
  rfl

/-! ## The state -/

/-- What is known of a state behind lines. -/
structure Reached (lang : Language) (options : PageOptions) (hits : List Match)
    (above : List (List Char)) (s : State) : Prop where
  index : s.index = above.length
  offset : s.offset = Document.offsetAfter above
  pending : ∃ bound ≤ s.offset, s.pending = notOver hits bound
  depth : options.colors → s.depth = depthAfter lang above

theorem reached_start (ordered : Ordered hits) :
    Reached lang options hits [] ⟨0, 0, hits.zipIdx, .zero⟩ := by
  refine ⟨rfl, rfl, ⟨0, le_rfl, ?_⟩, fun _ => rfl⟩
  refine (List.filter_eq_self.mpr fun hit mem => ?_).symm
  have := ordered.filled _ (List.fst_mem_of_mem_zipIdx mem)
  rw [decide_eq_true_eq]
  omega

/-- Every row keeps it up. -/
theorem Reached.row (ordered : Ordered hits) (reached : Reached lang options hits above s)
    (line : List Char) :
    Reached lang options hits (above ++ [line]) (Page.row lang current options s line).2 := by
  obtain ⟨bound, le, pending⟩ := reached.pending
  refine ⟨?_, ?_, ⟨s.offset, ?_, ?_⟩, ?_⟩
  · show s.index + 1 = (above ++ [line]).length
    rw [reached.index, List.length_append, List.length_singleton]
  · show s.offset + line.length + 1 = Document.offsetAfter (above ++ [line])
    rw [reached.offset, Document.offsetAfter, Document.offsetAfter, List.foldl_append]
    rfl
  · show s.offset ≤ s.offset + line.length + 1
    omega
  · show s.pending.dropWhile _ = notOver hits s.offset
    rw [pending, dropWhile_notOver ordered le]
  · intro colors
    rw [depth_row colors, reached.depth colors, depthAfter, depthAfter, List.foldl_append]
    rfl

theorem reached_stateAfter (ordered : Ordered hits) (lines : List (List Char)) :
    Reached lang options hits lines
      (stateAfter lang current options ⟨0, 0, hits.zipIdx, .zero⟩ lines) := by
  induction lines using List.reverseRecOn with
  | nil => exact reached_start ordered
  | append_singleton above line ih =>
    unfold stateAfter at ih ⊢
    rw [List.foldl_append]
    exact ih.row ordered line

theorem Reached.rowMarks (ordered : Ordered hits) (reached : Reached lang options hits above s) :
    rowMarks current s line =
      marksOn current s.offset (s.offset + line.length) (notOver hits s.offset) := by
  obtain ⟨bound, le, pending⟩ := reached.pending
  unfold Page.rowMarks
  rw [pending, dropWhile_notOver ordered le]

/-! ## What a reader sees -/

/-- The colour of a character of a line that follows others. -/
def colorAt (lang : Language) (options : PageOptions) (above : List (List Char))
    (line : List Char) (j : ℕ) : Option String :=
  if options.colors then
    (Token.kindAt (Token.scan lang (depthAfter lang above) line).1 j).bind options.theme.color
  else none

theorem plain_row (lang : Language) (current : Option ℕ) (options : PageOptions) (s : State)
    (line : List Char) : ∀ run ∈ (row lang current options s line).1.runs, run.Plain := by
  by_cases colors : options.colors
  · rw [runs_row_of_colors colors]
    exact Markup.plain_colored _ _ _ _ _
  · rw [runs_row_of_not_colors colors]
    exact Markup.plain_uncolored _ _

theorem seen_row {index : MatchIndex} (ordered : Ordered index.hits)
    (reached : Reached lang options index.hits above s) (line : List Char) :
    (row lang current options s line).1.runs.flatMap Markup.Run.seen =
      line.mapIdx fun j c => ⟨c, colorAt lang options above line j,
        index.emphasisAt current (s.offset + j)⟩ := by
  have apart : (rowMarks current s line).Pairwise Markup.Mark.Before := by
    rw [reached.rowMarks ordered]
    exact pairwise_marksOn ordered
  have marks (j : ℕ) (lt : j < line.length) : Markup.emphasisAt (rowMarks current s line) j =
      index.emphasisAt current (s.offset + j) := by
    rw [reached.rowMarks ordered]
    exact emphasisAt_marksOn ordered (by omega)
  by_cases colors : options.colors
  · rw [runs_row_of_colors colors, Markup.seen_colored _ _ _ apart, List.mapIdx_eq_mapIdx_iff]
    intro j lt
    rw [marks j lt, reached.depth colors, colorAt, if_pos colors]
  · rw [runs_row_of_not_colors colors, Markup.seen_uncolored apart, List.mapIdx_eq_mapIdx_iff]
    intro j lt
    rw [marks j lt, colorAt, if_neg colors]

theorem newline_not_mem_row {index : MatchIndex} (ordered : Ordered index.hits)
    (reached : Reached lang options index.hits above s) (clear : '\n' ∉ line) :
    '\n' ∉ Markup.write (row lang current options s line).1.runs := by
  refine Markup.newline_not_mem_write (plain_row lang current options s line) ?_
  rw [seen_row ordered reached]
  intro seen mem
  obtain ⟨j, lt, rfl⟩ := List.mem_mapIdx.mp mem
  intro feed
  exact clear (feed ▸ List.getElem_mem lt)

end Glance.Page
