import Glance.Proofs.Document.Positions
import Glance.Proofs.Markup.Tags
import Glance.Proofs.Page.Render

/-!
# Emphasized lines of a page

A page is cut at its line feeds into the pieces of its lines, gutters included. The tag of an
emphasis stands on the pieces of just those lines that hold a character under that emphasis
(`Document.tagOn_render_iff`), in colours and without them.
-/

namespace Glance

open Page

/-- The tag of an emphasis stands on line `k` of a markup, counted from 0. -/
def Markup.TagOn (emphasis : Markup.Emphasis) (markup : List Char) (k : ℕ) : Prop :=
  ∃ piece, (markup.splitOn '\n')[k]? = some piece ∧ emphasis.openTag <:+: piece

variable {lang : Language} {current : Option ℕ} {options : PageOptions} {index : MatchIndex}
  {emphasis : Markup.Emphasis} {above : List (List Char)} {s : State} {i k : ℕ}

theorem MatchIndex.emphasisAt_eq_current_iff :
    index.emphasisAt current i = .current ↔
      ∃ m, current.bind index.get? = some m ∧ m.Covers i := by
  have any : (current.bind index.get?).any (fun m => m.Covers i) ↔
      ∃ m, current.bind index.get? = some m ∧ m.Covers i := by
    rw [Option.any_eq_true]
    simp
  unfold MatchIndex.emphasisAt
  split_ifs with here
  · exact iff_of_true rfl (any.mp here)
  · exact iff_of_false (by decide) (mt any.mpr here)
  · exact iff_of_false (by decide) (mt any.mpr here)

namespace Page

/-! ## One row -/

/-- What the gutter of line `i` is put together from. -/
def gutterPieces (options : PageOptions) (i : ℕ) : List (List Char) :=
  ["<span class=\"gutter\">".toList,
    if options.lineNumbers then Nat.toDigits 10 (i + 1) else [], "</span>".toList]

theorem flatten_gutterPieces (options : PageOptions) (i : ℕ) :
    (gutterPieces options i).flatten = gutter options i := by
  unfold gutterPieces gutter
  rw [List.flatten_cons, List.flatten_cons, List.flatten_cons, List.flatten_nil, List.append_nil,
    List.append_assoc]

theorem less_not_mem_number (options : PageOptions) (i : ℕ) :
    '<' ∉ if options.lineNumbers then Nat.toDigits 10 (i + 1) else [] := by
  split_ifs
  · intro mem
    exact absurd (Nat.isDigit_of_mem_toDigits (by decide) (by decide) mem) (by decide)
  · exact List.not_mem_nil

theorem isPiece_gutterPieces : ∀ piece ∈ gutterPieces options i, Markup.IsPiece piece := by
  unfold gutterPieces
  refine List.forall_mem_cons.mpr ⟨.inl ⟨"span class=\"gutter\"".toList, rfl, by decide⟩, ?_⟩
  refine List.forall_mem_cons.mpr ⟨.inr (less_not_mem_number options i), ?_⟩
  exact List.forall_mem_singleton.mpr (.inl ⟨"/span".toList, rfl, by decide⟩)

theorem openTag_not_mem_gutterPieces (marked : emphasis ≠ .unmarked) :
    emphasis.openTag ∉ gutterPieces options i := by
  have fixed : emphasis.openTag ≠ "<span class=\"gutter\">".toList ∧
      emphasis.openTag ≠ "</span>".toList ∧ '<' ∈ emphasis.openTag := by
    cases emphasis with
    | unmarked => exact absurd rfl marked
    | found | current => decide
  obtain ⟨opened, closed, less⟩ := fixed
  unfold gutterPieces
  simp only [List.mem_cons, List.not_mem_nil, or_false, not_or]
  refine ⟨opened, ?_, closed⟩
  intro eq
  exact less_not_mem_number options i (eq ▸ less)

theorem colored_row (lang : Language) (current : Option ℕ) (options : PageOptions) (s : State)
    (line : List Char) : ∀ run ∈ (row lang current options s line).1.runs, ∀ color ∈ run.color,
      ∃ kind, options.theme.color kind = some color := by
  intro run mem color known
  by_cases colors : options.colors
  · rw [runs_row_of_colors colors] at mem
    obtain ⟨kind, eq⟩ := Markup.color_of_mem_runsFrom mem
    exact ⟨kind, eq.symm.trans known⟩
  · rw [runs_row_of_not_colors colors] at mem
    rw [List.mem_singleton.mp mem] at known
    cases known

theorem filled_row (lang : Language) (current : Option ℕ) (options : PageOptions) (s : State)
    (line : List Char) : ∀ run ∈ (row lang current options s line).1.runs, ∀ f ∈ run.fragments,
      f.text ≠ [] := by
  intro run mem
  by_cases colors : options.colors
  · rw [runs_row_of_colors colors] at mem
    exact Markup.filled_runsFrom _ _ _ _ run mem
  · rw [runs_row_of_not_colors colors] at mem
    rw [List.mem_singleton.mp mem]
    exact Markup.filled_fragments _ _ _

/-- A row without the line feed that ends it. -/
def Row.body (r : Row) : List Char :=
  "<span class=\"gutter\">".toList ++ (r.number.map (Nat.toDigits 10)).getD [] ++
    "</span>".toList ++ Markup.write r.runs

theorem body_row (reached : Reached lang options index.hits above s) (line : List Char) :
    (row lang current options s line).1.body = gutter options above.length ++
      Markup.write (row lang current options s line).1.runs :=
  List.append_cancel_right (write_row reached line)

theorem newline_not_mem_body (ordered : Ordered index.hits)
    (reached : Reached lang options index.hits above s) {line : List Char} (clear : '\n' ∉ line) :
    '\n' ∉ (row lang current options s line).1.body := by
  rw [body_row reached, List.mem_append, not_or]
  exact ⟨newline_not_mem_gutter options _, newline_not_mem_row ordered reached clear⟩

/-- The tag of an emphasis stands in a row exactly if a character of its line is under that
emphasis. -/
theorem openTag_body_iff (ordered : Ordered index.hits)
    (reached : Reached lang options index.hits above s) (marked : emphasis ≠ .unmarked)
    (line : List Char) :
    emphasis.openTag <:+: (row lang current options s line).1.body ↔
      ∃ j < line.length, index.emphasisAt current (Document.offsetAfter above + j) = emphasis := by
  rw [body_row reached, ← flatten_gutterPieces, Markup.openTag_infix_iff marked
    (colored_row _ _ _ _ _) (filled_row _ _ _ _ _) isPiece_gutterPieces
    (openTag_not_mem_gutterPieces marked), seen_row ordered reached, ← reached.offset]
  simp only [List.mem_mapIdx]
  constructor
  · rintro ⟨_, ⟨j, lt, rfl⟩, eq⟩
    exact ⟨j, lt, eq⟩
  · rintro ⟨j, lt, eq⟩
    exact ⟨_, ⟨j, lt, rfl⟩, eq⟩

end Page

/-! ## A whole page -/

namespace Document

variable {doc : Document}

/-- A page is one piece for each line of the document, and behind the last line feed nothing. -/
theorem splitOn_render (ordered : Ordered index.hits) :
    (doc.render lang index current options).splitOn '\n' =
      (rows doc lang index current options).map Row.body ++ [[]] := by
  have whole : doc.render lang index current options =
      closed ((rows doc lang index current options).map Row.body) := by
    unfold Document.render closed
    rw [List.flatMap_map]
    rfl
  rw [whole]
  refine splitOn_closed fun piece mem => ?_
  obtain ⟨r, mem', rfl⟩ := List.mem_map.mp mem
  obtain ⟨i, known⟩ := List.mem_iff_getElem?.mp mem'
  obtain ⟨line, s, found, reached, rfl⟩ := row_of_getElem? ordered known
  exact newline_not_mem_body ordered reached
    (newline_not_mem_of_mem_lines (List.mem_of_getElem? found))

theorem tagOn_render_iff_line (ordered : Ordered index.hits) (marked : emphasis ≠ .unmarked) :
    Markup.TagOn emphasis (doc.render lang index current options) k ↔
      ∃ line, doc.lines[k]? = some line ∧ ∃ j < line.length,
        index.emphasisAt current (offsetAfter (doc.lines.take k) + j) = emphasis := by
  have count : (rows doc lang index current options).length = doc.lines.length := by
    rw [rows, length_rowsFrom]
  unfold Markup.TagOn
  rw [splitOn_render ordered]
  by_cases inside : k < doc.lines.length
  · obtain ⟨r, row⟩ : ∃ r, (rows doc lang index current options)[k]? = some r :=
      ⟨_, List.getElem?_eq_getElem (by rwa [count])⟩
    obtain ⟨line, s, found, reached, rfl⟩ := row_of_getElem? ordered row
    rw [List.getElem?_append_left (by rwa [List.length_map, count]), List.getElem?_map, row, found]
    simp [openTag_body_iff ordered reached marked]
  · rw [List.getElem?_eq_none (Nat.le_of_not_lt inside)]
    constructor
    · -- Behind the last line feed there is nothing, and no tag is that short.
      rintro ⟨piece, known, tag⟩
      rw [List.getElem?_append_right (by rw [List.length_map, count]; omega)] at known
      rw [List.mem_singleton.mp (List.mem_of_getElem? known)] at tag
      obtain ⟨body, eq, -⟩ := Markup.bracketed_openTag marked
      rw [eq] at tag
      exact absurd (List.infix_nil.mp tag) (List.cons_ne_nil _ _)
    · rintro ⟨line, found, -⟩
      cases found

/-- The tag of an emphasis stands on the lines that hold a character under that emphasis. -/
theorem tagOn_render_iff (ordered : Ordered index.hits) (marked : emphasis ≠ .unmarked) :
    Markup.TagOn emphasis (doc.render lang index current options) k ↔
      ∃ c a, doc.text[c]? = some a ∧ a ≠ '\n' ∧ doc.lineOfChar c = .ok k ∧
        index.emphasisAt current c = emphasis := by
  rw [tagOn_render_iff_line ordered marked]
  exact exists_on_line_iff (P := fun i => index.emphasisAt current i = emphasis)

end Document

end Glance
