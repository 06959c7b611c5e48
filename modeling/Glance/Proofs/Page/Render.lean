import Glance.Proofs.Page.Rows

/-!
# Reading a page back

A rendered document is one piece of markup for each of its lines. Read back, a piece is its line:
every character stands there once, in the colour of its token and with the emphasis of the hit on
it, for any hits a search can give, those of another text included.
-/

namespace Glance

open Page

variable {lang : Language} {current : Option ℕ} {options : PageOptions}

/-- The gutter of line `i`, counted from 0. -/
def Page.gutter (options : PageOptions) (i : ℕ) : List Char :=
  "<span class=\"gutter\">".toList ++
    (if options.lineNumbers then Nat.toDigits 10 (i + 1) else []) ++ "</span>".toList

theorem Page.newline_not_mem_gutter (options : PageOptions) (i : ℕ) :
    '\n' ∉ gutter options i := by
  intro h
  rcases List.mem_append.mp h with h | h
  · rcases List.mem_append.mp h with h | h
    · exact absurd h (by decide)
    · split_ifs at h
      · exact absurd (Nat.isDigit_of_mem_toDigits (by decide) (by decide) h) (by decide)
      · cases h
  · exact absurd h (by decide)

/-- Row `i` is made from line `i` and from what is known of the lines above it. -/
theorem Page.row_of_getElem? {doc : Document} {index : MatchIndex} (ordered : Ordered index.hits)
    {i : ℕ} {r : Row} (known : (rows doc lang index current options)[i]? = some r) :
    ∃ line s, doc.lines[i]? = some line ∧
      Reached lang options index.hits (doc.lines.take i) s ∧
      r = (row lang current options s line).1 := by
  unfold rows at known
  rw [getElem?_rowsFrom] at known
  obtain ⟨line, found, rfl⟩ := Option.map_eq_some_iff.mp known
  exact ⟨line, _, found, reached_stateAfter ordered _, rfl⟩

theorem Page.write_row {hits : List Match} {above : List (List Char)} {s : State}
    (reached : Reached lang options hits above s) (line : List Char) :
    (row lang current options s line).1.write = gutter options above.length ++
      Markup.write (row lang current options s line).1.runs ++ ['\n'] := by
  have number : (row lang current options s line).1.number =
      if options.lineNumbers then some (above.length + 1) else none := by
    rw [← reached.index]
    rfl
  unfold Row.write gutter
  rw [number]
  split_ifs <;> rfl

/-- Every line of a document reads back from its own piece of the page. -/
theorem Document.render_reads_back (doc : Document) (lang : Language) (text query : List Char)
    (current : Option ℕ) (options : PageOptions) :
    ∃ codes : List (List Char), codes.length = doc.lineTotal ∧
      doc.render lang (.ofText text query) current options =
        (codes.mapIdx fun i code => gutter options i ++ code ++ ['\n']).flatten ∧
      ∀ (i : ℕ) (code : List Char), codes[i]? = some code →
        '\n' ∉ gutter options i ++ code ∧
          ∃ line start, doc.line i = .ok line ∧ doc.charOfLine i = .ok start ∧
            Markup.read none .unmarked code = line.mapIdx fun j c =>
              ⟨c, colorAt lang options (doc.lines.take i) line j,
                (MatchIndex.ofText text query).emphasisAt current (start + j)⟩ := by
  have ordered : Ordered (MatchIndex.ofText text query).hits := ordered_hits text query
  refine ⟨(rows doc lang (.ofText text query) current options).map fun row =>
    Markup.write row.runs, ?_, ?_, ?_⟩
  · rw [List.length_map, rows, length_rowsFrom, doc.length_lines]
  · unfold Document.render
    rw [List.flatMap_def]
    refine congrArg List.flatten (List.ext_getElem? fun i => ?_)
    rw [List.getElem?_map, List.getElem?_mapIdx, List.getElem?_map]
    cases known : (rows doc lang (.ofText text query) current options)[i]? with
    | none => rfl
    | some r =>
      obtain ⟨line, s, found, reached, rfl⟩ := row_of_getElem? ordered known
      have above : (doc.lines.take i).length = i := by
        have := (List.getElem?_eq_some_iff.mp found).1
        rw [List.length_take]
        omega
      rw [Option.map_some, Option.map_some, Option.map_some, write_row reached, above]
  · intro i code known
    rw [List.getElem?_map] at known
    obtain ⟨r, known', rfl⟩ := Option.map_eq_some_iff.mp known
    obtain ⟨line, s, found, reached, rfl⟩ := row_of_getElem? ordered known'
    obtain ⟨lt, eq⟩ := List.getElem?_eq_some_iff.mp found
    have clear := Document.newline_not_mem_of_mem_lines (List.mem_of_getElem? found)
    constructor
    · rw [List.mem_append, not_or]
      exact ⟨newline_not_mem_gutter options i, newline_not_mem_row ordered reached clear⟩
    · refine ⟨line, _, Document.line_eq_ok found, Document.charOfLine_eq_ok lt, ?_⟩
      rw [Markup.read_write (plain_row lang current options s line), seen_row ordered reached,
        reached.offset]

end Glance
