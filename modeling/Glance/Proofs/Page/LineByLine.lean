import Glance.Proofs.Page.Render
import Glance.Proofs.Search.Lines

/-!
# A page is its lines, highlighted one by one

A page has one search over its whole text, whose hits are cut at the ends of lines. For a query
without a line feed there is nothing to cut: the marks of a row are the hits of a search in its line
alone. Since the depth is carried along in the same way, the page is what highlighting line after
line gives.
-/

namespace Glance

open Search

variable {lang : Language} {query : List Char} {hits before after : List Match}
  {current : Option ℕ} {low high : ℕ}

namespace Page

/-- Lines highlighted one after the other, each behind its gutter; line `i` comes first. The depth
behind a line is the depth of the next one. -/
def lineByLine (lang : Language) (query : List Char) (options : PageOptions) :
    ℕ → BracketDepth → List (List Char) → List Char
  | _, _, [] => []
  | i, depth, line :: rest =>
    let (code, depth) := Markup.highlightLine lang query depth line
    gutter options i ++ code ++ ['\n'] ++ lineByLine lang query options (i + 1) depth rest

/-! ## The marks of one row -/

/-- Without an emphasized hit the places of the hits in their list do not count. -/
theorem marksOn_none (ordered : Ordered hits) :
    marksOn none low high (notOver hits low) =
      (hits.filter fun m => low < m.stop ∧ m.start < high).map
        fun m => ⟨max m.start low - low, min m.stop high - low, false⟩ := by
  rw [marksOn_notOver ordered]
  unfold notOver
  rw [List.filter_filter]
  conv_rhs => rw [← List.zipIdx_map_fst 0 hits, List.filter_map, List.map_map]
  congr 1
  refine List.filter_congr fun hit _ => ?_
  rw [Bool.eq_iff_iff]
  simp only [Bool.and_eq_true, decide_eq_true_eq, Function.comp_apply]
  exact and_comm

/-- The hits in front of a line end above it and the hits behind it begin below it, so its marks are
its own hits. -/
theorem marksOn_eq_marksOf {line : List Char} (ordered : Ordered hits)
    (split : hits = before ++ (Search.hits line query).map (Match.shift low) ++ after)
    (past : ∀ m ∈ before, m.stop ≤ low) (below : ∀ m ∈ after, low + line.length ≤ m.start) :
    marksOn none low (low + line.length) (notOver hits low) =
      Markup.marksOf (Search.hits line query) := by
  have none_before : before.filter
      (fun m => low < m.stop ∧ m.start < low + line.length) = [] := by
    refine List.filter_eq_nil_iff.mpr fun m mem => ?_
    have := past m mem
    simp only [decide_eq_true_eq]
    omega
  have none_after : after.filter
      (fun m => low < m.stop ∧ m.start < low + line.length) = [] := by
    refine List.filter_eq_nil_iff.mpr fun m mem => ?_
    have := below m mem
    simp only [decide_eq_true_eq]
    omega
  have own : ((Search.hits line query).map (Match.shift low)).filter
      (fun m => low < m.stop ∧ m.start < low + line.length) =
        (Search.hits line query).map (Match.shift low) := by
    refine List.filter_eq_self.mpr fun m mem => ?_
    obtain ⟨n, found, rfl⟩ := List.mem_map.mp mem
    have filled := start_lt_stop_of_mem_hits found
    have inside := stop_le_of_mem_hits found
    rw [decide_eq_true_eq, Match.stop_shift, Match.start_shift]
    omega
  rw [marksOn_none ordered, split, List.filter_append, List.filter_append, none_before,
    none_after, own, List.nil_append, List.append_nil, List.map_map]
  refine List.map_congr_left fun m mem => ?_
  have inside := stop_le_of_mem_hits mem
  rw [Function.comp_apply, Match.stop_shift, Match.start_shift, Markup.Mark.mk.injEq]
  exact ⟨by omega, by omega, rfl⟩

/-! ## One row after the other -/

/-- The rows below `above` are their lines, highlighted one by one, if only hits of lines above and
of these lines are known. -/
theorem flatMap_write_rowsFrom (options : PageOptions) (colors : options.colors)
    (classic : options.theme = .classic) (ordered : Ordered hits) {above : List (List Char)}
    {s : State} (reached : Reached lang options hits above s) (lines : List (List Char))
    (split : hits = before ++ (hitsByLine query lines).map (Match.shift s.offset))
    (past : ∀ m ∈ before, m.stop ≤ s.offset) :
    (rowsFrom lang none options [] s lines).flatMap Row.write =
      lineByLine lang query options above.length s.depth lines := by
  induction lines generalizing above s before with
  | nil => rfl
  | cons line rest ih =>
    have shifted : (hitsByLine query (line :: rest)).map (Match.shift s.offset) =
        (Search.hits line query).map (Match.shift s.offset) ++
          (hitsByLine query rest).map (Match.shift (s.offset + (line.length + 1))) := by
      rw [hitsByLine_cons, List.map_append, List.map_map]
      congr 2
      funext m
      exact m.shift_shift _ _
    rw [shifted, ← List.append_assoc] at split
    have marks : rowMarks none s line = Markup.marksOf (Search.hits line query) := by
      rw [reached.rowMarks ordered]
      refine marksOn_eq_marksOf ordered split past fun m mem => ?_
      obtain ⟨n, -, rfl⟩ := List.mem_map.mp mem
      show s.offset + line.length ≤ s.offset + (line.length + 1) + n.start
      omega
    have depth : (row lang none options s line).2.depth = (Token.scan lang s.depth line).2 :=
      depth_row colors
    have next : (rowsFrom lang none options [] (row lang none options s line).2 rest).flatMap
        Row.write = lineByLine lang query options (above ++ [line]).length
          (Token.scan lang s.depth line).2 rest := by
      rw [← depth]
      refine ih (reached.row ordered line) split fun m mem => ?_
      show m.stop ≤ s.offset + line.length + 1
      rcases List.mem_append.mp mem with mem | mem
      · have := past m mem
        omega
      · obtain ⟨n, found, rfl⟩ := List.mem_map.mp mem
        have := stop_le_of_mem_hits found
        rw [Match.stop_shift]
        omega
    rw [List.length_append, List.length_singleton] at next
    rw [rowsFrom_cons, List.flatMap_cons, next, write_row reached, runs_row_of_colors colors,
      marks, classic]
    rfl

end Page

/-- A page in the classic theme with nothing emphasized is its lines, highlighted one by one, and
the one search behind it finds what the searches of the lines find. -/
theorem Document.render_eq_lineByLine (doc : Document) (lang : Language) {query : List Char}
    (oneLine : '\n' ∉ query) (lineNumbers : Bool) :
    doc.render lang (.ofText doc.text query) none ⟨lineNumbers, true, .classic⟩ =
        Page.lineByLine lang query ⟨lineNumbers, true, .classic⟩ 0 .zero doc.lines ∧
      (MatchIndex.ofText doc.text query).hits = hitsByLine query doc.lines := by
  have found := hits_eq_hitsByLine oneLine doc
  refine ⟨?_, found⟩
  have ordered : Page.Ordered (MatchIndex.ofText doc.text query).hits :=
    Page.ordered_hits doc.text query
  have split : (MatchIndex.ofText doc.text query).hits =
      [] ++ (hitsByLine query doc.lines).map (Match.shift 0) := by
    show Search.hits doc.text query = _
    rw [found, List.nil_append]
    refine ((List.map_congr_left fun m _ => ?_).trans (List.map_id _)).symm
    unfold Match.shift
    rw [Nat.zero_add]
    rfl
  exact Page.flatMap_write_rowsFrom ⟨lineNumbers, true, .classic⟩ rfl rfl ordered
    (Page.reached_start ordered) doc.lines split nofun

/-- Two lines, with a hit on each and a bracket that is open between them. -/
theorem Document.render_eq_lineByLine_brackets :
    '\n' ∉ "an".toList ∧
      (Document.mk "ban(an\nAN)".toList).render .rust
          (.ofText "ban(an\nAN)".toList "an".toList) none ⟨true, true, .classic⟩ =
        Page.lineByLine .rust "an".toList ⟨true, true, .classic⟩ 0 .zero
          ["ban(an".toList, "AN)".toList] ∧
      hitsByLine "an".toList ["ban(an".toList, "AN)".toList] = [⟨1, 2⟩, ⟨4, 2⟩, ⟨7, 2⟩] := by
  have clear : '\n' ∉ "an".toList := by decide
  obtain ⟨same, -⟩ :=
    Document.render_eq_lineByLine ⟨"ban(an\nAN)".toList⟩ .rust clear true
  exact ⟨clear, same, by decide +kernel⟩

end Glance
