import Glance.Proofs.Markup.Stripped
import Glance.Proofs.Search.Hits
import Mathlib.Data.List.ProdSigma

/-!
# Markup that is faithful to its line

Under marks that come in order and lie apart, a reader of the markup of a line sees each character
of it in the colour of its token and under the mark that holds it. Each mark is opened once in every
token that it shares a character with, and nowhere else (`marked_fragments`), and without tags and
entities the line itself is left.
-/

namespace Glance

/-- The offsets between which tokens lie, of which the first begins at `start`. -/
def Token.ranges : (start : ℕ) → List Token → List (ℕ × ℕ)
  | _, [] => []
  | start, t :: tokens =>
    (start, start + t.text.length) :: ranges (start + t.text.length) tokens

namespace Markup

/-- The mark holds a character between two offsets. -/
def Mark.Meets (m : Mark) (range : ℕ × ℕ) : Prop :=
  ∃ p, m.Covers p ∧ range.1 ≤ p ∧ p < range.2

theorem Mark.meets_iff {m : Mark} {range : ℕ × ℕ} :
    m.Meets range ↔ max m.start range.1 < min m.stop range.2 := by
  constructor
  · rintro ⟨p, ⟨begins, ends⟩, lower, upper⟩
    omega
  · intro inside
    exact ⟨max m.start range.1, ⟨by omega, by omega⟩, by omega, by omega⟩

instance (m : Mark) (range : ℕ × ℕ) : Decidable (m.Meets range) :=
  decidable_of_iff _ Mark.meets_iff.symm

/-- How many `mark` elements a markup opens. -/
def openedMarks (markup : List Char) : ℕ :=
  markup.tails.countP fun rest => "<mark".toList.isPrefixOf rest

/-- The markup shows a line in colours and under marks: what a reader sees, the elements for the
marks within the ranges, and what is left without tags and entities. -/
structure Faithful (color : ℕ → Option String) (ranges : List (ℕ × ℕ)) (marks : List Mark)
    (line markup : List Char) : Prop where
  seen : read none .unmarked markup = line.mapIdx fun p c => ⟨c, color p, emphasisAt marks p⟩
  opened : openedMarks markup = (ranges ×ˢ marks).countP fun r => r.2.Meets r.1
  plain : plainText markup = line

variable {theme : Theme} {text : List Char} {start : ℕ} {marks : List Mark}
  {runs : List Run} {p : Progress}
  {color : ℕ → Option String} {ranges : List (ℕ × ℕ)} {line : List Char} {emphasis : Emphasis}

/-! ## Opened elements -/

theorem openedMarks_cons (c : Char) (rest : List Char) :
    openedMarks (c :: rest) =
      openedMarks rest + if "<mark".toList.isPrefixOf (c :: rest) then 1 else 0 := by
  unfold openedMarks
  rw [List.tails_cons, List.countP_cons]

theorem openedMarks_of_clear (clear : '<' ∉ text) (rest : List Char) :
    openedMarks (text ++ rest) = openedMarks rest := by
  induction text with
  | nil => rfl
  | cons c text ih =>
    simp only [List.mem_cons, not_or] at clear
    have other : ¬ "<mark".toList <+: c :: (text ++ rest) :=
      fun here => clear.1 (List.cons_prefix_cons.mp here).1
    rw [List.cons_append, openedMarks_cons, if_neg (by rwa [List.isPrefixOf_iff_prefix]), ih clear.2,
      add_zero]

/-- A tag opens a mark or not, whatever follows it. -/
theorem Bracketed.openedMarks_append (bracketed : Bracketed text) (opens : Bool)
    (begins : ∀ rest, "<mark".toList.isPrefixOf (text ++ rest) = opens) (rest : List Char) :
    openedMarks (text ++ rest) = openedMarks rest + opens.toNat := by
  obtain ⟨inside, rfl, clear, -⟩ := bracketed
  have clear' : '<' ∉ inside ++ ['>'] := by simpa using clear
  have here := begins rest
  rw [List.cons_append] at here
  rw [List.cons_append, openedMarks_cons, here, openedMarks_of_clear clear']
  cases opens <;> rfl

theorem openedMarks_openTag (marked : emphasis ≠ .unmarked) (rest : List Char) :
    openedMarks (emphasis.openTag ++ rest) = openedMarks rest + 1 := by
  refine (bracketed_openTag marked).openedMarks_append true (fun rest => ?_) rest
  cases emphasis with
  | unmarked => exact absurd rfl marked
  | found | current => rfl

theorem openedMarks_closeTag (emphasis : Emphasis) (rest : List Char) :
    openedMarks (emphasis.closeTag ++ rest) = openedMarks rest := by
  cases emphasis with
  | unmarked => rfl
  | found | current =>
    exact (bracketed_closeTag (by decide)).openedMarks_append false (fun _ => rfl) rest

/-- The number of fragments under a mark. -/
def marked (fragments : List Fragment) : ℕ :=
  fragments.countP fun f => f.emphasis ≠ .unmarked

theorem marked_append (a b : List Fragment) : marked (a ++ b) = marked a + marked b :=
  List.countP_append

theorem openedMarks_fragment (f : Fragment) (rest : List Char) :
    openedMarks (f.write ++ rest) = marked [f] + openedMarks rest := by
  have inside : openedMarks (escape f.text ++ (f.emphasis.closeTag ++ rest)) =
      openedMarks rest := by
    rw [openedMarks_of_clear (special_not_mem_escape f.text).1, openedMarks_closeTag]
  unfold Fragment.write marked
  rw [List.append_assoc, List.append_assoc]
  by_cases unmarked : f.emphasis = .unmarked
  · rw [List.countP_cons_of_neg (by simpa using unmarked), List.countP_nil, zero_add]
    rw [unmarked] at inside ⊢
    exact inside
  · rw [List.countP_cons_of_pos (by simpa using unmarked), List.countP_nil,
      openedMarks_openTag unmarked, inside, add_comm]

theorem openedMarks_write
    (colored : ∀ run ∈ runs, ∀ color ∈ run.color, ∃ kind, theme.color kind = some color) :
    openedMarks (write runs) = marked (runs.flatMap Run.fragments) := by
  have opens (kind : TokenKind) (color : String) (known : theme.color kind = some color) :=
    (IsTag.openColor known).bracketed.openedMarks_append false fun _ => rfl
  have closes :=
    (IsTag.closeColor : IsTag theme _).bracketed.openedMarks_append false fun _ => rfl
  rw [foldr_write openedMarks_fragment opens closes colored]
  induction runs.flatMap Run.fragments with
  | nil => rfl
  | cons f fragments ih => rw [List.foldr_cons, ih, ← marked_append, List.singleton_append]

/-! ## Fragments under marks -/

/-- Cutting along a mark, whatever it is, makes one fragment under it if it meets the text. -/
theorem Progress.Lies.marked_cut (lies : p.Lies text start) (m : Mark) :
    marked (p.cut text start (start + text.length) m).done =
      marked p.done + if m.Meets (start, start + text.length) then 1 else 0 := by
  simp only [Mark.meets_iff]
  by_cases inside : max m.start start < min m.stop (start + text.length)
  · have emphasized : m.emphasis ≠ .unmarked := by
      unfold Mark.emphasis
      split_ifs <;> decide
    rw [lies.cut_eq inside, if_pos inside]
    unfold marked
    rw [List.countP_cons_of_pos (by simpa using emphasized), List.countP_append]
    split_ifs <;> simp
  · rw [cut_of_le (not_lt.mp inside), if_neg inside, add_zero]

theorem marked_foldl (lies : p.Lies text start) (marks : List Mark) :
    marked (marks.foldl (Progress.cut text start (start + text.length)) p).done =
      marked p.done + marks.countP fun m => m.Meets (start, start + text.length) := by
  induction marks generalizing p with
  | nil => rfl
  | cons m marks ih =>
    rw [List.foldl_cons, ih (lies.cut m), lies.marked_cut, List.countP_cons]
    simp only [decide_eq_true_eq]
    omega

/-- A text has a fragment for each of the marks that meet it, in whatever order they come. -/
theorem marked_fragments (start : ℕ) (text : List Char) (marks : List Mark) :
    marked (Markup.fragments start text marks) =
      marks.countP fun m => m.Meets (start, start + text.length) := by
  have all := marked_foldl (Progress.lies_start text start) marks
  unfold Markup.fragments marked at *
  dsimp only at all ⊢
  rw [List.countP_reverse]
  split_ifs
  · rw [List.countP_cons_of_neg (by simp), all, List.countP_nil, zero_add]
  · rw [all, List.countP_nil, zero_add]

theorem marked_runsFrom (theme : Theme) (marks : List Mark) (start : ℕ) (tokens : List Token) :
    marked ((runsFrom theme marks start tokens).flatMap Run.fragments) =
      (Token.ranges start tokens ×ˢ marks).countP fun r => r.2.Meets r.1 := by
  induction tokens generalizing start with
  | nil => rfl
  | cons t tokens ih =>
    rw [runsFrom_cons, List.flatMap_cons, marked_append, ih, Token.ranges, List.product_cons,
      List.countP_append, List.countP_map, marked_fragments]
    rfl

/-! ## Lines -/

/-- Runs in colours of the theme are written faithfully to what they show. -/
theorem faithful_write (theme : Theme)
    (colored : ∀ run ∈ runs, ∀ color ∈ run.color, ∃ kind, theme.color kind = some color)
    (plain : ∀ run ∈ runs, run.Plain)
    (seen : runs.flatMap Run.seen = line.mapIdx fun p c => ⟨c, color p, emphasisAt marks p⟩)
    (opened : marked (runs.flatMap Run.fragments) =
      (ranges ×ˢ marks).countP fun r => r.2.Meets r.1) :
    Faithful color ranges marks line (write runs) := by
  refine ⟨(read_write plain).trans seen, (openedMarks_write colored).trans opened, ?_⟩
  rw [plainText_write colored, ← char_seen, seen]
  exact List.ext_getElem (by simp) fun j _ _ => by simp

theorem faithful_colored (lang : Language) (theme : Theme) (depth : BracketDepth)
    (apart : marks.Pairwise Mark.Before) (line : List Char) :
    let tokens := (Token.scan lang depth line).1
    Faithful (fun p => (Token.kindAt tokens p).bind theme.color) (Token.ranges 0 tokens) marks line
      (renderLine lang theme depth marks line).1 := by
  intro tokens
  refine faithful_write theme (fun run mem color known => ?_)
    (plain_colored lang theme depth marks line) (seen_colored lang theme depth apart line)
    (marked_runsFrom theme marks 0 tokens)
  obtain ⟨kind, eq⟩ := color_of_mem_runsFrom mem
  exact ⟨kind, eq.symm.trans known⟩

theorem faithful_uncolored (apart : marks.Pairwise Mark.Before) (line : List Char) :
    Faithful (fun _ => none) [(0, line.length)] marks line (renderPlain marks line) := by
  refine faithful_write .classic (fun run mem color known => ?_)
    (plain_uncolored marks line) (seen_uncolored apart line) ?_
  · rw [List.mem_singleton.mp mem] at known
    cases known
  · show marked (Markup.fragments 0 line marks ++ []) = _
    rw [List.append_nil, marked_fragments, List.product_cons, List.countP_append, List.countP_map, zero_add]
    rfl

theorem pairwise_before (sorted : marks.Pairwise fun a b => a.start ≤ b.start)
    (disjoint : marks.Pairwise fun a b => ∀ p, ¬ (a.Covers p ∧ b.Covers p)) :
    marks.Pairwise Mark.Before := by
  refine sorted.imp₂ (fun a b le clear _ filled => ?_) disjoint
  by_contra late
  exact clear b.start ⟨⟨le, not_le.mp late⟩, le_rfl, filled⟩

theorem pairwise_marksOf (line query : List Char) :
    (marksOf (Search.hits line query)).Pairwise Mark.Before := by
  unfold marksOf
  rw [List.pairwise_map]
  exact (Search.pairwise_hits line query).imp fun le _ _ => le

/-- Matches are marked as they lie. -/
theorem emphasisAt_marksOf (hits : List Match) (p : ℕ) :
    emphasisAt (marksOf hits) p =
      if ∃ hit ∈ hits, hit.start ≤ p ∧ p < hit.stop then .found else .unmarked := by
  have found : ∀ m ∈ marksOf hits, m.emphasis = .found := by
    intro m mem
    obtain ⟨hit, -, rfl⟩ := List.mem_map.mp mem
    rfl
  split_ifs with here
  · obtain ⟨hit, mem, covers⟩ := here
    have mem' : (⟨hit.start, hit.stop, false⟩ : Mark) ∈ marksOf hits := List.mem_map_of_mem mem
    exact emphasisAt_eq mem' covers fun m other _ => found m other
  · refine emphasisAt_eq_unmarked fun m mem covers => here ?_
    obtain ⟨hit, known, rfl⟩ := List.mem_map.mp mem
    exact ⟨hit, known, covers⟩

/-- Under marks that come in order and share no character, the markup of a line is faithful to it,
in the colours of any theme and without colours. For any query it is in the classic theme, under the
matches of the query as they lie. -/
theorem renderLine_faithful (lang : Language) (theme : Theme) (depth : BracketDepth)
    (marks : List Mark) (line : List Char)
    (sorted : marks.Pairwise fun a b => a.start ≤ b.start)
    (disjoint : marks.Pairwise fun a b => ∀ p, ¬ (a.Covers p ∧ b.Covers p)) :
    let tokens := (Token.scan lang depth line).1
    let ranges := Token.ranges 0 tokens
    let color (theme : Theme) (p : ℕ) := (Token.kindAt tokens p).bind theme.color
    Faithful (color theme) ranges marks line (renderLine lang theme depth marks line).1 ∧
    Faithful (fun _ => none) [(0, line.length)] marks line (renderPlain marks line) ∧
    ∀ query, let hits := Search.hits line query
      Faithful (color .classic) ranges (marksOf hits) line
        (highlightLine lang query depth line).1 ∧
      ∀ p, emphasisAt (marksOf hits) p =
        if ∃ hit ∈ hits, hit.start ≤ p ∧ p < hit.stop then .found else .unmarked := by
  have apart := pairwise_before sorted disjoint
  refine ⟨faithful_colored lang theme depth apart line, faithful_uncolored apart line,
    fun query => ⟨?_, emphasisAt_marksOf _⟩⟩
  exact faithful_colored lang .classic depth (pairwise_marksOf line query) line

/-- Marks that cross the end of a token, hold nothing, cut an entity and reach past the line. -/
theorem renderLine_faithful_escaped :
    let line := "let é = \"&lt;\" & x;".toList
    let marks : List Mark := [⟨2, 5, false⟩, ⟨5, 5, false⟩, ⟨9, 12, true⟩, ⟨17, 40, false⟩]
    let tokens := (Token.scan .rust ⟨0⟩ line).1
    (marks.Pairwise fun a b => a.start ≤ b.start) ∧
    (marks.Pairwise fun a b => ∀ p, ¬ (a.Covers p ∧ b.Covers p)) ∧
    Faithful (fun p => (Token.kindAt tokens p).bind Theme.classic.color) (Token.ranges 0 tokens)
      marks line (renderLine .rust .classic ⟨0⟩ marks line).1 ∧
    openedMarks (renderLine .rust .classic ⟨0⟩ marks line).1 = 4 := by
  intro line marks tokens
  have sorted : marks.Pairwise fun a b => a.start ≤ b.start := by decide
  have apart : marks.Pairwise fun a b => a.stop ≤ b.start := by decide
  have disjoint : marks.Pairwise fun a b => ∀ p, ¬ (a.Covers p ∧ b.Covers p) := by
    refine apart.imp fun le p both => ?_
    obtain ⟨⟨-, ends⟩, begins, -⟩ := both
    omega
  exact ⟨sorted, disjoint,
    (renderLine_faithful .rust .classic ⟨0⟩ marks line sorted disjoint).1, by decide +kernel⟩

end Markup

end Glance
