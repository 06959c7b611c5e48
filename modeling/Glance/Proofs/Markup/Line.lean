import Glance.Proofs.Markup.Marks
import Glance.Proofs.Token.Tiling

/-!
# The markup of a line

The tokens of a line give its characters their colours, and the marks give them their emphasis; the
two do not disturb each other. A line in markup is still one line.
-/

namespace Glance

/-! ## Colours -/

/-- The kind of the token that holds the character at an offset. -/
def Token.kindAt : List Token → ℕ → Option TokenKind
  | [], _ => none
  | t :: tokens, j => if j < t.text.length then some t.kind else kindAt tokens (j - t.text.length)

/-- A colour is written in letters and digits, behind a `#`. -/
theorem Theme.color_chars (theme : Theme) (kind : TokenKind) :
    (theme.color kind).all fun color => color.toList.all fun c => c == '#' || c.isAlphanum := by
  cases kind with
  | bracket i =>
    revert i
    cases theme <;> decide
  | _ => cases theme <;> decide

theorem Theme.not_mem_color {theme : Theme} {kind : TokenKind} {color : String}
    (h : theme.color kind = some color) {c : Char} (other : c ≠ '#') (letter : ¬ c.isAlphanum) :
    c ∉ color.toList := by
  intro mem
  have all := theme.color_chars kind
  rw [h, Option.all_some, List.all_eq_true] at all
  simpa [other, letter] using all c mem

namespace Markup

variable {lang : Language} {theme : Theme} {depth : BracketDepth} {marks : List Mark}
  {line : List Char} {runs : List Run}

/-! ## Runs -/

/-- One token more: the offset behind it, and its run. -/
def addRun (theme : Theme) (marks : List Mark) (s : ℕ × List Run) (t : Token) : ℕ × List Run :=
  (s.1 + t.text.length, ⟨theme.color t.kind, fragments s.1 t.text marks⟩ :: s.2)

theorem runsFrom_eq (theme : Theme) (marks : List Mark) (start : ℕ) (tokens : List Token) :
    runsFrom theme marks start tokens =
      (tokens.foldl (addRun theme marks) (start, [])).2.reverse := rfl

theorem foldl_addRun (theme : Theme) (marks : List Mark) (start : ℕ) (done : List Run)
    (tokens : List Token) :
    (tokens.foldl (addRun theme marks) (start, done)).2 =
      (tokens.foldl (addRun theme marks) (start, [])).2 ++ done := by
  induction tokens generalizing start done with
  | nil => rfl
  | cons t tokens ih =>
    rw [List.foldl_cons, List.foldl_cons]
    show (tokens.foldl (addRun theme marks) (_, _ :: done)).2 =
      (tokens.foldl (addRun theme marks) (_, [_])).2 ++ done
    rw [ih _ (_ :: done), ih _ [_], List.append_assoc]
    rfl

theorem runsFrom_cons (theme : Theme) (marks : List Mark) (start : ℕ) (t : Token)
    (tokens : List Token) :
    runsFrom theme marks start (t :: tokens) =
      ⟨theme.color t.kind, fragments start t.text marks⟩ ::
        runsFrom theme marks (start + t.text.length) tokens := by
  rw [runsFrom_eq, runsFrom_eq, List.foldl_cons]
  show (tokens.foldl (addRun theme marks) (start + t.text.length, [_])).2.reverse = _
  rw [foldl_addRun, List.reverse_append]
  rfl

theorem seen_runsFrom (theme : Theme) (apart : marks.Pairwise Mark.Before) (start : ℕ)
    (tokens : List Token) :
    (runsFrom theme marks start tokens).flatMap Run.seen =
      (tokens.flatMap Token.text).mapIdx fun j c =>
        ⟨c, (Token.kindAt tokens j).bind theme.color, emphasisAt marks (start + j)⟩ := by
  induction tokens generalizing start with
  | nil => rfl
  | cons t tokens ih =>
    rw [runsFrom_cons, List.flatMap_cons, ih, List.flatMap_cons, List.mapIdx_append]
    congr 1
    · show (fragments start t.text marks).flatMap (Fragment.seen (theme.color t.kind)) = _
      rw [seen_fragments _ apart]
      unfold seenUnder
      rw [List.mapIdx_eq_mapIdx_iff]
      intro j lt
      rw [Token.kindAt, if_pos lt]
      rfl
    · rw [List.mapIdx_eq_mapIdx_iff]
      intro j lt
      rw [Token.kindAt, if_neg (by omega), Nat.add_sub_cancel, Nat.add_assoc, Nat.add_comm j]

theorem color_of_mem_runsFrom {start : ℕ} {tokens : List Token} {run : Run}
    (mem : run ∈ runsFrom theme marks start tokens) : ∃ kind, run.color = theme.color kind := by
  induction tokens generalizing start with
  | nil => cases mem
  | cons t tokens ih =>
    rw [runsFrom_cons] at mem
    rcases List.mem_cons.mp mem with rfl | mem
    · exact ⟨t.kind, rfl⟩
    · exact ih mem

/-! ## Lines -/

theorem plain_colored (lang : Language) (theme : Theme) (depth : BracketDepth)
    (marks : List Mark) (line : List Char) :
    ∀ run ∈ (colored lang theme depth marks line).1, run.Plain := by
  intro run mem color known
  obtain ⟨kind, eq⟩ := color_of_mem_runsFrom mem
  have shown : theme.color kind = some color := eq.symm.trans known
  exact ⟨Theme.not_mem_color shown (by decide) (by decide),
    Theme.not_mem_color shown (by decide) (by decide)⟩

theorem seen_colored (lang : Language) (theme : Theme) (depth : BracketDepth)
    (apart : marks.Pairwise Mark.Before) (line : List Char) :
    (colored lang theme depth marks line).1.flatMap Run.seen =
      line.mapIdx fun j c => ⟨c, (Token.kindAt (Token.scan lang depth line).1 j).bind theme.color,
        emphasisAt marks j⟩ := by
  show (runsFrom theme marks 0 (Token.scan lang depth line).1).flatMap Run.seen = _
  rw [seen_runsFrom theme apart, Token.text_scan]
  simp only [Nat.zero_add]

theorem plain_uncolored (marks : List Mark) (line : List Char) :
    ∀ run ∈ uncolored marks line, run.Plain := by
  intro run mem color known
  rw [List.mem_singleton.mp mem] at known
  cases known

theorem seen_uncolored (apart : marks.Pairwise Mark.Before) (line : List Char) :
    (uncolored marks line).flatMap Run.seen =
      line.mapIdx fun j c => ⟨c, none, emphasisAt marks j⟩ := by
  show (fragments 0 line marks).flatMap (Fragment.seen none) ++ [] = _
  rw [List.append_nil, seen_fragments none apart]
  unfold seenUnder
  simp only [Nat.zero_add]

end Markup

end Glance
