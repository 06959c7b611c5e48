import Glance.Proofs.Document
import Glance.Proofs.Markup.Line
import Glance.Proofs.Token.Grammar

/-!
# Markup by byte offsets

The same markup once more, by a procedure that knows texts only through byte offsets into their
UTF-8 form: it looks up where characters begin and takes what lies between two offsets, and fails
where an offset is inside a character or behind the text, or where the second lies before the first.
For no line and for no marks whatever does it fail, and it gives the same markup (`renderLine?_eq`).

The marks may lie anywhere, so the offset reached may go back. What holds all along is that it stays
in the text (`Progress.Lies`), and nothing more is needed.
-/

namespace Glance.Markup

open Document (utf8Length)

variable {text line : List Char} {start low high stop i : ℕ} {m : Mark} {marks : List Mark}
  {p : Progress}

/-! ## Texts by byte offsets -/

/-- A text cut in two at a byte offset between its characters. -/
def cutAt? : List Char → ℕ → Option (List Char × List Char)
  | text, 0 => some ([], text)
  | [], _ + 1 => none
  | c :: text, n + 1 =>
    if c.utf8Size ≤ n + 1 then
      (cutAt? text (n + 1 - c.utf8Size)).map fun (before, after) => (c :: before, after)
    else none

/-- What lies between two byte offsets of a text. -/
def between? (text : List Char) (low high : ℕ) : Option (List Char) := do
  let (front, _) ← cutAt? text high
  let (_, part) ← cutAt? front low
  return part

/-- The byte offsets at which the characters of a text begin, and the one behind the last. -/
def boundaries (text : List Char) : List ℕ :=
  (List.range (text.length + 1)).map fun i => utf8Length (text.take i)

/-- The byte offset of a character of a text that lies at the offsets from `start` on. -/
def byteOf? (start : ℕ) (text : List Char) (offset : ℕ) : Option ℕ :=
  if start ≤ offset then (boundaries text)[offset - start]? else none

/-- What lies between two characters of such a text. -/
def slice? (start : ℕ) (text : List Char) (low high : ℕ) : Option (List Char) := do
  between? text (← byteOf? start text low) (← byteOf? start text high)

theorem cutAt?_append (before after : List Char) :
    cutAt? (before ++ after) (utf8Length before) = some (before, after) := by
  induction before with
  | nil => cases after <;> rfl
  | cons c before ih =>
    have size := c.utf8Size_pos
    obtain ⟨n, eq⟩ : ∃ n, utf8Length (c :: before) = n + 1 :=
      Nat.exists_eq_succ_of_ne_zero (Document.utf8Length_pos.mpr (List.cons_ne_nil _ _)).ne'
    have rest : n + 1 - c.utf8Size = utf8Length before := by
      rw [Document.utf8Length_cons] at eq
      omega
    have fits : c.utf8Size ≤ n + 1 := by
      rw [Document.utf8Length_cons] at eq
      omega
    rw [eq, List.cons_append, cutAt?, if_pos fits, rest, ih]
    rfl

theorem between?_append (before inside after : List Char) :
    between? (before ++ inside ++ after) (utf8Length before) (utf8Length (before ++ inside)) =
      some inside := by
  unfold between?
  rw [cutAt?_append]
  show (do let (_, part) ← cutAt? (before ++ inside) (utf8Length before); return part) = _
  rw [cutAt?_append]
  rfl

theorem byteOf?_eq (begins : start ≤ i) (ends : i ≤ start + text.length) :
    byteOf? start text i = some (utf8Length (text.take (i - start))) := by
  unfold byteOf? boundaries
  rw [if_pos begins, List.getElem?_map, List.getElem?_range (by omega)]
  rfl

/-- Offsets in order and inside of the text have something between them. -/
theorem slice?_eq (begins : start ≤ low) (le : low ≤ high) (ends : high ≤ start + text.length) :
    slice? start text low high = some ((text.drop (low - start)).take (high - low)) := by
  have whole : text = text.take (low - start) ++ (text.drop (low - start)).take (high - low) ++
      text.drop (high - start) := by
    have behind : text.drop (high - start) = (text.drop (low - start)).drop (high - low) := by
      rw [List.drop_drop]
      congr 1
      omega
    rw [behind, List.append_assoc, List.take_append_drop, List.take_append_drop]
  have front : text.take (high - start) =
      text.take (low - start) ++ (text.drop (low - start)).take (high - low) := by
    rw [← List.take_add]
    congr 1
    omega
  have cut := between?_append (text.take (low - start))
    ((text.drop (low - start)).take (high - low)) (text.drop (high - start))
  rw [← whole] at cut
  unfold slice?
  rw [byteOf?_eq begins (by omega), byteOf?_eq (by omega) ends, front]
  exact cut

/-! ## Cutting at any marks -/

theorem Progress.lies_start (text : List Char) (start : ℕ) :
    Progress.Lies text start ⟨start, text, []⟩ :=
  ⟨le_rfl, Nat.le_add_right _ _, by simp⟩

/-- A mark with something inside shows it, and in front of it what was not reached before. -/
theorem Progress.Lies.cut_eq (lies : p.Lies text start)
    (inside : max m.start start < min m.stop (start + text.length)) :
    let low := max m.start start
    let high := min m.stop (start + text.length)
    p.cut text start (start + text.length) m =
      ⟨high, text.drop (high - start),
        ⟨m.emphasis, (text.drop (low - start)).take (high - low)⟩ ::
          ((if p.position < low then
            [⟨.unmarked, (text.drop (p.position - start)).take (low - p.position)⟩] else []) ++
              p.done)⟩ := by
  intro low high
  have begins := lies.low
  have begins' : start ≤ low := le_max_right _ _
  have filled : low < high := inside
  have onward : (if p.position ≤ low then p.ahead.drop (low - p.position)
      else text.drop (low - start)) = text.drop (low - start) := by
    split_ifs with reached
    · rw [lies.ahead, List.drop_drop]
      congr 1
      omega
    · rfl
  have ahead : (text.drop (low - start)).drop (high - low) = text.drop (high - start) := by
    rw [List.drop_drop]
    congr 1
    omega
  unfold Progress.cut
  rw [if_neg (not_le.mpr inside)]
  dsimp only
  rw [onward, ahead, lies.ahead]

theorem Progress.Lies.cut (lies : p.Lies text start) (m : Mark) :
    (p.cut text start (start + text.length) m).Lies text start := by
  by_cases inside : max m.start start < min m.stop (start + text.length)
  · rw [lies.cut_eq inside]
    refine ⟨?_, min_le_right _ _, rfl⟩
    exact (le_max_right _ _).trans inside.le
  · rw [cut_of_le (not_lt.mp inside)]
    exact lies

/-- Cuts along one mark by offsets: the offset reached, and the fragments so far, last first. -/
def cut? (text : List Char) (start stop : ℕ) (p : ℕ × List Fragment) (m : Mark) :
    Option (ℕ × List Fragment) := do
  let low := max m.start start
  let high := min m.stop stop
  if high ≤ low then return p
  let before ← if p.1 < low then (slice? start text p.1 low).map fun gap => [⟨.unmarked, gap⟩]
    else some []
  return (high, ⟨m.emphasis, ← slice? start text low high⟩ :: (before ++ p.2))

/-- The fragments of a text by offsets. -/
def fragments? (start : ℕ) (text : List Char) (marks : List Mark) : Option (List Fragment) := do
  let stop := start + text.length
  let p ← marks.foldlM (cut? text start stop) (start, [])
  if p.1 < stop then return (⟨.unmarked, ← slice? start text p.1 stop⟩ :: p.2).reverse
  return p.2.reverse

theorem cut?_eq (lies : p.Lies text start) (m : Mark) :
    cut? text start (start + text.length) (p.position, p.done) m =
      some ((p.cut text start (start + text.length) m).position,
        (p.cut text start (start + text.length) m).done) := by
  unfold cut?
  by_cases inside : max m.start start < min m.stop (start + text.length)
  · have begins := lies.low
    have ends := lies.high
    rw [lies.cut_eq inside, if_neg (not_le.mpr inside),
      slice?_eq (le_max_right _ _) inside.le (min_le_right _ _)]
    dsimp only
    split_ifs with gap
    · rw [slice?_eq begins gap.le (by omega)]
      rfl
    · rfl
  · rw [cut_of_le (not_lt.mp inside), if_pos (not_lt.mp inside)]
    rfl

theorem foldlM_cut?_eq (lies : p.Lies text start) (marks : List Mark) :
    let q := marks.foldl (Progress.cut text start (start + text.length)) p
    marks.foldlM (cut? text start (start + text.length)) (p.position, p.done) =
      some (q.position, q.done) ∧ q.Lies text start := by
  induction marks generalizing p with
  | nil => exact ⟨rfl, lies⟩
  | cons m marks ih =>
    obtain ⟨eq, lies'⟩ := ih (lies.cut m)
    refine ⟨?_, lies'⟩
    rw [List.foldlM_cons, cut?_eq lies m]
    exact eq

theorem fragments?_eq (start : ℕ) (text : List Char) (marks : List Mark) :
    fragments? start text marks = some (fragments start text marks) := by
  obtain ⟨eq, lies⟩ := foldlM_cut?_eq (Progress.lies_start text start) marks
  unfold fragments? fragments
  dsimp only at eq ⊢
  rw [eq]
  generalize marks.foldl _ _ = q at *
  have length := lies.length_ahead
  show (if q.position < start + text.length then _ else _) = _
  split_ifs with more
  · rw [slice?_eq lies.low more.le le_rfl, ← lies.ahead, List.take_of_length_le (by omega)]
    rfl
  · rfl

/-! ## Lines -/

/-- The runs of the spans of a line by offsets, the first of which lies at `start`. -/
def runs? (theme : Theme) (marks : List Mark) (line : List Char) :
    (start : ℕ) → List Span → Option (List Run)
  | _, [] => return []
  | start, s :: spans => do
    let text ← between? line s.start s.stop
    let run : Run := ⟨theme.color s.kind, ← fragments? start text marks⟩
    return run :: (← runs? theme marks line (start + text.length) spans)

/-- The markup of a line by offsets, and the depth behind it. -/
def renderLine? (lang : Language) (theme : Theme) (depth : BracketDepth) (marks : List Mark)
    (line : List Char) : Option (List Char × BracketDepth) := do
  let (tokens, after) := Token.scan lang depth line
  return (write (← runs? theme marks line 0 (Span.ofTokens 0 tokens)), after)

/-- The markup of a line by offsets, without colours. -/
def renderPlain? (marks : List Mark) (line : List Char) : Option (List Char) := do
  return write [⟨none, ← fragments? 0 line marks⟩]

theorem runs?_eq (theme : Theme) (marks : List Mark) {line before : List Char} (start : ℕ)
    {tokens : List Token} (whole : line = before ++ tokens.flatMap Token.text) :
    runs? theme marks line start (Span.ofTokens (utf8Length before) tokens) =
      some (runsFrom theme marks start tokens) := by
  induction tokens generalizing before start with
  | nil => rfl
  | cons t tokens ih =>
    rw [List.flatMap_cons, ← List.append_assoc] at whole
    have here : between? line (utf8Length before) (utf8Length before + utf8Length t.text) =
        some t.text := by
      rw [whole, ← Document.utf8Length_append]
      exact between?_append _ _ _
    have behind := ih (start + t.text.length) whole
    rw [Document.utf8Length_append] at behind
    unfold Span.ofTokens runs?
    rw [here]
    show (do
      let run : Run := ⟨theme.color t.kind, ← fragments? start t.text marks⟩
      return run :: (← runs? theme marks line (start + t.text.length) _)) = _
    rw [fragments?_eq, behind, runsFrom_cons]
    rfl

/-- No offset is ever out of range, whatever the marks are. -/
theorem renderLine?_eq (lang : Language) (theme : Theme) (depth : BracketDepth)
    (marks : List Mark) (line : List Char) :
    renderLine? lang theme depth marks line = some (renderLine lang theme depth marks line) := by
  have whole : line = [] ++ (Token.scan lang depth line).1.flatMap Token.text :=
    (Token.text_scan lang depth line).symm
  have runs := runs?_eq theme marks 0 whole
  rw [Document.utf8Length_nil] at runs
  unfold renderLine?
  show (do return (write (← runs? theme marks line 0
    (Span.ofTokens 0 (Token.scan lang depth line).1)), (Token.scan lang depth line).2)) = _
  rw [runs]
  rfl

theorem renderPlain?_eq (marks : List Mark) (line : List Char) :
    renderPlain? marks line = some (renderPlain marks line) := by
  unfold renderPlain?
  rw [fragments?_eq]
  rfl

end Glance.Markup
