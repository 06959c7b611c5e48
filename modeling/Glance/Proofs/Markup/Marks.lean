import Glance.Proofs.Markup.Reader

/-!
# Marks on a text

Marks that do not overlap and come in order lie on a text as they say: cut into fragments, every
character has the emphasis of the mark on it, and no character is lost or shown twice. The invariant
of the cutting is that all of the marks still to come begin at the offset reached or behind it.
-/

namespace Glance.Markup

/-- The mark lies on the character at the offset. -/
def Mark.Covers (m : Mark) (p : ℕ) : Prop :=
  m.start ≤ p ∧ p < m.stop

instance (m : Mark) (p : ℕ) : Decidable (m.Covers p) :=
  inferInstanceAs (Decidable (_ ∧ _))

/-- The mark ends where the other one begins or before, if neither is empty. -/
def Mark.Before (a b : Mark) : Prop :=
  a.start < a.stop → b.start < b.stop → a.stop ≤ b.start

/-- The emphasis of the character at an offset: that of the first mark on it. -/
def emphasisAt (marks : List Mark) (p : ℕ) : Emphasis :=
  ((marks.find? fun m => m.Covers p).map Mark.emphasis).getD .unmarked

/-- A text at the offsets from `start` on, under a colour and marks. -/
def seenUnder (color : Option String) (marks : List Mark) (start : ℕ) (text : List Char) :
    List Seen :=
  text.mapIdx fun j c => ⟨c, color, emphasisAt marks (start + j)⟩

variable {m : Mark} {marks : List Mark} {color : Option String} {start stop i : ℕ}
  {text : List Char} {p : Progress} {emphasis : Emphasis}

/-! ## The emphasis of a character -/

theorem emphasisAt_eq_unmarked (h : ∀ m ∈ marks, ¬ m.Covers i) :
    emphasisAt marks i = .unmarked := by
  unfold emphasisAt
  rw [List.find?_eq_none.mpr fun m mem => by simpa using h m mem]
  rfl

theorem emphasisAt_cons_pos (h : m.Covers i) : emphasisAt (m :: marks) i = m.emphasis := by
  unfold emphasisAt
  rw [List.find?_cons_of_pos (by simpa using h)]
  rfl

theorem emphasisAt_cons_neg (h : ¬ m.Covers i) :
    emphasisAt (m :: marks) i = emphasisAt marks i := by
  unfold emphasisAt
  rw [List.find?_cons_of_neg (by simpa using h)]

/-- A mark on a character gives it its emphasis if all the marks on it agree. -/
theorem emphasisAt_eq (mem : m ∈ marks) (covers : m.Covers i)
    (agree : ∀ m' ∈ marks, m'.Covers i → m'.emphasis = m.emphasis) :
    emphasisAt marks i = m.emphasis := by
  induction marks with
  | nil => cases mem
  | cons first marks ih =>
    by_cases here : first.Covers i
    · rw [emphasisAt_cons_pos here]
      exact agree first (.head _) here
    · rw [emphasisAt_cons_neg here]
      refine ih ?_ fun m' mem' => agree m' (.tail _ mem')
      rcases List.mem_cons.mp mem with rfl | mem
      · exact absurd covers here
      · exact mem

/-! ## Texts under marks -/

theorem seenUnder_append (color : Option String) (marks : List Mark) (start : ℕ)
    (a b : List Char) :
    seenUnder color marks start (a ++ b) =
      seenUnder color marks start a ++ seenUnder color marks (start + a.length) b := by
  unfold seenUnder
  rw [List.mapIdx_append]
  refine congrArg _ (congrArg (List.mapIdx · b) ?_)
  funext j c
  rw [Nat.add_assoc, Nat.add_comm j]

theorem seenUnder_congr {marks' : List Mark}
    (h : ∀ i, start ≤ i → i < start + text.length → emphasisAt marks i = emphasisAt marks' i) :
    seenUnder color marks start text = seenUnder color marks' start text := by
  unfold seenUnder
  rw [List.mapIdx_eq_mapIdx_iff]
  intro j lt
  rw [h (start + j) (by omega) (by omega)]

theorem seenUnder_eq_seen
    (h : ∀ i, start ≤ i → i < start + text.length → emphasisAt marks i = emphasis) :
    seenUnder color marks start text = Fragment.seen color ⟨emphasis, text⟩ := by
  unfold seenUnder Fragment.seen
  refine List.ext_getElem (by simp) fun j lt lt' => ?_
  rw [List.length_mapIdx] at lt
  rw [List.getElem_mapIdx, List.getElem_map, h (start + j) (by omega) (by omega)]

/-- A mark that begins behind one text, lies on the next and ends with it. -/
theorem seenUnder_cons (apart : ∀ m' ∈ marks, m.Before m') (filled : m.start < m.stop)
    {before inside behind : List Char} {low high : ℕ} (gap : start + before.length = low)
    (length : low + inside.length = high) (ahead : start < low → low ≤ m.start)
    (on : low < high → m.start ≤ low ∧ high ≤ m.stop) (off : behind ≠ [] → m.stop ≤ high) :
    seenUnder color (m :: marks) start (before ++ (inside ++ behind)) =
      Fragment.seen color ⟨.unmarked, before⟩ ++
        (Fragment.seen color ⟨m.emphasis, inside⟩ ++ seenUnder color marks high behind) := by
  have first : seenUnder color (m :: marks) start before =
      Fragment.seen color ⟨.unmarked, before⟩ := by
    refine seenUnder_eq_seen fun i lower upper => emphasisAt_eq_unmarked fun m' mem covers => ?_
    obtain ⟨begins, ends⟩ := covers
    rcases List.mem_cons.mp mem with rfl | mem
    · omega
    · have := apart m' mem filled (by omega)
      omega
  have second : seenUnder color (m :: marks) low inside =
      Fragment.seen color ⟨m.emphasis, inside⟩ := by
    refine seenUnder_eq_seen fun i lower upper => emphasisAt_cons_pos ?_
    constructor <;> omega
  have third : seenUnder color (m :: marks) high behind = seenUnder color marks high behind := by
    refine seenUnder_congr fun i lower upper => emphasisAt_cons_neg ?_
    rintro ⟨begins, ends⟩
    have := off (List.length_pos_iff.mp (by omega))
    omega
  rw [seenUnder_append, seenUnder_append, gap, length, first, second, third]

/-! ## Cutting -/

/-- The fragments when no mark is left. -/
def Progress.finish (stop : ℕ) (p : Progress) : List Fragment :=
  (if p.position < stop then ⟨.unmarked, p.ahead⟩ :: p.done else p.done).reverse

/-- What a reader sees of the fragments so far. -/
def Progress.seen (color : Option String) (p : Progress) : List Seen :=
  p.done.reverse.flatMap (Fragment.seen color)

/-- The text is cut up to an offset in it. -/
structure Progress.Lies (text : List Char) (start : ℕ) (p : Progress) : Prop where
  low : start ≤ p.position
  high : p.position ≤ start + text.length
  ahead : p.ahead = text.drop (p.position - start)

theorem Progress.Lies.length_ahead (lies : p.Lies text start) :
    p.position + p.ahead.length = start + text.length := by
  have := lies.low
  have := lies.high
  rw [lies.ahead, List.length_drop]
  omega

theorem seen_finish (lies : p.Lies text start) :
    (p.finish (start + text.length)).flatMap (Fragment.seen color) =
      p.seen color ++ Fragment.seen color ⟨.unmarked, p.ahead⟩ := by
  have length := lies.length_ahead
  unfold Progress.finish Progress.seen
  by_cases more : p.position < start + text.length
  · rw [if_pos more, List.reverse_cons, List.flatMap_append, List.flatMap_singleton]
  · rw [if_neg more, List.length_eq_zero_iff.mp (by omega : p.ahead.length = 0)]
    exact (List.append_nil _).symm

theorem cut_of_le (h : min m.stop stop ≤ max m.start start) : p.cut text start stop m = p := by
  unfold Progress.cut
  rw [if_pos h]

/-- A mark with something inside cuts what is ahead into three texts. -/
theorem cut_of_lt (clear : p.position ≤ max m.start start)
    (h : max m.start start < min m.stop stop) {before inside behind : List Char}
    (split : p.ahead = before ++ (inside ++ behind))
    (gap : p.position + before.length = max m.start start)
    (length : max m.start start + inside.length = min m.stop stop) :
    p.cut text start stop m =
      ⟨min m.stop stop, behind, ⟨m.emphasis, inside⟩ ::
        ((if p.position < max m.start start then [⟨.unmarked, before⟩] else []) ++ p.done)⟩ := by
  have low : max m.start start - p.position = before.length := by omega
  have high : min m.stop stop - max m.start start = inside.length := by omega
  unfold Progress.cut
  rw [if_neg (not_le.mpr h)]
  simp only [if_pos clear, low, high, split, List.take_left, List.drop_left]

theorem Progress.Lies.split (lies : p.Lies text start) {low high : ℕ} (clear : p.position ≤ low)
    (le : low ≤ high) (stop : high ≤ start + text.length) :
    ∃ before inside, p.ahead = before ++ (inside ++ text.drop (high - start)) ∧
      p.position + before.length = low ∧ low + inside.length = high := by
  have length := lies.length_ahead
  have begins := lies.low
  refine ⟨p.ahead.take (low - p.position), (p.ahead.drop (low - p.position)).take (high - low),
    ?_, ?_, ?_⟩
  · have behind : text.drop (high - start) =
        (p.ahead.drop (low - p.position)).drop (high - low) := by
      rw [lies.ahead, List.drop_drop, List.drop_drop]
      refine congrArg (text.drop ·) ?_
      omega
    rw [behind, List.take_append_drop, List.take_append_drop]
  · rw [List.length_take]
    omega
  · rw [List.length_take, List.length_drop]
    omega

theorem seen_foldl (apart : marks.Pairwise Mark.Before) (lies : p.Lies text start)
    (clear : ∀ m ∈ marks, m.start < m.stop → p.position ≤ max m.start start) :
    ((marks.foldl (Progress.cut text start (start + text.length)) p).finish
        (start + text.length)).flatMap (Fragment.seen color) =
      p.seen color ++ seenUnder color marks p.position p.ahead := by
  induction marks generalizing p with
  | nil => rw [List.foldl_nil, seen_finish lies, seenUnder_eq_seen fun i _ _ => rfl]
  | cons m marks ih =>
    obtain ⟨first, apart⟩ := List.pairwise_cons.mp apart
    obtain ⟨here, clear⟩ := List.forall_mem_cons.mp clear
    have begins := lies.low
    rw [List.foldl_cons]
    by_cases inside : max m.start start < min m.stop (start + text.length)
    · -- The marks to come begin where this one ends or behind it, which is the offset reached next.
      have filled : m.start < m.stop := by omega
      obtain ⟨before, on, split, gap, length⟩ :=
        lies.split (here filled) inside.le (min_le_right _ _)
      have next : ∀ m' ∈ marks, m'.start < m'.stop →
          min m.stop (start + text.length) ≤ max m'.start start := by
        intro m' mem filled'
        have := first m' mem filled filled'
        omega
      have behind : text.drop (min m.stop (start + text.length) - start) ≠ [] →
          m.stop ≤ min m.stop (start + text.length) := by
        intro ne
        have := List.length_pos_iff.mpr ne
        rw [List.length_drop] at this
        omega
      rw [cut_of_lt (here filled) inside split gap length, ih apart ⟨?_, ?_, rfl⟩ next, split,
        seenUnder_cons first filled gap length (by omega) (by omega) behind]
      · unfold Progress.seen
        split_ifs with some
        · simp
        · obtain rfl : before = [] := List.length_eq_zero_iff.mp (by omega)
          simp [Fragment.seen]
      · show start ≤ min m.stop (start + text.length)
        omega
      · exact min_le_right _ _
    · -- A mark outside of the text covers none of its characters.
      rw [cut_of_le (not_lt.mp inside), ih apart lies clear]
      refine congrArg _ (seenUnder_congr fun i low high => ?_)
      rw [emphasisAt_cons_neg]
      rintro ⟨begin, ends⟩
      have := lies.length_ahead
      omega

/-- Each character has the emphasis of the mark on it. -/
theorem seen_fragments (color : Option String) (apart : marks.Pairwise Mark.Before) (start : ℕ)
    (text : List Char) :
    (fragments start text marks).flatMap (Fragment.seen color) =
      seenUnder color marks start text := by
  have lies : Progress.Lies text start ⟨start, text, []⟩ :=
    ⟨le_rfl, Nat.le_add_right _ _, by simp⟩
  exact seen_foldl apart lies fun m _ _ => le_max_right _ _

end Glance.Markup
