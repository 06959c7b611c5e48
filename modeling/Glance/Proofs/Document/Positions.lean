import Glance.Proofs.Document

/-!
# Lines and offsets

With a line feed behind its end, a text is its lines one after the other, each closed by a line
feed (`closed_lines`). An offset into the text therefore falls on exactly one line, where it is at
most the offset of the line feed that ends it (`lineOfChar_eq_ok_iff`), and all that is said about
line numbers and offsets is read off this.
-/

namespace Glance.Document

variable {doc : Document} {i c L : ℕ} {line : List Char}

/-! ## Closed lines -/

/-- Lines one after the other, each with the line feed that ends it. -/
def closed (lines : List (List Char)) : List Char :=
  lines.flatMap fun line => line ++ ['\n']

theorem closed_append (above below : List (List Char)) :
    closed (above ++ below) = closed above ++ closed below :=
  List.flatMap_append

theorem closed_cons (line : List Char) (below : List (List Char)) :
    closed (line :: below) = line ++ '\n' :: closed below := by
  unfold closed
  rw [List.flatMap_cons, List.append_assoc]
  rfl

theorem intercalate_append_newline {lines : List (List Char)} (filled : lines ≠ []) :
    ['\n'].intercalate lines ++ ['\n'] = closed lines := by
  induction lines with
  | nil => exact absurd rfl filled
  | cons line below ih =>
    cases below with
    | nil => simp [closed]
    | cons next below =>
      rw [List.intercalate_cons_cons, List.append_assoc, List.append_assoc,
        ih (List.cons_ne_nil _ _), closed_cons line]
      rfl

theorem closed_eq_intercalate (lines : List (List Char)) :
    closed lines = ['\n'].intercalate (lines ++ [[]]) := by
  induction lines with
  | nil => rfl
  | cons line below ih =>
    cases below with
    | nil => simp [closed]
    | cons next below =>
      rw [closed_cons, ih]
      simp only [List.cons_append, List.intercalate_cons_cons, List.append_assoc, List.nil_append]

/-- Cut at its line feeds, such a text is the lines and an empty one. -/
theorem splitOn_closed {lines : List (List Char)} (clear : ∀ line ∈ lines, '\n' ∉ line) :
    (closed lines).splitOn '\n' = lines ++ [[]] := by
  rw [closed_eq_intercalate]
  refine List.splitOn_intercalate '\n' (fun line mem => ?_) (by simp)
  rcases List.mem_append.mp mem with mem | mem
  · exact clear line mem
  · rw [List.mem_singleton.mp mem]
    exact List.not_mem_nil

/-- Closed by one more line feed, a text is its lines. -/
theorem closed_lines (doc : Document) : closed doc.lines = doc.text ++ ['\n'] := by
  have filled : doc.lines ≠ [] := List.cons_ne_nil _ _
  rw [← intercalate_append_newline filled, intercalate_lines]

theorem offsetAfter_eq_sum (lines : List (List Char)) :
    offsetAfter lines = (lines.map fun line => line.length + 1).sum := by
  unfold offsetAfter
  rw [List.sum_eq_foldl, List.foldl_map]

theorem offsetAfter_append (above below : List (List Char)) :
    offsetAfter (above ++ below) = offsetAfter above + offsetAfter below := by
  simp only [offsetAfter_eq_sum, List.map_append, List.sum_append]

theorem offsetAfter_cons (line : List Char) (below : List (List Char)) :
    offsetAfter (line :: below) = line.length + 1 + offsetAfter below := by
  simp only [offsetAfter_eq_sum, List.map_cons, List.sum_cons]

theorem length_closed (lines : List (List Char)) : (closed lines).length = offsetAfter lines := by
  induction lines with
  | nil => rfl
  | cons line below ih =>
    rw [closed_cons, offsetAfter_cons, List.length_append, List.length_cons, ih]
    omega

theorem count_closed {lines : List (List Char)} (clear : ∀ line ∈ lines, '\n' ∉ line) :
    (closed lines).count '\n' = lines.length := by
  induction lines with
  | nil => rfl
  | cons line below ih =>
    obtain ⟨first, others⟩ := List.forall_mem_cons.mp clear
    rw [closed_cons, List.count_append, List.count_eq_zero_of_not_mem first,
      List.count_cons_self, ih others, List.length_cons, Nat.zero_add]

theorem offsetAfter_lines (doc : Document) : offsetAfter doc.lines = doc.charCount + 1 := by
  rw [← length_closed, closed_lines, List.length_append]
  rfl

/-! ## A line in the text -/

/-- Line `i` stands between the closed lines above it and the closed lines below. -/
theorem text_around (found : doc.lines[i]? = some line) :
    doc.text ++ ['\n'] =
      closed (doc.lines.take i) ++ (line ++ '\n' :: closed (doc.lines.drop (i + 1))) := by
  obtain ⟨lt, rfl⟩ := List.getElem?_eq_some_iff.mp found
  rw [← closed_cons, ← List.drop_eq_getElem_cons lt, ← closed_append, List.take_append_drop,
    closed_lines]

theorem length_take_lines (found : doc.lines[i]? = some line) : (doc.lines.take i).length = i := by
  have := (List.getElem?_eq_some_iff.mp found).1
  rw [List.length_take]
  omega

/-- Line `i` and its line feed begin behind those above, and end by the end of the closed text. -/
theorem end_le (found : doc.lines[i]? = some line) :
    offsetAfter (doc.lines.take i) + line.length ≤ doc.charCount := by
  have := congrArg List.length (text_around found)
  simp only [List.length_append, List.length_cons, List.length_nil, length_closed] at this
  show _ ≤ doc.text.length
  omega

/-- The next line begins behind the line feed. -/
theorem offsetAfter_take_succ (found : doc.lines[i]? = some line) :
    offsetAfter (doc.lines.take (i + 1)) = offsetAfter (doc.lines.take i) + line.length + 1 := by
  obtain ⟨lt, rfl⟩ := List.getElem?_eq_some_iff.mp found
  rw [← List.take_append_getElem lt, offsetAfter_append, offsetAfter_cons]
  rfl

theorem getElem?_closed_text (found : doc.lines[i]? = some line) (j : ℕ) :
    (doc.text ++ ['\n'])[offsetAfter (doc.lines.take i) + j]? =
      (line ++ '\n' :: closed (doc.lines.drop (i + 1)))[j]? := by
  rw [text_around found, ← length_closed, List.getElem?_append_right (Nat.le_add_right _ _),
    Nat.add_sub_cancel_left]

/-- The characters of line `i` stand in the text from its offset on. -/
theorem getElem?_text (found : doc.lines[i]? = some line) {j : ℕ} (lt : j < line.length) :
    doc.text[offsetAfter (doc.lines.take i) + j]? = (line)[j]? := by
  have inside : offsetAfter (doc.lines.take i) + j < doc.text.length := by
    have := end_le found
    unfold charCount at this
    omega
  have same := getElem?_closed_text found j
  rwa [List.getElem?_append_left inside, List.getElem?_append_left lt] at same

/-- Behind line `i` stands a line feed, unless the text is over. -/
theorem getElem?_text_end (found : doc.lines[i]? = some line) {a : Char}
    (known : doc.text[offsetAfter (doc.lines.take i) + line.length]? = some a) : a = '\n' := by
  have inside := (List.getElem?_eq_some_iff.mp known).1
  have same := getElem?_closed_text found line.length
  rw [List.getElem?_append_left inside, known, List.getElem?_append_right le_rfl,
    Nat.sub_self] at same
  exact Option.some.inj same

/-! ## The line of an offset -/

theorem exists_line_of_lt {lines : List (List Char)} (lt : c < offsetAfter lines) :
    ∃ i line, lines[i]? = some line ∧ offsetAfter (lines.take i) ≤ c ∧
      c ≤ offsetAfter (lines.take i) + line.length := by
  induction lines generalizing c with
  | nil => exact absurd lt (Nat.not_lt_zero _)
  | cons line below ih =>
    rw [offsetAfter_cons] at lt
    by_cases first : c ≤ line.length
    · exact ⟨0, line, rfl, Nat.zero_le _, by simpa [offsetAfter] using first⟩
    · obtain ⟨i, other, found, low, high⟩ := ih (c := c - (line.length + 1)) (by omega)
      refine ⟨i + 1, other, found, ?_, ?_⟩ <;> rw [List.take_succ_cons, offsetAfter_cons] <;> omega

theorem count_take (found : doc.lines[i]? = some line)
    (low : offsetAfter (doc.lines.take i) ≤ c)
    (high : c ≤ offsetAfter (doc.lines.take i) + line.length) :
    (doc.text.take c).count '\n' = i := by
  have inside : c ≤ doc.text.length := le_trans high (end_le found)
  have clear : '\n' ∉ line.take (c - offsetAfter (doc.lines.take i)) := fun mem =>
    newline_not_mem_of_mem_lines (List.mem_of_getElem? found) (List.mem_of_mem_take mem)
  have above : ∀ line ∈ doc.lines.take i, '\n' ∉ line := fun line mem =>
    newline_not_mem_of_mem_lines (List.mem_of_mem_take mem)
  have cut : doc.text.take c = closed (doc.lines.take i) ++
      line.take (c - offsetAfter (doc.lines.take i)) := by
    have whole : (closed (doc.lines.take i)).take c = closed (doc.lines.take i) :=
      List.take_of_length_le (by rwa [length_closed])
    rw [← whole, ← List.take_append_of_le_length inside, text_around found, List.take_append,
      length_closed, List.take_append_of_le_length (by omega)]
  rw [cut, List.count_append, count_closed above, length_take_lines found,
    List.count_eq_zero_of_not_mem clear, Nat.add_zero]

/-- The line of an offset is the one that the offset falls on, its line feed included. -/
theorem lineOfChar_eq_ok_iff :
    doc.lineOfChar c = .ok L ↔ ∃ line, doc.lines[L]? = some line ∧
      offsetAfter (doc.lines.take L) ≤ c ∧ c ≤ offsetAfter (doc.lines.take L) + line.length := by
  unfold lineOfChar
  constructor
  · intro known
    split_ifs at known with outside
    have lt : c < offsetAfter doc.lines := by
      rw [offsetAfter_lines]
      unfold charCount
      omega
    obtain ⟨i, line, found, low, high⟩ := exists_line_of_lt lt
    rw [count_take found low high, Except.ok.injEq] at known
    subst known
    exact ⟨line, found, low, high⟩
  · rintro ⟨line, found, low, high⟩
    have inside : c ≤ doc.text.length := le_trans high (end_le found)
    rw [if_neg (by omega), count_take found low high]

theorem lineOfChar_start (found : doc.lines[i]? = some line) :
    doc.lineOfChar (offsetAfter (doc.lines.take i)) = .ok i :=
  lineOfChar_eq_ok_iff.mpr ⟨line, found, le_rfl, Nat.le_add_right _ _⟩

theorem lineOfChar_eq_ok (inside : c ≤ doc.charCount) :
    doc.lineOfChar c = .ok ((doc.text.take c).count '\n') :=
  if_neg (Nat.not_lt_of_le inside)

/-- An offset lies behind the start of its line, and before the start of the next one. -/
theorem between_starts (known : doc.lineOfChar c = .ok L) :
    ∃ start, doc.charOfLine L = .ok start ∧ start ≤ c ∧
      ∀ next, doc.charOfLine (L + 1) = .ok next → c < next := by
  obtain ⟨line, found, low, high⟩ := lineOfChar_eq_ok_iff.mp known
  have lt := (List.getElem?_eq_some_iff.mp found).1
  refine ⟨_, charOfLine_eq_ok lt, low, fun next start => ?_⟩
  by_cases last : L + 1 < doc.lines.length
  · rw [charOfLine_eq_ok last, offsetAfter_take_succ found, Except.ok.injEq] at start
    omega
  · unfold charOfLine at start
    rw [length_lines] at last
    rw [if_pos (by omega)] at start
    cases start

theorem lineOfChar_mono {c' L' : ℕ} (le : c ≤ c') (known : doc.lineOfChar c = .ok L)
    (known' : doc.lineOfChar c' = .ok L') : L ≤ L' := by
  unfold lineOfChar at known known'
  split_ifs at known known' with outside outside'
  rw [Except.ok.injEq] at known known'
  rw [← known, ← known']
  exact (List.take_sublist_take_left le).count_le _

/-- Offsets without a line feed between them are on one line. -/
theorem lineOfChar_eq_of_clear {c' : ℕ} (le : c ≤ c') (inside : c' ≤ doc.charCount)
    (clear : ∀ i, c ≤ i → i < c' → ∀ a, doc.text[i]? = some a → a ≠ '\n') :
    doc.lineOfChar c' = doc.lineOfChar c := by
  obtain ⟨n, rfl⟩ := Nat.exists_eq_add_of_le le
  have none : '\n' ∉ (doc.text.drop c).take n := by
    intro mem
    obtain ⟨k, lt, eq⟩ := List.mem_take_iff_getElem.mp mem
    refine clear (c + k) (by omega) (by omega) '\n' ?_ rfl
    rw [← eq, List.getElem_drop, List.getElem?_eq_getElem]
  rw [lineOfChar_eq_ok inside, lineOfChar_eq_ok (le.trans inside), List.take_add,
    List.count_append, List.count_eq_zero_of_not_mem none, Nat.add_zero]

/-- The characters of a line are those on it that are no line feeds. -/
theorem exists_on_line_iff {P : ℕ → Prop} :
    (∃ line, doc.lines[L]? = some line ∧
        ∃ j < line.length, P (offsetAfter (doc.lines.take L) + j)) ↔
      ∃ c a, doc.text[c]? = some a ∧ a ≠ '\n' ∧ doc.lineOfChar c = .ok L ∧ P c := by
  constructor
  · rintro ⟨line, found, j, lt, holds⟩
    have other : (line)[j] ≠ '\n' := fun feed =>
      newline_not_mem_of_mem_lines (List.mem_of_getElem? found) (feed ▸ List.getElem_mem lt)
    refine ⟨_, (line)[j], ?_, other, ?_, holds⟩
    · rw [getElem?_text found lt, List.getElem?_eq_getElem lt]
    · exact lineOfChar_eq_ok_iff.mpr ⟨line, found, Nat.le_add_right _ _, by omega⟩
  · rintro ⟨c, a, known, other, on, holds⟩
    obtain ⟨line, found, low, high⟩ := lineOfChar_eq_ok_iff.mp on
    have lt : c < offsetAfter (doc.lines.take L) + line.length := by
      refine lt_of_le_of_ne high fun ends => other ?_
      rw [ends] at known
      exact getElem?_text_end found known
    refine ⟨line, found, c - offsetAfter (doc.lines.take L), by omega, ?_⟩
    rwa [Nat.add_sub_cancel' low]

/-! ## The lines a reader counts -/

/-- A text cut behind every line feed; the last piece may have none, but is not empty. -/
def pieces : List Char → List (List Char)
  | [] => []
  | c :: rest =>
    if c = '\n' then ['\n'] :: pieces rest
    else match pieces rest with
      | [] => [[c]]
      | piece :: more => (c :: piece) :: more

/-- A piece without the line feed that ends it, or the carriage return and line feed. -/
def bare (piece : List Char) : List Char :=
  if piece.getLast? = some '\n' then
    if piece.dropLast.getLast? = some '\r' then piece.dropLast.dropLast else piece.dropLast
  else piece

/-- The lines of a text as a reader goes through them, without what ends each of them. -/
def readerLines (text : List Char) : List (List Char) :=
  (pieces text).map bare

theorem length_pieces_cons (a : Char) (rest : List Char) :
    (pieces (a :: rest)).length =
      if a = '\n' then (pieces rest).length + 1 else max 1 (pieces rest).length := by
  rw [pieces]
  split_ifs with feed
  · rfl
  · cases pieces rest with
    | nil => rfl
    | cons piece more => simp

theorem lineCount_cons (a : Char) (rest : List Char) :
    lineCount ⟨a :: rest⟩ =
      if a = '\n' then lineCount ⟨rest⟩ + 1 else max 1 (lineCount ⟨rest⟩) := by
  unfold lineCount lineTotal
  rcases List.eq_nil_or_concat rest with rfl | ⟨more, last, rfl⟩
  · split_ifs with feed <;> simp [feed]
  · rw [List.concat_eq_append, ← List.cons_append, List.getLast?_concat, List.getLast?_concat]
    by_cases feed : a = '\n' <;> by_cases ends : last = '\n' <;> simp [feed, ends]

/-- The count of lines is the number of lines that a reader goes through. -/
theorem lineCount_eq_length (text : List Char) :
    lineCount ⟨text⟩ = (readerLines text).length := by
  unfold readerLines
  rw [List.length_map]
  induction text with
  | nil => rfl
  | cons a rest ih => rw [lineCount_cons, length_pieces_cons, ih]

example : readerLines "one\r\n\ntwo\rthree\n".toList =
    ["one".toList, [], "two\rthree".toList] := by decide

/-! ## The line model -/

/-- The lines of a document, its positions and its two line counts tell of one text. -/
structure LinesAgree (doc : Document) : Prop where
  /-- The lines hold no line feed, and are the text with one between each and the next. -/
  clear : ∀ line ∈ doc.lines, '\n' ∉ line
  join : ['\n'].intercalate doc.lines = doc.text
  total : doc.lineTotal = doc.text.count '\n' + 1 ∧ doc.lines.length = doc.lineTotal
  /-- A line is asked for by its number, counted from 0. -/
  line : ∀ i, doc.line i =
    if h : i < doc.lines.length then .ok doc.lines[i]
    else .error (.lineOutOfBounds i doc.lineTotal)
  /-- A line starts behind the lines above and the line feeds that end them. -/
  charOfLine : ∀ i, doc.charOfLine i =
    if i < doc.lineTotal then .ok ((doc.lines.take i).map fun line => line.length + 1).sum
    else .error (.lineOutOfBounds i doc.lineTotal)
  /-- The line of an offset is the number of line feeds before it; the text's end is an offset. -/
  lineOfChar : ∀ c, doc.lineOfChar c =
    if c ≤ doc.charCount then .ok ((doc.text.take c).count '\n') else .error (.charOutOfBounds c)
  between : ∀ c ≤ doc.charCount, ∃ L start, doc.lineOfChar c = .ok L ∧
    doc.charOfLine L = .ok start ∧ start ≤ c ∧ ∀ next, doc.charOfLine (L + 1) = .ok next → c < next
  lineOfStart : ∀ i < doc.lineTotal, ∃ start, doc.charOfLine i = .ok start ∧
    doc.lineOfChar start = .ok i
  mono : ∀ c c', c ≤ c' → c' ≤ doc.charCount → ∃ L L', doc.lineOfChar c = .ok L ∧
    doc.lineOfChar c' = .ok L' ∧ L ≤ L'
  /-- A final line feed starts no line that a reader counts, and an empty text has none. -/
  count : doc.lineCount = (readerLines doc.text).length

/-- Whatever its characters, a document's views of its lines agree. -/
theorem lines_agree (doc : Document) : doc.LinesAgree where
  clear _ mem := newline_not_mem_of_mem_lines mem
  join := doc.intercalate_lines
  total := ⟨rfl, doc.length_lines⟩
  line i := by
    unfold Document.line
    split_ifs with inside
    · rw [List.getElem?_eq_getElem inside]
    · rw [List.getElem?_eq_none (Nat.le_of_not_lt inside)]
  charOfLine i := by
    split_ifs with inside
    · rw [← length_lines] at inside
      rw [charOfLine_eq_ok inside, offsetAfter_eq_sum]
    · exact if_pos (Nat.le_of_not_lt inside)
  lineOfChar c := by
    split_ifs with inside
    · exact lineOfChar_eq_ok inside
    · exact if_pos (Nat.lt_of_not_le inside)
  between c inside := by
    obtain ⟨start, known, le, lt⟩ := between_starts (lineOfChar_eq_ok inside)
    exact ⟨_, start, lineOfChar_eq_ok inside, known, le, lt⟩
  lineOfStart i inside := by
    rw [← length_lines] at inside
    exact ⟨_, charOfLine_eq_ok inside, lineOfChar_start (List.getElem?_eq_getElem inside)⟩
  mono c c' le inside := by
    have known := lineOfChar_eq_ok (le_trans le inside)
    have known' := lineOfChar_eq_ok inside
    exact ⟨_, _, known, known', lineOfChar_mono le known known'⟩
  count := lineCount_eq_length doc.text

end Glance.Document
