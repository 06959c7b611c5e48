import Glance.Proofs.Document
import Glance.Proofs.Search.Hits

/-!
# Searching line by line

No other character folds to a line feed, so a query without one has no hit across the end of a line.
The scan of a whole text therefore begins anew behind every line feed, and finds what the scans of
the single lines find, each at the offset of its line.
-/

namespace Glance

/-! ## Folding -/

namespace Text

theorem lt_smallOf {bound : ℕ} {runs : List CaseRun} (above : ∀ run ∈ runs, bound < run.target)
    {n : ℕ} (lt : bound < n) : bound < smallOf n runs := by
  induction runs with
  | nil => exact lt
  | cons run runs ih =>
    obtain ⟨first, rest⟩ := List.forall_mem_cons.mp above
    unfold smallOf
    split_ifs
    · omega
    · exact ih rest

theorem toLower_eq_newline : ∀ n < 128, (Char.ofNat n).toLower = '\n' → n = 10 := by
  decide

theorem ofNat_ne_newline {n : ℕ} (ne : n ≠ 10) : Char.ofNat n ≠ '\n' := by
  intro feed
  by_cases valid : n.isValidChar
  · rw [Char.ofNat, dif_pos valid] at feed
    exact ne (congrArg Char.toNat feed)
  · rw [Char.ofNat, dif_neg valid] at feed
    exact absurd feed (by decide)

/-- Only a line feed folds to a line feed. -/
theorem foldChar_eq_newline {c : Char} : foldChar c = '\n' ↔ c = '\n' := by
  constructor
  · intro feed
    unfold foldChar at feed
    split_ifs at feed with small
    · have eq := toLower_eq_newline c.toNat small (by rwa [Char.ofNat_toNat])
      rw [← Char.ofNat_toNat c, eq]
    · -- Beyond ASCII every small letter has a code above 10, or is the character itself.
      have lt : 10 < smallOf c.toNat caseRuns := lt_smallOf (by decide +kernel) (by omega)
      exact absurd feed (ofNat_ne_newline (Nat.ne_of_gt lt))
  · rintro rfl
    decide

theorem newline_mem_fold {text : List Char} : '\n' ∈ fold text ↔ '\n' ∈ text := by
  unfold fold
  rw [List.mem_map]
  constructor
  · rintro ⟨c, mem, feed⟩
    exact foldChar_eq_newline.mp feed ▸ mem
  · exact fun mem => ⟨'\n', mem, foldChar_eq_newline.mpr rfl⟩

end Text

/-! ## Hits at an offset -/

/-- The occurrence in a text that has `offset` more characters in front. -/
def Match.shift (offset : ℕ) (m : Match) : Match :=
  ⟨offset + m.start, m.length⟩

theorem Match.start_shift (offset : ℕ) (m : Match) : (m.shift offset).start = offset + m.start :=
  rfl

theorem Match.stop_shift (offset : ℕ) (m : Match) : (m.shift offset).stop = offset + m.stop :=
  Nat.add_assoc ..

theorem Match.shift_shift (far near : ℕ) (m : Match) :
    (m.shift near).shift far = m.shift (far + near) := by
  unfold shift
  rw [Nat.add_assoc]

namespace Search

variable {needle query : List Char}

/-! ## The scan at a line feed -/

theorem isPrefixOf_append_newline (clear : '\n' ∉ needle) (line rest : List Char) :
    needle.isPrefixOf (line ++ '\n' :: rest) = needle.isPrefixOf line := by
  induction needle generalizing line with
  | nil => rfl
  | cons a needle ih =>
    rw [List.mem_cons, not_or] at clear
    cases line with
    | nil =>
      rw [List.nil_append, List.isPrefixOf_cons_cons, beq_eq_false_iff_ne.mpr (Ne.symm clear.1)]
      rfl
    | cons c line =>
      rw [List.cons_append, List.isPrefixOf_cons_cons, List.isPrefixOf_cons_cons, ih clear.2]

/-- A hit that is still awaited ends on its line, so the scan is free again behind the line feed. -/
theorem scan_append_newline (clear : '\n' ∉ needle) (filled : needle ≠ []) {wait : ℕ}
    {line : List Char} (le : wait ≤ line.length) (pos : ℕ) (rest : List Char) :
    scan needle [] wait pos (line ++ '\n' :: rest) =
      scan needle [] wait pos line ++ scan needle [] 0 (pos + line.length + 1) rest := by
  induction line generalizing wait pos with
  | nil =>
    obtain rfl : wait = 0 := Nat.le_zero.mp le
    have miss : ¬ needle.isPrefixOf ('\n' :: rest) := by
      rw [← List.nil_append ('\n' :: rest), isPrefixOf_append_newline clear]
      simpa using filled
    rw [List.nil_append, scan_miss miss]
    rfl
  | cons c line ih =>
    rw [List.length_cons, show pos + (line.length + 1) + 1 = pos + 1 + line.length + 1 by omega]
    cases wait with
    | succ wait => exact ih (Nat.le_of_succ_le_succ le) (pos + 1)
    | zero =>
      have same := isPrefixOf_append_newline clear (c :: line) rest
      by_cases hit : needle.isPrefixOf (c :: line)
      · have fits : needle.length - 1 ≤ line.length := by
          have := (List.isPrefixOf_iff_prefix.mp hit).length_le
          rw [List.length_cons] at this
          omega
        rw [List.cons_append] at same ⊢
        rw [scan_hit (same.trans hit), scan_hit hit, ih fits]
        rfl
      · rw [List.cons_append] at same ⊢
        rw [scan_miss (by rwa [same]), scan_miss hit, ih (Nat.zero_le _)]

theorem scan_shift (needle : List Char) (offset wait pos : ℕ) (text : List Char) :
    scan needle [] wait (offset + pos) text =
      (scan needle [] wait pos text).map (Match.shift offset) := by
  induction text generalizing wait pos with
  | nil => rfl
  | cons c rest ih =>
    cases wait with
    | succ wait => exact ih wait (pos + 1)
    | zero =>
      by_cases hit : needle.isPrefixOf (c :: rest)
      · rw [scan_hit hit, scan_hit hit, List.map_cons, Nat.add_assoc, ih]
        rfl
      · rw [scan_miss hit, scan_miss hit, Nat.add_assoc, ih]

/-! ## Hits -/

/-- A query without a line feed has no hit with one. -/
theorem ne_newline_of_mem_hits (clear : '\n' ∉ query) {text : List Char} {m : Match}
    (hit : m ∈ hits text query) {i : ℕ} (begins : m.start ≤ i) (ends : i < m.stop) {a : Char}
    (known : text[i]? = some a) : a ≠ '\n' := by
  rintro rfl
  have stop : m.stop = m.start + m.length := rfl
  have inside : '\n' ∈ (text.drop m.start).take m.length := by
    refine List.mem_of_getElem? (i := i - m.start) ?_
    rw [List.getElem?_take_of_lt (by omega), List.getElem?_drop, Nat.add_sub_cancel' begins]
    exact known
  rw [← Text.newline_mem_fold, fold_of_mem_hits hit, Text.newline_mem_fold] at inside
  exact clear inside

theorem hits_nil (query : List Char) : hits [] query = [] := by
  unfold hits
  split_ifs <;> rfl

theorem hits_append_newline (clear : '\n' ∉ query) (line rest : List Char) :
    hits (line ++ '\n' :: rest) query =
      hits line query ++ (hits rest query).map (Match.shift (line.length + 1)) := by
  unfold hits
  split_ifs with empty
  · rfl
  · have folded : Text.fold (line ++ '\n' :: rest) =
        Text.fold line ++ '\n' :: Text.fold rest := by
      unfold Text.fold
      rw [List.map_append, List.map_cons, Text.foldChar_eq_newline.mpr rfl]
    have filled : Text.fold query ≠ [] := by
      simpa [Text.fold] using empty
    rw [folded, scan_append_newline (mt Text.newline_mem_fold.mp clear) filled (Nat.zero_le _),
      ← scan_shift, Text.length_fold, Nat.zero_add]

/-- The occurrences of a query in lines that are searched one by one, as offsets into the text that
has a line feed between the lines. -/
def hitsByLine (query : List Char) : List (List Char) → List Match
  | [] => []
  | line :: rest =>
    hits line query ++ (hitsByLine query rest).map (Match.shift (line.length + 1))

theorem hitsByLine_cons (query line : List Char) (rest : List (List Char)) :
    hitsByLine query (line :: rest) =
      hits line query ++ (hitsByLine query rest).map (Match.shift (line.length + 1)) := rfl

theorem hits_intercalate (clear : '\n' ∉ query) (lines : List (List Char)) :
    hits (['\n'].intercalate lines) query = hitsByLine query lines := by
  induction lines with
  | nil => exact hits_nil query
  | cons line rest ih =>
    cases rest with
    | nil => simp [hitsByLine]
    | cons next rest =>
      rw [List.intercalate_cons_cons, List.append_assoc, List.singleton_append,
        hits_append_newline clear, ih, hitsByLine_cons query line]

/-- A search of a whole text finds what searches of its lines find. -/
theorem hits_eq_hitsByLine (clear : '\n' ∉ query) (doc : Document) :
    hits doc.text query = hitsByLine query doc.lines := by
  rw [← hits_intercalate clear, doc.intercalate_lines]

end Search

end Glance
