import Glance.Search
import Mathlib.Tactic.SplitIfs

/-!
# Where the hits of a search lie

The scan reports its hits from left to right. Every hit has the length of the query and lies inside
the text, and it ends where the next one begins or before. Both facts are invariants of `scan` over
the characters that still belong to the previous hit (`wait`) and the offset reached (`pos`): no
further hit begins before `pos + wait`.
-/

namespace Glance.Search

variable {needle found text query : List Char} {m : Match}

/-- The hits found so far come first, and the scan does not look at them. -/
theorem scan_eq_append (needle : List Char) (found : List Match) (wait pos : Nat)
    (text : List Char) :
    scan needle found wait pos text = found.reverse ++ scan needle [] wait pos text := by
  induction text generalizing found wait pos with
  | nil => simp [scan]
  | cons c rest ih =>
    cases wait with
    | succ wait => exact ih found wait (pos + 1)
    | zero =>
      unfold scan
      split
      · rw [ih, ih [_], List.reverse_cons, List.append_assoc]
        rfl
      · exact ih found 0 (pos + 1)

theorem scan_hit {c : Char} {rest : List Char} (h : needle.isPrefixOf (c :: rest)) (pos : Nat) :
    scan needle [] 0 pos (c :: rest) =
      ⟨pos, needle.length⟩ :: scan needle [] (needle.length - 1) (pos + 1) rest := by
  rw [scan, if_pos h, scan_eq_append]
  rfl

theorem scan_miss {c : Char} {rest : List Char} (h : ¬ needle.isPrefixOf (c :: rest))
    (pos : Nat) :
    scan needle [] 0 pos (c :: rest) = scan needle [] 0 (pos + 1) rest := by
  rw [scan, if_neg h]

/-! ## Bounds -/

theorem length_of_mem_scan {wait pos : Nat} (h : m ∈ scan needle [] wait pos text) :
    m.length = needle.length := by
  induction text generalizing wait pos with
  | nil => simp [scan] at h
  | cons c rest ih =>
    cases wait with
    | succ wait => exact ih h
    | zero =>
      by_cases hit : needle.isPrefixOf (c :: rest)
      · rw [scan_hit hit] at h
        rcases List.mem_cons.mp h with rfl | h
        · rfl
        · exact ih h
      · rw [scan_miss hit] at h
        exact ih h

/-- A hit waits for the end of the previous one and ends inside the text. -/
theorem bounds_of_mem_scan {wait pos : Nat} (h : m ∈ scan needle [] wait pos text) :
    pos + wait ≤ m.start ∧ m.stop ≤ pos + text.length := by
  induction text generalizing wait pos with
  | nil => simp [scan] at h
  | cons c rest ih =>
    rw [List.length_cons]
    cases wait with
    | succ wait =>
      have : pos + 1 + wait ≤ m.start ∧ m.stop ≤ pos + 1 + rest.length := ih h
      omega
    | zero =>
      by_cases hit : needle.isPrefixOf (c :: rest)
      · rw [scan_hit hit] at h
        rcases List.mem_cons.mp h with rfl | h
        · have := (List.isPrefixOf_iff_prefix.mp hit).length_le
          rw [List.length_cons] at this
          simp only [Match.stop]
          omega
        · have := ih h
          omega
      · rw [scan_miss hit] at h
        have := ih h
        omega

theorem pairwise_scan (wait pos : Nat) (text : List Char) :
    (scan needle [] wait pos text).Pairwise fun a b => a.stop ≤ b.start := by
  induction text generalizing wait pos with
  | nil => simp [scan]
  | cons c rest ih =>
    cases wait with
    | succ wait => exact ih wait (pos + 1)
    | zero =>
      by_cases hit : needle.isPrefixOf (c :: rest)
      · rw [scan_hit hit, List.pairwise_cons]
        refine ⟨fun m h => ?_, ih _ _⟩
        have := (bounds_of_mem_scan h).1
        simp only [Match.stop]
        omega
      · rw [scan_miss hit]
        exact ih 0 (pos + 1)

/-! ## Hits of a query -/

theorem stop_le_of_mem_hits (h : m ∈ hits text query) : m.stop ≤ text.length := by
  unfold hits at h
  split_ifs at h
  · simp at h
  · simpa using (bounds_of_mem_scan h).2

/-- An empty query has no hits, so no hit is empty. -/
theorem start_lt_stop_of_mem_hits (h : m ∈ hits text query) : m.start < m.stop := by
  unfold hits at h
  split_ifs at h with empty
  · simp at h
  · have length := length_of_mem_scan h
    rw [Text.length_fold] at length
    have : query.length ≠ 0 := by simpa using empty
    simp only [Match.stop]
    omega

theorem pairwise_hits (text query : List Char) :
    (hits text query).Pairwise fun a b => a.stop ≤ b.start := by
  unfold hits
  split_ifs
  · exact .nil
  · exact pairwise_scan 0 0 (Text.fold text)

/-! ## What a hit holds -/

theorem take_drop_of_mem_scan {wait pos : Nat} (h : m ∈ scan needle [] wait pos text) :
    (text.drop (m.start - pos)).take m.length = needle := by
  induction text generalizing wait pos with
  | nil => simp [scan] at h
  | cons c rest ih =>
    have later {wait : Nat} (h : m ∈ scan needle [] wait (pos + 1) rest) :
        ((c :: rest).drop (m.start - pos)).take m.length = needle := by
      have := (bounds_of_mem_scan h).1
      rw [show m.start - pos = m.start - (pos + 1) + 1 by omega, List.drop_succ_cons]
      exact ih h
    cases wait with
    | succ wait => exact later h
    | zero =>
      by_cases hit : needle.isPrefixOf (c :: rest)
      · rw [scan_hit hit] at h
        rcases List.mem_cons.mp h with rfl | h
        · rw [Nat.sub_self, List.drop_zero]
          exact (List.prefix_iff_eq_take.mp (List.isPrefixOf_iff_prefix.mp hit)).symm
        · exact later h
      · rw [scan_miss hit] at h
        exact later h

/-- A hit is the query, but for letter case. -/
theorem fold_of_mem_hits (h : m ∈ hits text query) :
    Text.fold ((text.drop m.start).take m.length) = Text.fold query := by
  unfold hits at h
  split_ifs at h
  · simp at h
  · have same := take_drop_of_mem_scan h
    unfold Text.fold at same ⊢
    rwa [Nat.sub_zero, ← List.map_drop, ← List.map_take] at same

end Glance.Search
