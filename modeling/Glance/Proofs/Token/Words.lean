import Glance.Text.WordChar
import Mathlib.Data.List.TakeWhile
import Mathlib.Tactic

/-!
# Words of a line

A word is a run of word characters that goes on to neither side. Two words that overlap are the
same, and where a line is cut apart between two words (`Apart`), no word reaches over the cut.
-/

namespace Glance.Token

/-- A word character stands at offset `i`. -/
def IsWordAt (text : List Char) (i : ℕ) : Prop :=
  ∃ c, text[i]? = some c ∧ Text.isWordChar c

/-- The characters from offset `i` up to `j` are a whole word of the line. -/
structure WordRun (line : List Char) (i j : ℕ) : Prop where
  lt : i < j
  inside : ∀ k, i ≤ k → k < j → IsWordAt line k
  left : ∀ k, k + 1 = i → ¬ IsWordAt line k
  right : ¬ IsWordAt line j

/-- The text is a whole word of its line. -/
def IsWord (before text after : List Char) : Prop :=
  WordRun (before ++ text ++ after) before.length (before.length + text.length)

/-- No word goes on from one text into the other. -/
def Apart (before after : List Char) : Prop :=
  ∀ k, k + 1 = before.length → IsWordAt before k → ¬ IsWordAt after 0

variable {line before text after : List Char} {c : Char} {i j i' j' k : ℕ}

/-! ## Word characters -/

theorem isWordAt_zero : IsWordAt (c :: text) 0 ↔ Text.isWordChar c := by
  simp [IsWordAt]

theorem not_isWordAt_nil : ¬ IsWordAt [] k := by
  simp [IsWordAt]

theorem isWordAt_append_left (h : k < before.length) :
    IsWordAt (before ++ after) k ↔ IsWordAt before k := by
  unfold IsWordAt
  rw [List.getElem?_append_left h]

theorem isWordAt_append_right (before after : List Char) (k : ℕ) :
    IsWordAt (before ++ after) (before.length + k) ↔ IsWordAt after k := by
  unfold IsWordAt
  rw [List.getElem?_append_right (Nat.le_add_right _ _), Nat.add_sub_cancel_left]

theorem isWordAt_length (before after : List Char) :
    IsWordAt (before ++ after) before.length ↔ IsWordAt after 0 :=
  isWordAt_append_right before after 0

theorem isWordAt_of_forall (h : ∀ c ∈ text, Text.isWordChar c) (lt : k < text.length) :
    IsWordAt text k :=
  ⟨text[k], List.getElem?_eq_getElem lt, h _ (List.getElem_mem lt)⟩

theorem forall_of_isWordAt (h : ∀ k < text.length, IsWordAt text k) :
    ∀ c ∈ text, Text.isWordChar c := by
  intro c mem
  obtain ⟨k, lt, rfl⟩ := List.mem_iff_getElem.mp mem
  obtain ⟨c, eq, word⟩ := h k lt
  rw [List.getElem?_eq_getElem lt] at eq
  rw [Option.some.inj eq]
  exact word

theorem not_isWordAt_dropWhile (text : List Char) :
    ¬ IsWordAt (text.dropWhile Text.isWordChar) 0 := by
  rintro ⟨c, eq, word⟩
  have ends := List.head?_dropWhile_not Text.isWordChar text
  rw [List.head?_eq_getElem?, eq] at ends
  simp [word] at ends

/-! ## Overlapping words -/

theorem WordRun.start_le (run : WordRun line i j) (run' : WordRun line i' j') (h : i < j') :
    i ≤ i' := by
  by_contra less
  refine run.left (i - 1) (by omega) (run'.inside (i - 1) (by omega) (by omega))

theorem WordRun.stop_le (run : WordRun line i j) (run' : WordRun line i' j') (h : i < j') :
    j ≤ j' := by
  by_contra less
  exact run'.right (run.inside j' (by omega) (by omega))

theorem WordRun.unique (run : WordRun line i j) (run' : WordRun line i' j') (h : i < j')
    (h' : i' < j) : i = i' ∧ j = j' :=
  ⟨Nat.le_antisymm (run.start_le run' h) (run'.start_le run h'),
    Nat.le_antisymm (run.stop_le run' h) (run'.stop_le run h')⟩

/-! ## Cutting between words -/

theorem Apart.nil (after : List Char) : Apart [] after := by
  intro k h
  simp at h

theorem Apart.of_right (h : ¬ IsWordAt after 0) : Apart before after :=
  fun _ _ _ => h

/-- No word goes on behind a character that is not of a word. -/
theorem Apart.snoc (h : ¬ Text.isWordChar c) : Apart (before ++ [c]) after := by
  intro k eq word
  rw [List.length_append, List.length_singleton, Nat.add_right_cancel_iff] at eq
  rw [eq, isWordAt_length, isWordAt_zero] at word
  exact absurd word h

theorem Apart.stop_le (apart : Apart before after) (run : WordRun (before ++ after) i j)
    (h : i < before.length) : j ≤ before.length := by
  by_contra less
  have last := run.inside (before.length - 1) (by omega) (by omega)
  have next := run.inside before.length (by omega) (by omega)
  rw [isWordAt_append_left (by omega)] at last
  rw [isWordAt_length] at next
  exact apart (before.length - 1) (by omega) last next

theorem Apart.isWord (apart : Apart before (text ++ after)) (ne : text ≠ [])
    (word : ∀ c ∈ text, Text.isWordChar c) (right : ¬ IsWordAt after 0) :
    IsWord before text after := by
  have pos := List.length_pos_iff.mpr ne
  refine ⟨by omega, ?_, ?_, ?_⟩
  · intro k low high
    obtain ⟨m, rfl⟩ := Nat.exists_eq_add_of_le low
    rw [List.append_assoc, isWordAt_append_right, isWordAt_append_left (by omega)]
    exact isWordAt_of_forall word (by omega)
  · intro k eq last
    rw [List.append_assoc, isWordAt_append_left (by omega)] at last
    refine apart k eq last ?_
    rw [isWordAt_append_left pos]
    exact isWordAt_of_forall word pos
  · rw [List.append_assoc, isWordAt_append_right, isWordAt_length]
    exact right

theorem IsWord.forall (h : IsWord before text after) : ∀ c ∈ text, Text.isWordChar c := by
  refine forall_of_isWordAt fun k lt => ?_
  have word := h.inside (before.length + k) (by omega) (by omega)
  rw [List.append_assoc, isWordAt_append_right, isWordAt_append_left lt] at word
  exact word

theorem IsWord.not_after (h : IsWord before text after) : ¬ IsWordAt after 0 := by
  have right := h.right
  rw [List.append_assoc, isWordAt_append_right, isWordAt_length] at right
  exact right

/-- A word is what the scan takes from its beginning. -/
theorem takeWhile_word (word : ∀ c ∈ text, Text.isWordChar c) (right : ¬ IsWordAt after 0) :
    (text ++ after).takeWhile Text.isWordChar = text ∧
      (text ++ after).dropWhile Text.isWordChar = after := by
  rw [List.takeWhile_append_of_pos word, List.dropWhile_append_of_pos word]
  cases after with
  | nil => simp
  | cons c after =>
    rw [isWordAt_zero] at right
    rw [List.takeWhile_cons_of_neg right, List.dropWhile_cons_of_neg right, List.append_nil]
    exact ⟨rfl, rfl⟩

end Glance.Token
