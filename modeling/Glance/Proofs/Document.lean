import Glance.Document
import Mathlib.Tactic

/-!
# Lines and sizes of a document

The UTF-8 length adds up, and it tells the prefixes of one text apart. The lines of a document hold
no line feed, and there is one more of them than of those.
-/

namespace Glance.Document

/-! ## UTF-8 length -/

theorem foldl_utf8Size (n : ℕ) (text : List Char) :
    text.foldl (fun n c => n + c.utf8Size) n = n + utf8Length text := by
  unfold utf8Length
  induction text generalizing n with
  | nil => rfl
  | cons c text ih =>
    rw [List.foldl_cons, List.foldl_cons, ih, ih (0 + c.utf8Size)]
    omega

@[simp] theorem utf8Length_nil : utf8Length [] = 0 := rfl

theorem utf8Length_cons (c : Char) (text : List Char) :
    utf8Length (c :: text) = c.utf8Size + utf8Length text := by
  show (c :: text).foldl (fun n c => n + c.utf8Size) 0 = _
  rw [List.foldl_cons, foldl_utf8Size, Nat.zero_add]

theorem utf8Length_append (a b : List Char) :
    utf8Length (a ++ b) = utf8Length a + utf8Length b := by
  show (a ++ b).foldl (fun n c => n + c.utf8Size) 0 = _
  rw [List.foldl_append, foldl_utf8Size, foldl_utf8Size, Nat.zero_add]

theorem utf8Length_pos {text : List Char} : 0 < utf8Length text ↔ text ≠ [] := by
  cases text with
  | nil => simp
  | cons c text =>
    have := c.utf8Size_pos
    rw [utf8Length_cons]
    simp
    omega

/-- Two prefixes of one text that are equally long are the same. -/
theorem prefix_unique {a b a' b' : List Char} (eq : a ++ b = a' ++ b')
    (length : utf8Length a = utf8Length a') : a = a' ∧ b = b' := by
  have nil : ∀ more : List Char, utf8Length more = 0 → more = [] := by
    intro more zero
    by_contra ne
    have := utf8Length_pos.mpr ne
    omega
  rcases List.append_eq_append_iff.mp eq with ⟨more, rfl, rfl⟩ | ⟨more, rfl, rfl⟩
  · rw [utf8Length_append] at length
    obtain rfl := nil more (by omega)
    simp
  · rw [utf8Length_append] at length
    obtain rfl := nil more (by omega)
    simp

/-! ## Lines -/

theorem splitLines_cons (c : Char) (text : List Char) :
    splitLines (c :: text) = consLine c (splitLines text) := rfl

theorem length_splitLines (text : List Char) :
    (splitLines text).2.length = text.count '\n' := by
  induction text with
  | nil => rfl
  | cons c text ih =>
    rw [splitLines_cons, consLine]
    by_cases feed : c = '\n'
    · rw [if_pos feed, feed, List.count_cons_self, List.length_cons, ih]
    · rw [if_neg feed, List.count_cons_of_ne feed, ih]

theorem length_lines (doc : Document) : doc.lines.length = doc.lineTotal := by
  unfold lines lineTotal
  rw [List.length_cons, length_splitLines]

theorem newline_not_mem_splitLines (text : List Char) :
    '\n' ∉ (splitLines text).1 ∧ ∀ line ∈ (splitLines text).2, '\n' ∉ line := by
  induction text with
  | nil => simp [splitLines]
  | cons c text ih =>
    rw [splitLines_cons, consLine]
    by_cases feed : c = '\n'
    · rw [if_pos feed]
      refine ⟨by simp, List.forall_mem_cons.mpr ih⟩
    · rw [if_neg feed]
      refine ⟨?_, ih.2⟩
      rw [List.mem_cons, not_or]
      exact ⟨fun eq => feed eq.symm, ih.1⟩

theorem newline_not_mem_of_mem_lines {doc : Document} {line : List Char}
    (mem : line ∈ doc.lines) : '\n' ∉ line := by
  obtain ⟨first, others⟩ := newline_not_mem_splitLines doc.text
  rcases List.mem_cons.mp mem with rfl | mem
  · exact first
  · exact others line mem

theorem line_eq_ok {doc : Document} {i : ℕ} {line : List Char} (h : doc.lines[i]? = some line) :
    doc.line i = .ok line := by
  unfold Document.line
  rw [h]

theorem intercalate_splitLines (text : List Char) :
    ['\n'].intercalate ((splitLines text).1 :: (splitLines text).2) = text := by
  induction text with
  | nil => rfl
  | cons c text ih =>
    rw [splitLines_cons, consLine]
    split_ifs with feed
    · rw [List.intercalate_cons_cons, ih, feed]
      rfl
    · show ['\n'].intercalate ((c :: (splitLines text).1) :: (splitLines text).2) = _
      cases others : (splitLines text).2 with
      | nil =>
        rw [others] at ih
        simpa using ih
      | cons line lines =>
        rw [others, List.intercalate_cons_cons] at ih
        rw [List.intercalate_cons_cons, List.cons_append, List.cons_append, ih]

/-- A text is its lines with a line feed between each and the next. -/
theorem intercalate_lines (doc : Document) : ['\n'].intercalate doc.lines = doc.text :=
  intercalate_splitLines doc.text

/-- The offset behind lines and the line feeds that end them. -/
def offsetAfter (lines : List (List Char)) : ℕ :=
  lines.foldl (fun n line => n + (line.length + 1)) 0

theorem charOfLine_eq_ok {doc : Document} {i : ℕ} (h : i < doc.lines.length) :
    doc.charOfLine i = .ok (offsetAfter (doc.lines.take i)) := by
  unfold charOfLine offsetAfter
  rw [if_neg]
  rw [length_lines] at h
  omega

end Glance.Document
