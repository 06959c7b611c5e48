import Glance.Path
import Mathlib.Tactic

/-!
# The last name of a path

A name put behind a folder's path is the last segment of the new path (`segments_child`), whether or
not the folder ends with a separator, and it is the file name of the new path if it is one that a
folder can hold. A path without separators lies in the current folder.
-/

namespace Glance

/-- What can be the name of a file: it holds no separator and is none of the names with a meaning of
their own. -/
structure IsFileName (name : String) : Prop where
  separate : '/' ∉ name.toList
  filled : name.toList ≠ []
  ne_here : name.toList ≠ ['.']
  ne_up : name.toList ≠ ['.', '.']

instance (name : String) : Decidable (IsFileName name) :=
  decidable_of_iff ('/' ∉ name.toList ∧ name.toList ≠ [] ∧ name.toList ≠ ['.'] ∧
    name.toList ≠ ['.', '.']) ⟨fun ⟨a, b, c, d⟩ => ⟨a, b, c, d⟩, fun ⟨a, b, c, d⟩ => ⟨a, b, c, d⟩⟩

namespace Path

variable {p folder : Path} {name : String} {text : List Char} {rest : List (List Char)}

/-- A segment that is the name of something in a folder. -/
structure IsName (segment : List Char) : Prop where
  filled : segment ≠ []
  ne_here : segment ≠ ['.']
  ne_up : segment ≠ ['.', '.']

theorem IsName.of_isFileName (legal : IsFileName name) : IsName name.toList :=
  ⟨legal.filled, legal.ne_here, legal.ne_up⟩

/-! ## Segments -/

/-- The segments of a text in front of others that are known. -/
def segmentsBefore (text : List Char) (after : List Char × List (List Char)) :
    List Char × List (List Char) :=
  text.foldr consSegment after

theorem segments_eq (p : Path) :
    p.segments = (segmentsBefore p.text.toList ([], [])).1 ::
      (segmentsBefore p.text.toList ([], [])).2 := rfl

theorem segmentsBefore_append (front back : List Char) (after : List Char × List (List Char)) :
    segmentsBefore (front ++ back) after = segmentsBefore front (segmentsBefore back after) :=
  List.foldr_append

/-- Without separators there is one segment more of text. -/
theorem segmentsBefore_of_not_mem (separate : '/' ∉ text) (first : List Char) :
    segmentsBefore text (first, rest) = (text ++ first, rest) := by
  induction text with
  | nil => rfl
  | cons c text ih =>
    rw [List.mem_cons, not_or] at separate
    show consSegment c (segmentsBefore text (first, rest)) = _
    rw [ih separate.2, consSegment, if_neg (Ne.symm separate.1)]
    rfl

/-- Behind a separator the segments are those of the front, and then those that are known. -/
theorem segmentsBefore_nil (text : List Char) (rest : List (List Char)) :
    segmentsBefore text ([], rest) =
      ((segmentsBefore text ([], [])).1, (segmentsBefore text ([], [])).2 ++ rest) := by
  induction text with
  | nil => rfl
  | cons c text ih =>
    show consSegment c (segmentsBefore text ([], rest)) =
      ((consSegment c (segmentsBefore text ([], []))).1,
        (consSegment c (segmentsBefore text ([], []))).2 ++ rest)
    rw [ih]
    unfold consSegment
    split_ifs <;> rfl

/-- A name behind a separator is a segment of its own. -/
theorem segments_append_name (front : List Char) (separate : '/' ∉ name.toList) :
    (Path.mk (String.ofList (front ++ '/' :: name.toList))).segments =
      (Path.mk (String.ofList front)).segments ++ [name.toList] := by
  have single : segmentsBefore ('/' :: name.toList) ([], []) = ([], [name.toList]) := by
    show consSegment '/' (segmentsBefore name.toList ([], [])) = _
    rw [segmentsBefore_of_not_mem separate, List.append_nil]
    rfl
  rw [segments_eq, segments_eq, String.toList_ofList, String.toList_ofList, segmentsBefore_append,
    single, segmentsBefore_nil, List.cons_append]

theorem segments_bare (separate : '/' ∉ p.text.toList) : p.segments = [p.text.toList] := by
  rw [segments_eq, segmentsBefore_of_not_mem separate, List.append_nil]

/-- No separator is left in a segment. -/
theorem separator_not_mem_segments (p : Path) : ∀ segment ∈ p.segments, '/' ∉ segment := by
  rw [segments_eq]
  induction p.text.toList with
  | nil => decide
  | cons c text ih =>
    obtain ⟨first, others⟩ := List.forall_mem_cons.mp ih
    show ∀ segment ∈ (consSegment c (segmentsBefore text ([], []))).1 ::
      (consSegment c (segmentsBefore text ([], []))).2, '/' ∉ segment
    unfold consSegment
    split_ifs with separator
    · exact List.forall_mem_cons.mpr ⟨by simp, ih⟩
    · refine List.forall_mem_cons.mpr ⟨?_, others⟩
      rw [List.mem_cons, not_or]
      exact ⟨Ne.symm separator, first⟩

/-! ## A name in a folder -/

/-- A separator at the end of the folder's path serves for the name. -/
theorem text_child (separate : '/' ∉ name.toList) (filled : folder.text ≠ "") :
    ∃ front, (folder.child name).text.toList = front ++ '/' :: name.toList ∧
      (folder.text.toList = front ∨ folder.text.toList = front ++ ['/']) := by
  have relative : ¬ (Path.mk name).isAbsolute := by
    intro absolute
    have first : name.toList.head? = some '/' := by simpa [isAbsolute] using absolute
    exact separate (List.mem_of_head? first)
  unfold child
  rw [if_neg relative]
  by_cases ends : folder.text.toList.getLast? = some '/'
  · obtain ⟨front, split⟩ := List.getLast?_eq_some_iff.mp ends
    exact ⟨front, by simp [split], .inr split⟩
  · exact ⟨folder.text.toList, by simp [ends, filled], .inl rfl⟩

theorem segments_of_text (same : p.text.toList = text) :
    p.segments = (Path.mk (String.ofList text)).segments := by
  rw [← same, String.ofList_toList]

/-- The name is the last segment. -/
theorem segments_child (separate : '/' ∉ name.toList) (filled : folder.text ≠ "") :
    ∃ front, (folder.child name).segments = front ++ [name.toList] ∧
      (folder.segments = front ∨ folder.segments = front ++ [[]]) := by
  obtain ⟨front, child, ends⟩ := text_child separate filled
  refine ⟨(Path.mk (String.ofList front)).segments, ?_, ends.imp segments_of_text fun ends => ?_⟩
  · rw [segments_of_text child, segments_append_name front separate]
  · have nothing := @segments_append_name "" front (by simp)
    rwa [String.toList_empty, ← segments_of_text ends] at nothing

theorem isAbsolute_child (separate : '/' ∉ name.toList) (filled : folder.text ≠ "") :
    (folder.child name).isAbsolute = folder.isAbsolute := by
  obtain ⟨front, child, ends⟩ := text_child separate filled
  unfold isAbsolute
  rw [child]
  rcases ends with ends | ends
  · obtain ⟨c, text, cons⟩ := List.exists_cons_of_ne_nil
      (show folder.text.toList ≠ [] by simpa using filled)
    rw [← ends, cons]
    rfl
  · rw [ends]
    cases front <;> rfl

/-- A name that a folder can hold is the file name of its path there. -/
theorem fileName_child (legal : IsFileName name) (filled : folder.text ≠ "") :
    (folder.child name).fileName = some name := by
  obtain ⟨front, segments, -⟩ := segments_child legal.separate filled
  have last (absolute : Bool) (i : ℕ) : component? absolute i name.toList =
      some (.name name.toList) := by
    unfold component?
    rw [if_neg legal.filled, if_neg legal.ne_here, if_neg legal.ne_up]
  unfold fileName located
  rw [segments]
  dsimp only
  rw [List.zipIdx_append, List.filterMap_append, List.getLast?_append]
  simp [last]

/-! ## The folder of a path -/

theorem folder_text_ne (p : Path) : p.folder.text ≠ "" := by
  unfold folder
  split
  · split_ifs with nothing
    · decide
    · simpa using nothing
  · decide

/-- A path without separators lies in the current folder. -/
theorem folder_bare (separate : '/' ∉ p.text.toList) : p.folder = ⟨"."⟩ := by
  have relative : p.isAbsolute = false := by
    unfold isAbsolute
    rw [beq_eq_false_iff_ne]
    exact fun first => separate (List.mem_of_head? first)
  have few : p.located.length ≤ 1 := by
    unfold located
    rw [segments_bare separate]
    exact List.length_filterMap_le _ _
  have rootless : ∀ part ∈ p.located, part.2 ≠ .root := by
    unfold located
    rw [segments_bare separate, relative]
    intro part mem root
    obtain ⟨⟨segment, i⟩, -, found⟩ := List.mem_filterMap.mp mem
    obtain ⟨component, meaning, rfl⟩ := Option.map_eq_some_iff.mp found
    dsimp only at root
    subst root
    unfold component? at meaning
    split_ifs at meaning <;> simp_all
  unfold folder parent
  rcases parts : p.located with _ | ⟨⟨i, part⟩, _ | ⟨_, _⟩⟩
  · rfl
  · rw [parts] at rootless
    cases part with
    | root => exact absurd rfl (rootless _ (.head _))
    | _ => rfl
  · rw [parts] at few
    simp at few

end Path

end Glance
