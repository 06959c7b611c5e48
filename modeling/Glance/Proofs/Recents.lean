import Glance.Recents
import Mathlib.Tactic

/-!
# The list of recent files keeps its form

A `Proper` list holds no file twice and at most ten files. Every `push` gives one, so every list
that is loaded is one, and pushing the files of a proper list once more, oldest first, gives the
list back: a stored list is loaded as it was (`Proper.ofJson?_toJson`).
-/

namespace Glance

theorem Recent.sameFile_comm (r other : Recent) : r.sameFile other = other.sameFile r := by
  unfold Recent.sameFile
  rw [Bool.eq_iff_iff]
  simp only [Bool.and_eq_true, decide_eq_true_eq]
  exact ⟨fun h => ⟨h.1.symm, h.2.symm⟩, fun h => ⟨h.1.symm, h.2.symm⟩⟩

namespace Recents

/-! ## Pushing -/

/-- No file occurs twice, and there is room for all. -/
structure Proper (rs : Recents) : Prop where
  distinct : rs.entries.Pairwise fun r other => r.sameFile other = false
  length_le : rs.entries.length ≤ capacity

theorem proper_empty : empty.Proper := ⟨.nil, Nat.zero_le _⟩

theorem Proper.push {rs : Recents} (h : rs.Proper) (r : Recent) : (rs.push r).Proper := by
  constructor
  · refine List.Pairwise.take (List.pairwise_cons.mpr ⟨fun other mem => ?_, h.distinct.filter _⟩)
    rw [Recent.sameFile_comm]
    simpa using (List.mem_filter.mp mem).2
  · exact List.length_take_le _ _

theorem Proper.foldl_push {rs : Recents} (h : rs.Proper) (files : List Recent) :
    (files.foldl Recents.push rs).Proper := by
  induction files generalizing rs with
  | nil => exact h
  | cons r files ih => exact ih (h.push r)

/-- The file comes to the front, the others stay in order behind it, and only in a full list the
oldest of them leaves. -/
theorem Proper.push_split {rs : Recents} (h : rs.Proper) (r : Recent) :
    ∃ kept dropped, (rs.push r).entries = r :: kept ∧
      rs.entries.filter (fun other => other.kind ≠ r.kind ∨ other.identifier ≠ r.identifier) =
        kept ++ dropped ∧
      dropped.length ≤ 1 ∧ (dropped ≠ [] → (rs.push r).count = capacity) := by
  have others : (fun other : Recent => decide (other.kind ≠ r.kind ∨
      other.identifier ≠ r.identifier)) = fun other => !other.sameFile r := by
    funext other
    simp [Recent.sameFile]
  rw [others]
  have le : (rs.entries.filter fun other => !other.sameFile r).length ≤ 10 :=
    (List.length_filter_le _ _).trans h.length_le
  refine ⟨_, _, List.take_succ_cons, (List.take_append_drop 9 _).symm, ?_, fun some => ?_⟩
  · rw [List.length_drop]
    omega
  · have pos := List.length_pos_of_ne_nil some
    rw [List.length_drop] at pos
    show (List.take 10 (r :: _)).length = 10
    rw [List.length_take, List.length_cons]
    omega

/-- A file that is not in the list, and for which there is room, only comes in front. -/
theorem push_eq_cons {rs : Recents} {r : Recent} (h : Proper ⟨r :: rs.entries⟩) :
    rs.push r = ⟨r :: rs.entries⟩ := by
  have others : rs.entries.filter (fun other => !other.sameFile r) = rs.entries := by
    rw [List.filter_eq_self]
    intro other mem
    rw [Recent.sameFile_comm, (List.pairwise_cons.mp h.distinct).1 other mem]
    rfl
  unfold push
  rw [others, List.take_of_length_le h.length_le]

/-- Opening the files of a proper list once more, oldest first, gives the list. -/
theorem Proper.foldl_push_reverse {rs : Recents} (h : rs.Proper) :
    rs.entries.reverse.foldl Recents.push empty = rs := by
  obtain ⟨entries⟩ := rs
  induction entries with
  | nil => rfl
  | cons r rest ih =>
    have proper : Proper ⟨rest⟩ :=
      ⟨h.distinct.of_cons, (Nat.le_succ _).trans h.length_le⟩
    rw [List.reverse_cons, List.foldl_append, ih proper]
    exact push_eq_cons h

/-! ## Storing -/

theorem ofJson?_kind (kind : RecentKind) :
    RecentKind.ofJson? (.str kind.shortName) = some kind := by
  cases kind <;> rfl

theorem fields_toJson (r : Recent) :
    r.toJson.fields? ["type", "value", "label"] =
      some [some (.str r.kind.shortName), some (.str r.identifier), some (.str r.label)] := by
  simp [Recent.toJson, Json.object, Json.Members.ofList, Json.fields?, Json.Members.get?_insert]

theorem ofJson?_entry (r : Recent) : Recent.ofJson? r.toJson = some r := by
  have fields := fields_toJson r
  unfold Recent.toJson Json.object at *
  simp only [Recent.ofJson?, fields, ofJson?_kind, Json.asString?, Option.elim]
  rfl

theorem mapM_ofJson?_toJson (files : List Recent) :
    (files.map Recent.toJson).mapM Recent.ofJson? = some files := by
  induction files with
  | nil => rfl
  | cons r files ih => simp [ofJson?_entry, ih]

theorem Proper.ofJson?_toJson {rs : Recents} (h : rs.Proper) : ofJson? rs.toJson = some rs := by
  unfold toJson ofJson?
  simp only [mapM_ofJson?_toJson, Option.map_some, h.foldl_push_reverse]

/-- A list from any store is proper. -/
theorem proper_load {σ : Type} [Store σ] (store : σ) : (load store).Proper := by
  unfold load
  split
  · rename_i value _
    cases read : ofJson? value with
    | none => exact proper_empty
    | some rs =>
      unfold ofJson? at read
      split at read
      · obtain ⟨files, -, rfl⟩ := Option.map_eq_some_iff.mp read
        exact proper_empty.foldl_push files
      · cases read
  · exact proper_empty

/-- What a store gives under the key decides what is loaded. -/
theorem Proper.load_eq {σ : Type} [Store σ] {store : σ} {rs : Recents} (h : rs.Proper)
    (get : Store.get store key = .ok (some rs.toJson)) : load store = rs := by
  unfold load
  rw [get]
  simp only [h.ofJson?_toJson, Option.getD_some]

end Recents

end Glance
