import Glance.Json
import Mathlib.Data.String.Basic
import Mathlib.Tactic

/-!
# Sorted members

The members of an object are sorted by key, putting one more among them keeps them so, and sorted
members are put together in the order they are in already.
-/

namespace Glance.Json.Members

/-- Sorted by key, and no key twice. -/
def Sorted (members : Members) : Prop :=
  members.Pairwise (·.1 < ·.1)

variable {key : String} {value : Json} {members sorted : Members} {m : String × Json}

theorem mem_of_mem_insert (mem : m ∈ insert key value members) :
    m = (key, value) ∨ m ∈ members := by
  induction members with
  | nil => exact .inl (List.mem_singleton.mp mem)
  | cons first rest ih =>
    obtain ⟨k, v⟩ := first
    unfold insert at mem
    split_ifs at mem with same before
    · exact (List.mem_cons.mp mem).imp_right (.tail _)
    · exact List.mem_cons.mp mem
    · rcases List.mem_cons.mp mem with rfl | mem
      · exact .inr (.head _)
      · exact (ih mem).imp_right (.tail _)

theorem mem_insert : (key, value) ∈ insert key value members := by
  induction members with
  | nil => exact List.mem_singleton_self _
  | cons first rest ih =>
    obtain ⟨k, v⟩ := first
    unfold insert
    split_ifs
    · exact .head _
    · exact .head _
    · exact .tail _ ih

theorem Sorted.insert (h : Sorted members) (key : String) (value : Json) :
    Sorted (members.insert key value) := by
  induction members with
  | nil => exact List.pairwise_singleton _ _
  | cons first rest ih =>
    obtain ⟨k, v⟩ := first
    obtain ⟨least, rest'⟩ := List.pairwise_cons.mp h
    unfold Members.insert
    split_ifs with same before
    · subst same
      exact List.pairwise_cons.mpr ⟨least, rest'⟩
    · refine List.pairwise_cons.mpr ⟨fun m mem => ?_, h⟩
      rcases List.mem_cons.mp mem with rfl | mem
      · exact before
      · exact before.trans (least m mem)
    · refine List.pairwise_cons.mpr ⟨fun m mem => ?_, ih rest'⟩
      rcases mem_of_mem_insert mem with rfl | mem
      · exact lt_of_le_of_ne (not_lt.mp before) same
      · exact least m mem

/-- A key behind all the others comes last. -/
theorem insert_last (last : ∀ m ∈ members, m.1 < key) :
    insert key value members = members ++ [(key, value)] := by
  induction members with
  | nil => rfl
  | cons first rest ih =>
    obtain ⟨k, v⟩ := first
    obtain ⟨lt, last⟩ := List.forall_mem_cons.mp last
    rw [insert, if_neg lt.ne, if_neg lt.not_gt, ih last]
    rfl

/-- One member more. -/
def add (sorted : Members) (m : String × Json) : Members :=
  insert m.1 m.2 sorted

theorem foldl_add (h : Sorted (sorted ++ members)) :
    members.foldl add sorted = sorted ++ members := by
  induction members generalizing sorted with
  | nil => rw [List.foldl_nil, List.append_nil]
  | cons m members ih =>
    have last : ∀ m' ∈ sorted, m'.1 < m.1 := fun m' mem =>
      (List.pairwise_append.mp h).2.2 m' mem m (.head _)
    rw [List.append_cons] at h ⊢
    rw [List.foldl_cons, add, insert_last last]
    exact ih h

/-- Sorted members are put in the order they have. -/
theorem ofList_eq (h : Sorted members) : ofList members = members := by
  rw [← List.nil_append members] at h
  exact foldl_add h

theorem sorted_foldl_add (h : Sorted sorted) (members : List (String × Json)) :
    Sorted (members.foldl add sorted) := by
  induction members generalizing sorted with
  | nil => exact h
  | cons m members ih => exact ih (h.insert m.1 m.2)

theorem sorted_ofList (members : List (String × Json)) : Sorted (ofList members) :=
  sorted_foldl_add List.Pairwise.nil members

theorem mem_of_mem_foldl_add (mem : m ∈ members.foldl add sorted) :
    m ∈ sorted ∨ m ∈ members := by
  induction members generalizing sorted with
  | nil => exact .inl mem
  | cons first members ih =>
    rcases ih mem with mem | mem
    · rcases mem_of_mem_insert mem with rfl | mem
      · exact .inr (.head _)
      · exact .inl mem
    · exact .inr (.tail _ mem)

theorem mem_of_mem_ofList (mem : m ∈ ofList members) : m ∈ members :=
  (mem_of_mem_foldl_add mem).resolve_left List.not_mem_nil

end Glance.Json.Members
