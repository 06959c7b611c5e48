import Glance.Neighbor
import Glance.Proofs.Navigator
import Glance.Proofs.Text.ByteOrder
import Mathlib.Data.String.Basic
import Mathlib.Order.WithBot

/-!
# Neighbours in a folder of distinct names

When every file of a folder has a name of its own, the folder has one list in ascending order of
names, and the neighbours of a file are the places before and behind it in that list, with both ends
joined: one step of a ring (`neighbor_eq`).
-/

namespace Glance.Neighbor

variable {paths sorted before after : List Path} {current : Path} {name : String} {dir : Direction}

/-! ## The order of names -/

/-- A name in the order in which no name is the least one. -/
def rank (name : Option String) : WithBot String := name

theorem nameLt_iff {a b : Option String} : nameLt a b ↔ rank a < rank b := by
  cases a with
  | none =>
    cases b with
    | none => exact iff_of_false nofun (lt_irrefl _)
    | some b => exact iff_of_true rfl (WithBot.bot_lt_coe b)
  | some a =>
    cases b with
    | none => exact iff_of_false nofun not_lt_bot
    | some b => exact decide_eq_true_iff.trans WithBot.coe_lt_coe.symm

theorem nameLt_asymm {a b : Option String} (lt : nameLt a b) : ¬ nameLt b a := by
  rw [nameLt_iff] at lt ⊢
  exact lt_asymm lt

/-- Names are ordered as their bytes. -/
theorem nameLt_some_iff {a b : String} :
    nameLt (some a) (some b) ↔ Text.utf8 a.toList < Text.utf8 b.toList := by
  rw [Text.utf8_lt_iff, ← String.lt_iff_toList_lt]
  exact decide_eq_true_iff

/-- Both files have names, and the bytes of the first name come first. -/
def ByteBefore (p q : Path) : Prop :=
  ∃ a b, p.fileName = some a ∧ q.fileName = some b ∧ Text.utf8 a.toList < Text.utf8 b.toList

/-- Paths in the order of their names, no two of the same name. -/
def Ascending (paths : List Path) : Prop :=
  paths.Pairwise fun p q => nameLt p.fileName q.fileName

/-! ## Sorting -/

theorem perm_sortByName (paths : List Path) : (sortByName paths).Perm paths :=
  List.mergeSort_perm _ _

/-- The order by which paths are sorted. -/
theorem not_nameLt_iff {a b : Option String} : (!nameLt b a) ↔ rank a ≤ rank b := by
  rw [Bool.not_eq_true', ← Bool.not_eq_true, nameLt_iff, not_lt]

theorem not_nameLt_trans (p q r : Path) (le : !nameLt q.fileName p.fileName)
    (le' : !nameLt r.fileName q.fileName) : !nameLt r.fileName p.fileName := by
  rw [not_nameLt_iff] at *
  exact le_trans le le'

theorem not_nameLt_total (p q : Path) :
    !nameLt q.fileName p.fileName || !nameLt p.fileName q.fileName := by
  rw [Bool.or_eq_true, not_nameLt_iff, not_nameLt_iff]
  exact le_total _ _

theorem pairwise_sortByName (paths : List Path) :
    (sortByName paths).Pairwise fun p q => ¬ nameLt q.fileName p.fileName :=
  (List.pairwise_mergeSort not_nameLt_trans not_nameLt_total paths).imp fun le => by simpa using le

/-- Files with names of their own can be brought into ascending order. -/
theorem ascending_sortByName (distinct : (paths.map Path.fileName).Nodup) :
    Ascending (sortByName paths) := by
  have differ : (sortByName paths).Pairwise fun p q => p.fileName ≠ q.fileName :=
    List.pairwise_map.mp (((perm_sortByName paths).map Path.fileName).nodup_iff.mpr distinct)
  refine ((pairwise_sortByName paths).and differ).imp fun {p q} ⟨le, ne⟩ => ?_
  rw [nameLt_iff] at le ⊢
  exact lt_of_le_of_ne (not_lt.mp le) ne

/-- In ascending order no name comes twice. -/
theorem Ascending.nodup (ascending : Ascending sorted) : (sorted.map Path.fileName).Nodup := by
  refine List.pairwise_map.mpr (ascending.imp fun {p q} lt same => ?_)
  rw [nameLt_iff, same] at lt
  exact lt_irrefl _ lt

theorem Ascending.byteBefore (ascending : Ascending sorted)
    (named : ∀ p ∈ sorted, p.fileName ≠ none) : sorted.Pairwise ByteBefore := by
  refine ascending.imp_of_mem fun {p q} mem mem' lt => ?_
  obtain ⟨a, eq⟩ := Option.ne_none_iff_exists'.mp (named p mem)
  obtain ⟨b, eq'⟩ := Option.ne_none_iff_exists'.mp (named q mem')
  rw [eq, eq', nameLt_some_iff] at lt
  exact ⟨a, b, eq, eq', lt⟩

/-- There is only one ascending order. -/
theorem sortByName_eq (perm : sorted.Perm paths) (ascending : Ascending sorted) :
    sortByName paths = sorted := by
  refine List.Perm.eq_of_pairwise ?_ (pairwise_sortByName paths)
    (ascending.imp nameLt_asymm) ((perm_sortByName paths).trans perm.symm)
  intro p q mem mem' le ge
  have mem : p ∈ sorted := perm.mem_iff.mpr ((perm_sortByName paths).mem_iff.mp mem)
  rw [nameLt_iff, not_lt] at le ge
  have same : rank p.fileName = rank q.fileName := le_antisymm le ge
  exact List.inj_on_of_nodup_map ascending.nodup mem mem' same

/-! ## Picking -/

theorem pick_forward (below : ∀ p ∈ before, nameLt p.fileName (some name))
    (above : ∀ p ∈ after, nameLt (some name) p.fileName) :
    pick (before ++ after) name .forward = after.head?.or before.head? := by
  have none_before : before.find? (fun p => nameLt (some name) p.fileName) = none :=
    List.find?_eq_none.mpr fun p mem => nameLt_asymm (below p mem)
  have first_after : after.find? (fun p => nameLt (some name) p.fileName) = after.head? := by
    rw [← List.head?_filter, List.filter_eq_self.mpr above]
  show ((before ++ after).find? fun p => nameLt (some name) p.fileName).or
    (before ++ after).head? = _
  rw [List.find?_append, none_before, Option.none_or, first_after, List.head?_append]
  cases after.head? <;> simp

theorem pick_backward (below : ∀ p ∈ before, nameLt p.fileName (some name))
    (above : ∀ p ∈ after, nameLt (some name) p.fileName) :
    pick (before ++ after) name .backward = before.getLast?.or after.getLast? := by
  have none_after : after.reverse.find? (fun p => nameLt p.fileName (some name)) = none :=
    List.find?_eq_none.mpr fun p mem => nameLt_asymm (above p (List.mem_reverse.mp mem))
  have last_before : before.reverse.find? (fun p => nameLt p.fileName (some name)) =
      before.getLast? := by
    rw [← List.head?_filter, List.filter_eq_self.mpr fun p mem => below p (List.mem_reverse.mp mem),
      List.head?_reverse]
  show ((before ++ after).reverse.find? fun p => nameLt p.fileName (some name)).or
    (before ++ after).getLast? = _
  rw [List.reverse_append, List.find?_append, none_after, Option.none_or, last_before,
    List.getLast?_append]
  cases before.getLast? <;> simp

/-- Without the file itself, the others are in order around its place. -/
theorem neighbor_eq_pick (perm : (before ++ current :: after).Perm paths)
    (ascending : Ascending (before ++ current :: after)) (named : current.fileName = some name)
    (dir : Direction) :
    neighbor paths current dir = pick (before ++ after) name dir ∧
      (∀ p ∈ before, nameLt p.fileName (some name)) ∧
      ∀ p ∈ after, nameLt (some name) p.fileName := by
  obtain ⟨first, second, between⟩ := List.pairwise_append.mp ascending
  obtain ⟨above, second⟩ := List.pairwise_cons.mp second
  rw [named] at above
  have below : ∀ p ∈ before, nameLt p.fileName (some name) := fun p mem =>
    named ▸ between p mem current List.mem_cons_self
  refine ⟨?_, below, above⟩
  have others : (before ++ after).Perm (paths.filter fun p => p.fileName ≠ some name) := by
    have differ : ∀ p ∈ before ++ after, p.fileName ≠ some name := by
      intro p mem same
      rcases List.mem_append.mp mem with mem | mem
      · exact nameLt_asymm (same ▸ below p mem) (same ▸ below p mem)
      · exact nameLt_asymm (same ▸ above p mem) (same ▸ above p mem)
    have kept := perm.filter fun p => p.fileName ≠ some name
    rwa [List.filter_append, List.filter_cons_of_neg (by simp [named]), ← List.filter_append,
      List.filter_eq_self.mpr fun p mem => decide_eq_true (differ p mem)] at kept
  have order : Ascending (before ++ after) :=
    ascending.sublist (List.Sublist.append_left (List.sublist_cons_self ..) _)
  unfold neighbor
  rw [named]
  dsimp only
  rw [sortByName_eq others order]

/-- One step leads to the next place of the ring. -/
theorem neighbor_eq {i : ℕ} (perm : sorted.Perm paths) (ascending : Ascending sorted)
    (place : sorted[i]? = some current) (named : current.fileName = some name)
    (many : 2 ≤ sorted.length) :
    neighbor paths current dir = sorted[Navigator.advance sorted.length i dir]? := by
  obtain ⟨lt, rfl⟩ := List.getElem?_eq_some_iff.mp place
  have split : sorted = sorted.take i ++ sorted[i] :: sorted.drop (i + 1) := by
    rw [← List.drop_eq_getElem_cons lt, List.take_append_drop]
  rw [split] at perm ascending
  obtain ⟨eq, below, above⟩ := neighbor_eq_pick perm ascending named dir
  rw [eq]
  cases dir with
  | forward =>
    rw [pick_forward below above, List.head?_drop, List.head?_take, List.head?_eq_getElem?]
    unfold Navigator.advance
    dsimp only
    by_cases last : i + 1 = sorted.length
    · rw [last, Nat.mod_self, List.getElem?_eq_none le_rfl, Option.none_or, if_neg (by omega)]
    · have inside : i + 1 < sorted.length := by omega
      rw [Nat.mod_eq_of_lt inside, List.getElem?_eq_getElem inside, Option.some_or]
  | backward =>
    rw [pick_backward below above, List.getLast?_take, List.getLast?_drop,
      List.getLast?_eq_getElem?]
    unfold Navigator.advance
    dsimp only
    by_cases first : i = 0
    · rw [if_pos first, Option.none_or, if_neg (by omega), first, Nat.zero_add,
        Nat.mod_eq_of_lt (by omega)]
    · have turn : i + sorted.length - 1 = i - 1 + sorted.length := by omega
      have inside : i - 1 < sorted.length := by omega
      rw [if_neg first, turn, Nat.add_mod_right, Nat.mod_eq_of_lt inside,
        List.getElem?_eq_getElem inside, Option.some_or, Option.some_or]

/-- A file alone in its folder has no neighbour. -/
theorem neighbor_singleton : neighbor [current] current dir = none := by
  unfold neighbor
  cases named : current.fileName with
  | none => rfl
  | some name => cases dir <;> simp [named, pick, sortByName]

end Glance.Neighbor
