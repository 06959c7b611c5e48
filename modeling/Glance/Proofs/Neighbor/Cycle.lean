import Glance.Proofs.Neighbor

/-!
# Neighbours in any folder

The listing may be in any order, names may come twice or be missing, and the file itself need not be
listed. Its neighbour still has the next name around the circle of the names that differ from its
own (`Adjoins`): forward and backward are one law, about two orders. Sorting leaves paths of one
name as they were listed, so of those the first is taken forward and the last backward.
-/

namespace Glance.Neighbor

variable {paths xs : List Path} {next : Path} {name : String} {target : Option String}
  {dir : Direction}

/-- Names in the order of their bytes; no name comes before every name. -/
inductive Precedes : Option String → Option String → Prop
  | unnamed {b : String} : Precedes none (some b)
  | bytes {a b : String} : Text.utf8 a.toList < Text.utf8 b.toList → Precedes (some a) (some b)

/-- The order of names in which a direction goes. -/
def Ahead : Direction → Option String → Option String → Prop
  | .forward => Precedes
  | .backward => flip Precedes

/-- The paths of a listing that a direction passes before it comes to the one between `before` and
`after`. -/
def passed : Direction → (before after : List Path) → List Path
  | .forward, before, _ => before
  | .backward, _, after => after

/-- In the order `lt`, the name `next` is the first one behind `name` that a path bears, or, if none
is behind it, the first one that is another name. -/
def Adjoins (lt : Option String → Option String → Prop) (paths : List Path)
    (name next : Option String) : Prop :=
  (lt name next ∧ ∀ p ∈ paths, lt name p.fileName → ¬ lt p.fileName next) ∨
    ((∀ p ∈ paths, ¬ lt name p.fileName) ∧
      ∀ p ∈ paths, p.fileName ≠ name → ¬ lt p.fileName next)

/-! ## The order of names -/

theorem nameLt_iff_precedes {a b : Option String} : nameLt a b ↔ Precedes a b := by
  cases b with
  | none => exact iff_of_false (by cases a <;> nofun) nofun
  | some b =>
    cases a with
    | none => exact iff_of_true rfl .unnamed
    | some a =>
      rw [nameLt_some_iff]
      exact ⟨.bytes, fun | .bytes lt => lt⟩

theorem not_nameLt_self (a : Option String) : ¬ nameLt a a := by
  rw [nameLt_iff]
  exact lt_irrefl _

theorem not_ahead_self (dir : Direction) (a : Option String) : ¬ Ahead dir a a := by
  have irrefl : ¬ Precedes a a := fun lt => not_nameLt_self a (nameLt_iff_precedes.mpr lt)
  cases dir <;> exact irrefl

/-! ## Sorting -/

/-- Sorting leaves the paths of one name in the order in which they were listed. -/
theorem filter_sortByName (paths : List Path) (target : Option String) :
    (sortByName paths).filter (fun p => p.fileName = target) =
      paths.filter fun p => p.fileName = target := by
  have equal : (paths.filter fun p => p.fileName = target).Pairwise
      fun p q => !nameLt q.fileName p.fileName := by
    refine List.pairwise_of_forall_mem_list fun p mem q mem' => ?_
    have named : p.fileName = target := by simpa using (List.mem_filter.mp mem).2
    have named' : q.fileName = target := by simpa using (List.mem_filter.mp mem').2
    rw [not_nameLt_iff, named, named']
  have inside : (paths.filter fun p => p.fileName = target).Sublist (sortByName paths) :=
    List.sublist_mergeSort not_nameLt_trans not_nameLt_total equal List.filter_sublist
  have kept := inside.filter fun p => decide (p.fileName = target)
  rw [List.filter_filter] at kept
  simp only [Bool.and_self] at kept
  exact (kept.eq_of_length ((perm_sortByName paths).filter _).length_eq.symm).symm

/-- The paths of one of the other names are listed among the others as they were. -/
theorem filter_sortByName_others (differ : target ≠ some name) (paths : List Path) :
    (sortByName (paths.filter fun p => p.fileName ≠ some name)).filter
        (fun p => p.fileName = target) =
      paths.filter fun p => p.fileName = target := by
  rw [filter_sortByName, List.filter_filter]
  refine List.filter_congr fun p _ => ?_
  by_cases named : p.fileName = target
  · simp [named, differ]
  · simp [named]

theorem mem_sortByName_others {p : Path} :
    p ∈ sortByName (paths.filter fun p => p.fileName ≠ some name) ↔
      p ∈ paths ∧ p.fileName ≠ some name := by
  rw [(perm_sortByName _).mem_iff, List.mem_filter, decide_eq_true_iff]

/-! ## Picking -/

/-- The first path behind a name in a sorted list, or the first of the list: its name is the next
one, and no path before it bears that name. -/
theorem adjoins_of_find? (lt : Option String → Option String → Bool) (irrefl : ∀ a, ¬ lt a a)
    (order : xs.Pairwise fun p q => ¬ lt q.fileName p.fileName)
    (picked : (xs.find? fun p => lt target p.fileName).or xs.head? = some next) :
    Adjoins (fun a b => lt a b) xs target next.fileName ∧
      xs.find? (fun p => p.fileName = next.fileName) = some next := by
  rcases Option.or_eq_some_iff.mp picked with behind | ⟨none, first⟩
  · obtain ⟨lt_next, before, after, rfl, early⟩ := List.find?_eq_some_iff_append.mp behind
    have early : ∀ p ∈ before, ¬ lt target p.fileName := by simpa using early
    constructor
    · refine .inl ⟨lt_next, fun p mem lt_p => ?_⟩
      rcases List.mem_append.mp mem with mem | mem
      · exact absurd lt_p (early p mem)
      · rcases List.mem_cons.mp mem with rfl | mem
        · exact irrefl _
        · exact (List.pairwise_cons.mp (List.pairwise_append.mp order).2.1).1 p mem
    · refine List.find?_eq_some_iff_append.mpr ⟨by simp, before, after, rfl, fun p mem => ?_⟩
      have differ : p.fileName ≠ next.fileName := fun same => early p mem (same ▸ lt_next)
      simpa using differ
  · obtain ⟨after, rfl⟩ := List.head?_eq_some_iff.mp first
    constructor
    · refine .inr ⟨by simpa using none, fun p mem _ => ?_⟩
      rcases List.mem_cons.mp mem with rfl | mem
      · exact irrefl _
      · exact (List.pairwise_cons.mp order).1 p mem
    · simp

/-- What is next to a name is decided by the paths of other names. -/
theorem Adjoins.of_others {lt : Option String → Option String → Prop} (irrefl : ∀ a, ¬ lt a a)
    (others : ∀ p ∈ paths, p.fileName ≠ target → p ∈ xs) {next : Option String}
    (adjoins : Adjoins lt xs target next) : Adjoins lt paths target next := by
  have differs {p : Path} (behind : lt target p.fileName) : p.fileName ≠ target := by
    intro same
    rw [same] at behind
    exact irrefl _ behind
  rcases adjoins with ⟨behind, least⟩ | ⟨none, least⟩
  · exact .inl ⟨behind, fun p mem lt_p => least p (others p mem (differs lt_p)) lt_p⟩
  · refine .inr ⟨fun p mem lt_p => none p (others p mem (differs lt_p)) lt_p, ?_⟩
    exact fun p mem differ => least p (others p mem differ) differ

theorem pick_eq_none_iff {sorted : List Path} : pick sorted name dir = none ↔ sorted = [] := by
  cases dir with
  | forward =>
    unfold pick
    rw [Option.or_eq_none_iff, List.head?_eq_none_iff]
    exact ⟨And.right, fun nothing => ⟨by simp [nothing], nothing⟩⟩
  | backward =>
    unfold pick
    rw [Option.or_eq_none_iff, List.getLast?_eq_none_iff]
    exact ⟨And.right, fun nothing => ⟨by simp [nothing], nothing⟩⟩

/-- Of the other paths, sorted by name, the one that is picked. -/
theorem pick_others (dir : Direction)
    (picked : pick (sortByName (paths.filter fun p => p.fileName ≠ some name)) name dir =
      some next) :
    next.fileName ≠ some name ∧ Adjoins (Ahead dir) paths (some name) next.fileName ∧
      ∃ before after, paths = before ++ next :: after ∧
        ∀ p ∈ passed dir before after, p.fileName ≠ next.fileName := by
  have order := pairwise_sortByName (paths.filter fun p => p.fileName ≠ some name)
  have member {p : Path} : p ∈ sortByName (paths.filter fun p => p.fileName ≠ some name) ↔
      p ∈ paths ∧ p.fileName ≠ some name := mem_sortByName_others
  have kept {target : Option String} (differ : target ≠ some name) :=
    filter_sortByName_others differ paths
  generalize sortByName _ = sorted at picked order member kept
  cases dir with
  | forward =>
    obtain ⟨adjoins, first⟩ := adjoins_of_find? nameLt not_nameLt_self order picked
    have differ := (member.mp (List.mem_of_find?_eq_some first)).2
    simp only [nameLt_iff_precedes] at adjoins
    have onward : Adjoins (Ahead .forward) sorted (some name) next.fileName := adjoins
    refine ⟨differ, onward.of_others (not_ahead_self .forward) fun p mem ne =>
      member.mpr ⟨mem, ne⟩, ?_⟩
    rw [← List.head?_filter, kept differ, List.head?_filter] at first
    obtain ⟨-, before, after, split, early⟩ := List.find?_eq_some_iff_append.mp first
    exact ⟨before, after, split, by simpa [passed] using early⟩
  | backward =>
    -- Backward is forward through the list turned round, in the order turned round.
    unfold pick at picked
    rw [← List.head?_reverse] at picked
    obtain ⟨adjoins, last⟩ := adjoins_of_find? (flip nameLt) not_nameLt_self
      (List.pairwise_reverse.mpr order) picked
    have differ := (member.mp (List.mem_reverse.mp (List.mem_of_find?_eq_some last))).2
    simp only [flip, nameLt_iff_precedes] at adjoins
    have turned : Adjoins (Ahead .backward) sorted.reverse (some name) next.fileName := adjoins
    refine ⟨differ, turned.of_others (not_ahead_self .backward) fun p mem ne =>
      List.mem_reverse.mpr (member.mpr ⟨mem, ne⟩), ?_⟩
    rw [← List.getLast?_filter, kept differ, List.getLast?_filter] at last
    obtain ⟨-, after, before, split, late⟩ := List.find?_eq_some_iff_append.mp last
    refine ⟨before.reverse, after.reverse, ?_, by simpa [passed] using late⟩
    rw [← List.reverse_reverse paths, split]
    simp

theorem mem_of_neighbor {current : Path} (found : neighbor paths current dir = some next) :
    next ∈ paths := by
  unfold neighbor at found
  cases named : current.fileName with
  | none =>
    rw [named] at found
    cases found
  | some name =>
    rw [named] at found
    obtain ⟨-, -, before, after, rfl, -⟩ := pick_others dir found
    simp

/-- The neighbour of a file among any paths. There is none exactly if the file has no name or every
path bears it. Else its name is the next one around the circle of other names, forward or backward
in the order of bytes, and of the paths with that name it is the first one listed forward and the
last one backward. -/
theorem neighbor_around (paths : List Path) (current : Path) (dir : Direction) :
    (neighbor paths current dir = none ↔
      current.fileName = none ∨ ∀ p ∈ paths, p.fileName = current.fileName) ∧
    ∀ next, neighbor paths current dir = some next →
      next.fileName ≠ current.fileName ∧
      Adjoins (Ahead dir) paths current.fileName next.fileName ∧
      ∃ before after, paths = before ++ next :: after ∧
        ∀ p ∈ passed dir before after, p.fileName ≠ next.fileName := by
  unfold neighbor
  cases named : current.fileName with
  | none => simp
  | some name =>
    refine ⟨?_, fun next picked => pick_others dir picked⟩
    dsimp only
    rw [pick_eq_none_iff, List.eq_nil_iff_forall_not_mem]
    simp only [mem_sortByName_others, not_and, not_not, reduceCtorEq, false_or]

/-- A file that is not listed, behind two of one name: backward leads to the second of the two. -/
theorem neighbor_around_unlisted :
    let paths : List Path := [⟨"x/b"⟩, ⟨"/"⟩, ⟨"y/b"⟩, ⟨"d"⟩]
    neighbor paths ⟨"c"⟩ .backward = some ⟨"y/b"⟩ ∧
      (Path.mk "y/b").fileName ≠ (Path.mk "c").fileName ∧
      Adjoins (Ahead .backward) paths (Path.mk "c").fileName (Path.mk "y/b").fileName ∧
      ∃ before after, paths = before ++ ⟨"y/b"⟩ :: after ∧
        ∀ p ∈ passed .backward before after, p.fileName ≠ (Path.mk "y/b").fileName := by
  intro paths
  have next : neighbor paths ⟨"c"⟩ .backward = some ⟨"y/b"⟩ := by cbv
  exact ⟨next, (neighbor_around paths ⟨"c"⟩ .backward).2 _ next⟩

end Glance.Neighbor
