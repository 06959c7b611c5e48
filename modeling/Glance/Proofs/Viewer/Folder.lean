import Glance.Proofs.Neighbor
import Glance.Proofs.Viewer.Opening
import Mathlib.Data.List.Rotate

/-!
# Stepping through a folder

While a folder keeps its files, and each has a name of its own, the open file has a place in the
order of names, and a step from file to file moves this place around the ring (`openNeighbor_at`).
Where a walk of many steps leads is then a matter of arithmetic (`steps_through_folder`).
-/

namespace Glance

/-- Whichever of these files is open, the resolver finds these beside it, and each of them opens as
a file of this kind, under its own path. -/
structure Resolver.Lists (r : Resolver) (kind : FileKind) (paths : List Path) : Prop where
  siblings_eq : ∀ path ∈ paths, r.siblings path kind = paths
  resolves : ∀ path ∈ paths, ∃ content, (r.resolve path).content? = some content ∧
    content.kind = kind ∧ content.path = path.text

namespace Viewer

variable {σ : Type} {v : Viewer σ} {r : Resolver} {dir : Direction} {kind : FileKind}
  {path : Path} {paths sorted : List Path} {i : ℕ}

/-- The open file is of this kind and has this path. -/
def Shows (v : Viewer σ) (kind : FileKind) (path : Path) : Prop :=
  ∃ content, v.content = some content ∧ content.kind = kind ∧ content.path = path.text

/-- Steps from file to file, each with the resolver that answers it. -/
def walk [Store σ] (v : Viewer σ) (steps : List (Resolver × Direction)) : Viewer σ :=
  v.run (steps.map fun (r, dir) => .openNeighbor r dir)

/-- The open file is the one at place `i` of a list. -/
def At (v : Viewer σ) (kind : FileKind) (sorted : List Path) (i : ℕ) : Prop :=
  ∃ path, sorted[i]? = some path ∧ v.Shows kind path

theorem At.lt (h : v.At kind sorted i) : i < sorted.length := by
  obtain ⟨path, place, -⟩ := h
  exact (List.getElem?_eq_some_iff.mp place).1

theorem At.shows (h : v.At kind sorted i) (place : sorted[i]? = some path) :
    v.Shows kind path := by
  obtain ⟨path', place', shows⟩ := h
  rwa [Option.some.inj (place.symm.trans place')]

/-! ## One step -/

/-- A list of files with names, brought into the order of their names. -/
structure Ordered (paths sorted : List Path) : Prop where
  perm : sorted.Perm paths
  ascending : Neighbor.Ascending sorted
  named : ∀ path ∈ paths, path.fileName ≠ none

theorem openNeighbor_at [Store σ] (ordered : Ordered paths sorted) (many : 2 ≤ sorted.length)
    (lists : r.Lists kind paths) (here : v.At kind sorted i) (dir : Direction) :
    (v.openNeighbor r dir).1 = .opened ∧
      (v.openNeighbor r dir).2.At kind sorted (Navigator.advance sorted.length i dir) := by
  obtain ⟨⟨text⟩, place, content, shown, rfl, rfl⟩ := here
  have mem : ⟨content.path⟩ ∈ paths := ordered.perm.mem_iff.mp (List.mem_of_getElem? place)
  obtain ⟨name, named⟩ := Option.ne_none_iff_exists'.mp (ordered.named _ mem)
  have inside : Navigator.advance sorted.length i dir < sorted.length :=
    Navigator.advance_lt (by omega) dir
  obtain ⟨next, next_place⟩ : ∃ next,
      sorted[Navigator.advance sorted.length i dir]? = some next :=
    ⟨_, List.getElem?_eq_getElem inside⟩
  have beside : neighbor (r.siblings ⟨content.path⟩ content.kind) ⟨content.path⟩ dir =
      some next := by
    rw [lists.siblings_eq _ mem,
      Neighbor.neighbor_eq ordered.perm ordered.ascending place named many, next_place]
  obtain ⟨opened, gives, same_kind, same_path⟩ :=
    lists.resolves next (ordered.perm.mem_iff.mp (List.mem_of_getElem? next_place))
  have step : v.openNeighbor r dir = v.showFile (r.resolve next) := by
    unfold openNeighbor
    rw [shown]
    dsimp only
    rw [beside]
    rfl
  rw [step]
  obtain ⟨outcome, content_eq⟩ := showFile_of_content? v gives
  exact ⟨outcome, next, next_place, opened, content_eq, same_kind, same_path⟩

/-- A file that is alone has no neighbour to open. -/
theorem openNeighbor_alone [Store σ] (lists : r.Lists kind [path]) (shows : v.Shows kind path)
    (dir : Direction) : v.openNeighbor r dir = (.cancelled, v) := by
  obtain ⟨content, shown, rfl, same⟩ := shows
  obtain rfl : path = ⟨content.path⟩ := by rw [same]
  unfold openNeighbor
  rw [shown]
  dsimp only
  rw [lists.siblings_eq _ List.mem_cons_self, Neighbor.neighbor_singleton]

/-! ## Walks -/

theorem walk_at [Store σ] (ordered : Ordered paths sorted) (many : 2 ≤ sorted.length)
    (here : v.At kind sorted i) (steps : List (Resolver × Direction))
    (lists : ∀ step ∈ steps, step.1.Lists kind paths) :
    (v.walk steps).At kind sorted
      ((steps.map Prod.snd).foldl (Navigator.advance sorted.length) i) := by
  induction steps generalizing v i with
  | nil => exact here
  | cons step steps ih =>
    rw [List.forall_mem_cons] at lists
    exact ih (openNeighbor_at ordered many lists.1 here step.2).2 lists.2

theorem walk_forward_at [Store σ] (ordered : Ordered paths sorted) (many : 2 ≤ sorted.length)
    (here : v.At kind sorted i) (steps : List (Resolver × Direction))
    (lists : ∀ step ∈ steps, step.1.Lists kind paths)
    (forward : ∀ step ∈ steps, step.2 = .forward) :
    (v.walk steps).At kind sorted ((i + steps.length) % sorted.length) := by
  have dirs : steps.map Prod.snd = List.replicate steps.length .forward := by
    refine List.eq_replicate_iff.mpr ⟨List.length_map _, fun dir mem => ?_⟩
    obtain ⟨step, taken, rfl⟩ := List.mem_map.mp mem
    exact forward step taken
  have reached := walk_at ordered many here steps lists
  rwa [dirs, Navigator.foldl_advance_replicate here.lt] at reached

/-- As many steps forward as there are files open the files in a circle, each one once. -/
theorem walk_around [Store σ] (ordered : Ordered paths sorted) (many : 2 ≤ sorted.length)
    (here : v.At kind sorted i) {steps : List (Resolver × Direction)}
    (lists : ∀ step ∈ steps, step.1.Lists kind paths)
    (forward : ∀ step ∈ steps, step.2 = .forward) (once : steps.length = sorted.length) :
    (∀ k < steps.length, ∀ path, (sorted.rotate (i + 1))[k]? = some path →
        (v.walk (steps.take (k + 1))).Shows kind path) ∧
      (v.walk steps).At kind sorted i := by
  constructor
  · intro k lt path place
    have reached := walk_forward_at ordered many here (steps.take (k + 1))
      (fun step taken => lists step (List.mem_of_mem_take taken))
      (fun step taken => forward step (List.mem_of_mem_take taken))
    rw [List.length_take_of_le lt] at reached
    rw [List.getElem?_rotate (by omega), show k + (i + 1) = i + (k + 1) by omega] at place
    exact reached.shows place
  · have turned := walk_forward_at ordered many here steps lists forward
    rwa [once, Nat.add_mod_right, Nat.mod_eq_of_lt here.lt] at turned

/-- Steps through a folder of files with names of their own. With two files or more every step opens
a file, a walk leads as many places further in the byte order of names as it had more steps forward
than backward, around the ends of the folder, so a walk forward around the folder opens each file
once and a step the other way undoes a step. A file alone has no neighbour. -/
theorem steps_through_folder [Store σ] (shows : v.Shows kind path) (listed : path ∈ paths)
    (named : ∀ path ∈ paths, path.fileName ≠ none)
    (distinct : (paths.map Path.fileName).Nodup) :
    ∃ (sorted : List Path) (start : ℕ), sorted.Perm paths ∧ sorted.Pairwise Neighbor.ByteBefore ∧
      sorted[start]? = some path ∧
      (2 ≤ paths.length →
        (∀ steps : List (Resolver × Direction), (∀ step ∈ steps, step.1.Lists kind paths) →
          (∀ (r : Resolver) dir, r.Lists kind paths →
            ((v.walk steps).openNeighbor r dir).1 = .opened) ∧
          ∃ place : ℕ, (place : ℤ) = (start + (steps.map Prod.snd).count .forward -
              (steps.map Prod.snd).count .backward) % paths.length ∧
            ∃ next, sorted[place]? = some next ∧ (v.walk steps).Shows kind next) ∧
        (∀ steps : List (Resolver × Direction), (∀ step ∈ steps, step.1.Lists kind paths) →
          (∀ step ∈ steps, step.2 = .forward) → steps.length = paths.length →
          (∃ order : List Path, order.Perm paths ∧ ∀ k < steps.length, ∀ next,
            order[k]? = some next → (v.walk (steps.take (k + 1))).Shows kind next) ∧
          (v.walk steps).Shows kind path) ∧
        ∀ (r r' : Resolver) dir back, r.Lists kind paths → r'.Lists kind paths → dir ≠ back →
          (v.walk [(r, dir), (r', back)]).Shows kind path) ∧
      (paths.length = 1 → ∀ (r : Resolver) dir, r.Lists kind paths →
        v.openNeighbor r dir = (.cancelled, v)) := by
  have ordered : Ordered paths (Neighbor.sortByName paths) :=
    ⟨Neighbor.perm_sortByName paths, Neighbor.ascending_sortByName distinct, named⟩
  generalize Neighbor.sortByName paths = sorted at ordered
  have perm := ordered.perm
  obtain ⟨start, place⟩ := List.mem_iff_getElem?.mp (perm.mem_iff.mpr listed)
  have here : v.At kind sorted start := ⟨path, place, shows⟩
  refine ⟨sorted, start, perm, ordered.ascending.byteBefore fun p mem =>
    named p (perm.mem_iff.mp mem), place, fun many => ?_, fun alone r dir lists => ?_⟩
  · rw [← perm.length_eq] at many ⊢
    refine ⟨fun steps lists => ?_, fun steps lists forward once => ?_, ?_⟩
    · have reached := walk_at ordered many here steps lists
      refine ⟨fun r dir more => (openNeighbor_at ordered many more reached dir).1, ?_⟩
      exact ⟨_, Navigator.cast_foldl_advance here.lt _, reached⟩
    · obtain ⟨visits, back⟩ := walk_around ordered many here lists forward once
      exact ⟨⟨_, (List.rotate_perm sorted _).trans perm, visits⟩, back.shows place⟩
    · intro r r' dir back lists lists' opposite
      have returned : (v.walk [(r, dir), (r', back)]).At kind sorted
          (Navigator.advance sorted.length (Navigator.advance sorted.length start dir) back) :=
        walk_at ordered many here _ (by simp [lists, lists'])
      rw [Navigator.advance_advance here.lt opposite] at returned
      exact returned.shows place
  · obtain ⟨only, rfl⟩ := List.length_eq_one_iff.mp alone
    obtain rfl := List.mem_singleton.mp listed
    exact openNeighbor_alone lists shows dir

/-- Three texts, the second by name being open: three steps forward lead back to it. -/
theorem steps_through_folder_three :
    let paths : List Path := [⟨"c.txt"⟩, ⟨"a.txt"⟩, ⟨"b.txt"⟩]
    let r : Resolver :=
      { pick := none
        resolve := fun path => .text path.text ['x'] none
        siblings := fun _ _ => paths }
    let v := (start MemoryStore.empty .initial).run [.openPath r ⟨"b.txt"⟩]
    v.Shows .text ⟨"b.txt"⟩ ∧ ⟨"b.txt"⟩ ∈ paths ∧ (∀ path ∈ paths, path.fileName ≠ none) ∧
      (paths.map Path.fileName).Nodup ∧ r.Lists .text paths ∧
      (v.walk (List.replicate 3 (r, .forward))).Shows .text ⟨"b.txt"⟩ := by
  intro paths r v
  have shows : v.Shows .text ⟨"b.txt"⟩ := ⟨.text "b.txt" ⟨['x']⟩ (.ofPath ⟨"b.txt"⟩), rfl, rfl, rfl⟩
  have listed : ⟨"b.txt"⟩ ∈ paths := by simp [paths]
  have named : ∀ path ∈ paths, path.fileName ≠ none := by decide
  have distinct : (paths.map Path.fileName).Nodup := by decide
  have lists : r.Lists .text paths :=
    ⟨fun _ _ => rfl, fun path _ => ⟨.text path.text ⟨['x']⟩ (.ofPath path), rfl, rfl, rfl⟩⟩
  obtain ⟨sorted, place, -, -, -, many, -⟩ := steps_through_folder shows listed named distinct
  have steps := (many (by decide)).2.1 (List.replicate 3 (r, .forward))
  refine ⟨shows, listed, named, distinct, lists, (steps ?_ ?_ rfl).2⟩
  · intro step mem
    rwa [List.eq_of_mem_replicate mem]
  · intro step mem
    rw [List.eq_of_mem_replicate mem]

end Viewer

end Glance
