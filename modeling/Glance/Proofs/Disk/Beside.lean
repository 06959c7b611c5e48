import Glance.Proofs.Disk.Folders

/-!
# Writing beside a file

A path with another extension leads to the same folder, to another name there
(`beside_withExtension`). What is written under that name changes nothing about what the path leads
to, nor about what lies below (`unchanged_put_file`); and nor does making the folder in front of
both (`unchanged_makeFolders`).
-/

namespace Glance

namespace Disk

variable {d d' d'' : Disk} {p : Path} {place next goal : Place}
  {text segment : List Char} {segments front after : List (List Char)} {extension : String}

/-! ## What a path leads to -/

/-- What a path leads to is as it was, and all that lies below it. -/
structure Unchanged (d d' : Disk) (p : Path) : Prop where
  same : (d'.resolve p).toOption = (d.resolve p).toOption
  below : ∀ place node, d.resolve p = .ok (place, node) → ∀ names : List String,
    d'.node? (names.foldl Array.push place) = d.node? (names.foldl Array.push place)

theorem Unchanged.refl (d : Disk) (p : Path) : Unchanged d d p :=
  ⟨rfl, fun _ _ _ _ => rfl⟩

theorem eq_ok_of_toOption {ε α : Type} {result : Except ε α} {a : α}
    (found : result.toOption = some a) : result = .ok a := by
  cases result with
  | error cause => cases found
  | ok b => exact congrArg _ (Option.some.inj found)

theorem Unchanged.trans (first : Unchanged d d' p) (second : Unchanged d' d'' p) :
    Unchanged d d'' p := by
  refine ⟨second.same.trans first.same, fun place node resolved names => ?_⟩
  have onward : d'.resolve p = .ok (place, node) :=
    eq_ok_of_toOption (first.same.trans (by rw [resolved]; rfl))
  rw [second.below place node onward, first.below place node resolved]

/-- With the same folders, a path leads to the same place, and to what that holds. -/
theorem reach_congr (keeps : KeepsFolders d d') (keeps' : KeepsFolders d' d)
    (agree : ∀ goal, segments.foldlM d.enter place = .ok goal → d'.node? goal = d.node? goal) :
    d'.reach place segments = d.reach place segments := by
  unfold reach
  cases followed : segments.foldlM d.enter place with
  | ok goal =>
    rw [keeps.follow followed]
    dsimp only
    rw [agree goal followed]
  | error cause =>
    cases followed' : segments.foldlM d'.enter place with
    | error cause' => rfl
    | ok goal =>
      rw [keeps'.follow followed'] at followed
      cases followed

/-- No folder comes into being where a file is put. -/
theorem keepsFolders_of_put_file (free : d.node? place ≠ some .folder) (bytes : List UInt8) :
    KeepsFolders (d.put place (.file bytes)) d := by
  refine ⟨rfl, fun other isFolder => ?_⟩
  by_cases same : other = place
  · rw [same, node?_put_self (filled_of_free free)] at isFolder
    cases isFolder
  · rwa [node?_put_of_ne same] at isFolder

/-- Two places in one folder, under different names. -/
def Beside (place goal : Place) : Prop :=
  ∃ folder name other, name ≠ other ∧ place = Array.push folder name ∧
    goal = Array.push folder other

theorem Beside.ne (beside : Beside place goal) : goal ≠ place := by
  obtain ⟨folder, name, other, ne, rfl, rfl⟩ := beside
  rw [Ne, Array.push_eq_push]
  exact fun same => ne same.1.symm

theorem Beside.below_ne (beside : Beside place goal) (names : List String) :
    names.foldl Array.push goal ≠ place := by
  intro same
  have size := congrArg Array.size same
  have ne := beside.ne
  obtain ⟨folder, name, other, -, rfl, rfl⟩ := beside
  rw [size_foldl_push, Array.size_push, Array.size_push] at size
  obtain rfl : names = [] := List.length_eq_zero_iff.mp (by omega)
  exact ne same

/-- A file beside what a path leads to can be written without a change there. -/
theorem unchanged_put_file (free : d.node? place ≠ some .folder)
    (beside : ∀ goal, d.locate p = .ok goal → Beside place goal) (bytes : List UInt8) :
    Unchanged d (d.put place (.file bytes)) p := by
  constructor
  · by_cases isPath : IsPathText p
    · rw [toOption_resolve _ isPath, toOption_resolve _ isPath]
      refine reach_congr (keepsFolders_put free _) (keepsFolders_of_put_file free bytes) ?_
      intro goal followed
      rw [node?_put_of_ne (beside goal ((locate_eq isPath).trans followed)).ne]
    · rw [toOption_resolve_of_not _ isPath, toOption_resolve_of_not _ isPath]
  · intro goal node resolved names
    rw [node?_put_of_ne ((beside goal (resolve_eq_ok resolved).1).below_ne names)]

/-! ## Following a name -/

/-- Idle segments lead nowhere else, and only from a folder. -/
theorem follow_idle (idle : ∀ segment ∈ segments, Path.IsIdle segment)
    (followed : segments.foldlM d.enter place = .ok goal) :
    goal = place ∧ (segments ≠ [] → d.node? place = some .folder) := by
  induction segments using List.reverseRecOn generalizing goal with
  | nil => exact ⟨(Except.ok.inj followed).symm, fun filled => absurd rfl filled⟩
  | append_singleton segments segment ih =>
    rw [List.forall_mem_append, List.forall_mem_singleton] at idle
    obtain ⟨middle, before, entered⟩ := follow_concat followed
    obtain ⟨rfl, -⟩ := ih idle.1 before
    rcases enter_eq_ok entered with ⟨isFolder, ⟨-, rfl⟩ | ⟨rfl, -⟩ | ⟨filled, ne_here, -⟩⟩
    · exact ⟨rfl, fun _ => isFolder⟩
    · exact absurd idle.2 (by simp [Path.IsIdle])
    · exact (idle.2.elim filled ne_here).elim

/-- A path that ends in a name leads right below what its front leads to. -/
theorem follow_endsIn (ends : p.EndsIn front text after) (located : d.locate p = .ok goal) :
    ∃ folder, front.foldlM d.enter (d.origin p) = .ok folder ∧
      goal = folder.push (String.ofList text) ∧ (after ≠ [] → d.node? goal = some .folder) := by
  have followed := follow_of_locate located
  rw [ends.segments] at followed
  obtain ⟨folder, before, followed⟩ := follow_append followed
  obtain ⟨next, entered, followed⟩ := follow_cons followed
  obtain ⟨rfl, behind⟩ := follow_idle ends.idle followed
  exact ⟨folder, before, enter_name ends.isName entered, behind⟩

/-! ## What stays when a folder is made -/

theorem Grounded.of_locate (located : d.locate p = .ok place) : d.Grounded p := by
  intro before rest split missing
  have followed := follow_of_locate located
  rw [split, ← List.singleton_append, ← List.append_assoc] at followed
  obtain ⟨middle, first, -⟩ := follow_append followed
  rw [missing] at first
  cases first

/-- The folder of a path is made without a change to what the path leads to. -/
theorem unchanged_makeFolders {folder : Path} (rooted : d.Rooted) (grounded : d.Grounded p)
    (ends : p.EndsIn front text after) (parent : p.parent = some folder) :
    Unchanged d (d.makeFolders folder).2 p := by
  refine ⟨resolve_makeFolders ends parent rooted grounded, fun place node resolved names => ?_⟩
  rw [makeFolders_of_locate ends parent (resolve_eq_ok resolved).1]

/-! ## Another extension -/

/-- Where no folder is, a path with another extension leads to a name of its own. -/
theorem beside_withExtension (rooted : d.Rooted) (ends : p.EndsIn front text after)
    (clean : '/' ∉ extension.toList) (apart : p.withExtension extension ≠ p)
    (located : d.locate (p.withExtension extension) = .ok place)
    (free : d.node? place ≠ some .folder) (located' : d.locate p = .ok goal) :
    Beside place goal := by
  obtain ⟨changed, shape, written⟩ := Path.withExtension_eq ends extension
  have separate := p.separator_not_mem_segments
  rw [ends.segments] at separate
  have separate' : ∀ segment ∈ front ++ [changed], '/' ∉ segment := by
    refine List.forall_mem_append.mpr ⟨fun segment mem => separate segment (by simp [mem]), ?_⟩
    rw [List.forall_mem_singleton]
    rcases written with rfl | ⟨stem, rfl, old⟩
    · decide
    · rw [List.mem_append, List.mem_cons]
      rintro (mem | same | mem)
      · exact separate text (by simp) (old _ mem)
      · cases same
      · exact clean mem
  have segments : (p.withExtension extension).segments = front ++ [changed] := by
    rw [shape, Path.segments_join (by simp) separate']
  have followed := follow_of_locate located
  rw [segments] at followed
  obtain ⟨folder, before, entered⟩ := follow_concat followed
  obtain ⟨isName, -, rfl⟩ := rooted.enter_free entered free
  have origin : d.origin (p.withExtension extension) = d.origin p := by
    unfold origin
    rw [Path.isAbsolute_congr ends.segments ends.isName.filled segments isName.filled]
  obtain ⟨folder', before', rfl, behind⟩ := follow_endsIn ends located'
  rw [origin] at before
  obtain rfl := Except.ok.inj (before.symm.trans before')
  refine ⟨folder, _, _, fun same => apart ?_, rfl, rfl⟩
  -- Under one name the paths are one, since nothing can stand behind the name of a file.
  rw [String.ofList_inj] at same
  obtain rfl : after = [] := by
    by_contra filled
    rw [same] at free
    exact free (behind filled)
  have own : p = ⟨String.ofList (Path.join (front ++ [changed]))⟩ := by
    rw [same, ← ends.segments, ← Path.text_eq_join, String.ofList_toList]
  rw [shape, ← own]

end Disk

end Glance
