import Glance.Proofs.Folder

/-!
# Writing to a disk

A path that led to a place still leads there when no folder is gone, and neither writing nor
renaming a file makes a folder go.
-/

namespace Glance.Disk

variable {d d' d'' : Disk} {p source target : Path} {place other : Place} {node : Node}
  {bytes : List UInt8}

/-! ## Places -/

theorem node?_root (d : Disk) : d.node? #[] = some .folder := rfl

theorem node?_put_self (filled : place ≠ #[]) (node : Node) :
    (d.put place node).node? place = some node := by
  unfold node? put
  rw [if_neg (by simpa using filled), List.find?_cons_of_pos (by simp)]
  rfl

theorem find?_filter_ne (nodes : List (Place × Node)) (ne : other ≠ place) :
    (nodes.filter (·.1 ≠ place)).find? (·.1 = other) = nodes.find? (·.1 = other) := by
  rw [List.find?_filter]
  congr 1
  funext n
  by_cases same : n.1 = other
  · simp [same, ne]
  · simp [same]

theorem node?_remove_of_ne (ne : other ≠ place) :
    (d.remove place).node? other = d.node? other := by
  unfold node? remove
  rw [find?_filter_ne _ ne]

theorem node?_remove_self (filled : place ≠ #[]) : (d.remove place).node? place = none := by
  unfold node? remove
  rw [if_neg (by simpa using filled), List.find?_eq_none.mpr, Option.map_none]
  intro n mem
  simpa using (List.mem_filter.mp mem).2

theorem node?_put_of_ne (ne : other ≠ place) (node : Node) :
    (d.put place node).node? other = d.node? other := by
  unfold node? put
  rw [List.find?_cons_of_neg (by simpa using ne.symm), find?_filter_ne _ ne]

/-! ## Folders that stay -/

/-- Every folder is still one. -/
structure KeepsFolders (d d' : Disk) : Prop where
  current : d'.current = d.current
  folder : ∀ place, d.node? place = some .folder → d'.node? place = some .folder

theorem KeepsFolders.trans (keeps : KeepsFolders d d') (keeps' : KeepsFolders d' d'') :
    KeepsFolders d d'' :=
  ⟨keeps'.current.trans keeps.current, fun place h => keeps'.folder place (keeps.folder place h)⟩

theorem keepsFolders_put (h : d.node? place ≠ some .folder) (node : Node) :
    KeepsFolders d (d.put place node) := by
  refine ⟨rfl, fun other folder => ?_⟩
  have ne : other ≠ place := by
    rintro rfl
    exact h folder
  rw [node?_put_of_ne ne, folder]

theorem keepsFolders_remove (h : d.node? place ≠ some .folder) :
    KeepsFolders d (d.remove place) := by
  refine ⟨rfl, fun other folder => ?_⟩
  have ne : other ≠ place := by
    rintro rfl
    exact h folder
  rw [node?_remove_of_ne ne, folder]

theorem KeepsFolders.enter {segment : List Char} (keeps : KeepsFolders d d')
    (h : d.enter place segment = .ok other) : d'.enter place segment = .ok other := by
  have folder : d.node? place = some .folder := by
    unfold Disk.enter at h
    split at h
    · cases h
    · cases h
    · assumption
  unfold Disk.enter at h ⊢
  rw [keeps.folder place folder]
  rw [folder] at h
  exact h

theorem KeepsFolders.follow (keeps : KeepsFolders d d') {segments : List (List Char)}
    (h : segments.foldlM d.enter other = .ok place) :
    segments.foldlM d'.enter other = .ok place := by
  induction segments generalizing other with
  | nil => exact h
  | cons segment segments ih =>
    rw [List.foldlM_cons] at h ⊢
    cases entered : d.enter other segment with
    | error cause =>
      rw [entered] at h
      cases h
    | ok next =>
      rw [entered] at h
      rw [keeps.enter entered]
      exact ih h

/-- A path leads where it led. -/
theorem KeepsFolders.locate (keeps : KeepsFolders d d') (h : d.locate p = .ok place) :
    d'.locate p = .ok place := by
  unfold Disk.locate at h ⊢
  unfold origin at h ⊢
  rw [keeps.current]
  split_ifs at h ⊢ <;> exact keeps.follow h

/-! ## Files -/

theorem resolve_of_locate (located : d.locate p = .ok place) (holds : d.node? place = some node) :
    d.resolve p = .ok (place, node) := by
  unfold resolve
  rw [located]
  dsimp only [bind, Except.bind]
  rw [holds]

theorem contains_of_read (read : d.read p = .ok bytes) : d.contains p := by
  obtain ⟨place, found⟩ := read_eq_ok_iff.mp read
  unfold contains
  rw [found]
  rfl

/-- Where a file is written, no folder was. -/
theorem write_cases (h : d.write p bytes = .ok d') :
    ∃ place, d.locate p = .ok place ∧ d.node? place ≠ some .folder ∧
      d' = d.put place (.file bytes) := by
  unfold write at h
  cases located : d.locate p with
  | error cause =>
    rw [located] at h
    cases h
  | ok place =>
    rw [located] at h
    refine ⟨place, rfl, ?_⟩
    dsimp only [bind, Except.bind] at h
    split at h
    · cases h
    · next holds =>
      cases h
      rw [holds]
      exact ⟨by simp, rfl⟩
    · next holds _ =>
      cases h
      rw [holds]
      exact ⟨by simp, rfl⟩
    · cases h
    · cases h

/-- A file can be written where a file is, or where nothing is in a folder. -/
theorem write_eq_ok (located : d.locate p = .ok place) (free : d.node? place ≠ some .folder)
    (inside : d.node? place = none → d.node? place.pop = some .folder) (bytes : List UInt8) :
    d.write p bytes = .ok (d.put place (.file bytes)) := by
  unfold write
  rw [located]
  dsimp only [bind, Except.bind]
  cases holds : d.node? place with
  | none => rw [inside holds]
  | some node =>
    cases node with
    | folder => exact absurd holds free
    | file old => rfl

theorem write_of_nowhere {cause : DiskError} (nowhere : d.locate p = .error cause)
    (bytes : List UInt8) : d.write p bytes = .error cause := by
  unfold write
  rw [nowhere]
  rfl

/-- Where a file is moved to, no folder was. -/
theorem rename_cases (h : d.rename source target = .ok d') :
    ∃ place node goal, d.resolve source = .ok (place, node) ∧ d.locate target = .ok goal ∧
      d.node? goal ≠ some .folder ∧ d' = (d.remove place).put goal node := by
  unfold rename at h
  cases resolved : d.resolve source with
  | error cause =>
    rw [resolved] at h
    cases h
  | ok found =>
    obtain ⟨place, node⟩ := found
    cases located : d.locate target with
    | error cause =>
      rw [resolved, located] at h
      cases h
    | ok goal =>
      rw [resolved, located] at h
      refine ⟨place, node, goal, rfl, rfl, ?_⟩
      dsimp only [bind, Except.bind] at h
      split at h
      · cases h
      · next other =>
        cases h
        exact ⟨other, rfl⟩

/-- A file can be moved to any path that leads to no folder. -/
theorem rename_eq_ok {goal : Place} (resolved : d.resolve source = .ok (place, node))
    (located : d.locate target = .ok goal) (free : d.node? goal ≠ some .folder) :
    d.rename source target = .ok ((d.remove place).put goal node) := by
  unfold rename
  rw [resolved, located]
  dsimp only [bind, Except.bind]
  split
  · next isFolder => exact absurd isFolder free
  · rfl

theorem filled_of_free (free : d.node? place ≠ some .folder) : place ≠ #[] := by
  rintro rfl
  exact free (node?_root d)

theorem filled_of_missing (missing : d.node? place = none) : place ≠ #[] :=
  filled_of_free (by rw [missing]; nofun)

/-- What is written to a path is read there. -/
theorem read_of_write (write : d.write p bytes = .ok d') : d'.read p = .ok bytes := by
  obtain ⟨place, located, free, rfl⟩ := write_cases write
  have keeps := keepsFolders_put free (.file bytes)
  exact read_eq_ok_iff.mpr ⟨place, resolve_of_locate (keeps.locate located)
    (node?_put_self (filled_of_free free) _)⟩

theorem keepsFolders_move (file : d.node? place ≠ some .folder)
    (free : d.node? other ≠ some .folder) (node : Node) :
    KeepsFolders d ((d.remove place).put other node) := by
  have free' : (d.remove place).node? other ≠ some .folder := by
    by_cases same : other = place
    · rw [same, node?_remove_self (filled_of_free file)]
      nofun
    · rwa [node?_remove_of_ne same]
  exact (keepsFolders_remove file).trans (keepsFolders_put free' node)

/-- What was written to one path is what is moved from there. -/
theorem write_rename_cases {written : Disk} (write : d.write source bytes = .ok written)
    (rename : written.rename source target = .ok d') :
    ∃ place goal, d.locate source = .ok place ∧ d.node? place ≠ some .folder ∧
      written = d.put place (.file bytes) ∧ written.locate target = .ok goal ∧
      written.node? goal ≠ some .folder ∧ d' = (written.remove place).put goal (.file bytes) ∧
      KeepsFolders written d' := by
  obtain ⟨place, located, free, rfl⟩ := write_cases write
  obtain ⟨place', node, goal, resolved, located', free', rfl⟩ := rename_cases rename
  have holds := node?_put_self (d := d) (filled_of_free free) (.file bytes)
  have leads := resolve_of_locate ((keepsFolders_put free (.file bytes)).locate located) holds
  rw [leads] at resolved
  cases resolved
  have file : (d.put place (.file bytes)).node? place ≠ some .folder := by
    rw [holds]
    nofun
  exact ⟨place, goal, located, free, rfl, located', free', rfl, keepsFolders_move file free' _⟩

/-- What was written to one path and moved to another is read there. -/
theorem read_of_write_rename {written : Disk} (write : d.write source bytes = .ok written)
    (rename : written.rename source target = .ok d') : d'.read target = .ok bytes := by
  obtain ⟨place, goal, -, -, -, located, free, rfl, keeps⟩ := write_rename_cases write rename
  exact read_eq_ok_iff.mpr ⟨goal, resolve_of_locate (keeps.locate located)
    (node?_put_self (filled_of_free free) _)⟩

end Glance.Disk
