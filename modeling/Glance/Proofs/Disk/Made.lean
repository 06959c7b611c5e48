import Glance.Proofs.Disk.Folders

/-!
# Disks that can be there

A disk comes about from the empty one: files are written and moved, folders are made, and one of
them is made the current one (`Made`). Then no place holds two things, everything has a name that a
folder can hold (`Made.sound`), and everything lies in a folder (`Made.rooted`).
-/

namespace Glance.Disk

variable {d d' : Disk} {p source target : Path} {place : Place} {bytes : List UInt8}

/-! ## What lies in folders -/

/-- A path to something other than a folder ends right below a folder. -/
theorem Rooted.locate_free (rooted : d.Rooted) (located : d.locate p = .ok place)
    (free : d.node? place ≠ some .folder) :
    ∃ front name, place = Array.push front name ∧ d.node? front = some .folder := by
  have followed := follow_of_locate located
  rcases List.eq_nil_or_concat p.segments with none | ⟨front, segment, split⟩
  · rw [none] at followed
    obtain rfl := Except.ok.inj followed
    exact absurd (rooted.origin p) free
  · rw [split, List.concat_eq_append] at followed
    obtain ⟨middle, -, entered⟩ := follow_concat followed
    obtain ⟨-, isFolder, rfl⟩ := rooted.enter_free entered free
    exact ⟨middle, _, rfl, isFolder⟩

theorem Rooted.remove (rooted : d.Rooted) (free : d.node? place ≠ some .folder) :
    (d.remove place).Rooted := by
  have keeps := keepsFolders_remove free
  refine ⟨keeps.folder _ rooted.current, fun other inner there => keeps.folder _ ?_⟩
  have ne : other.push inner ≠ place := by
    rintro rfl
    exact there (node?_remove_self (filled_of_free free))
  rw [node?_remove_of_ne ne] at there
  exact rooted.parent other inner there

theorem Rooted.write (rooted : d.Rooted) (written : d.write p bytes = .ok d') : d'.Rooted := by
  obtain ⟨place, located, free, rfl⟩ := write_cases written
  obtain ⟨front, name, rfl, isFolder⟩ := rooted.locate_free located free
  exact rooted.put isFolder free _

theorem Rooted.rename (rooted : d.Rooted) (file : d.isFile source)
    (moved : d.rename source target = .ok d') : d'.Rooted := by
  obtain ⟨place, node, goal, resolved, located, free, rfl⟩ := rename_cases moved
  obtain ⟨front, name, rfl, isFolder⟩ := rooted.locate_free located free
  have notFolder : d.node? place ≠ some .folder := by
    rw [(resolve_eq_ok resolved).2]
    rintro ⟨⟩
    unfold isFile at file
    rw [resolved] at file
    cases file
  have keeps := keepsFolders_remove notFolder
  have free' : (d.remove place).node? (front.push name) ≠ some .folder := by
    by_cases same : front.push name = place
    · rw [same, node?_remove_self (filled_of_free notFolder)]
      nofun
    · rwa [node?_remove_of_ne same]
  exact (rooted.remove notFolder).put (keeps.folder _ isFolder) free' node

/-! ## From the empty disk -/

/-- A disk that has come about from the empty one. -/
inductive Made : Disk → Prop
  | empty : Made .empty
  | write {d d' : Disk} {p : Path} {bytes : List UInt8} :
    Made d → d.write p bytes = .ok d' → Made d'
  | rename {d d' : Disk} {source target : Path} :
    Made d → d.isFile source → d.rename source target = .ok d' → Made d'
  | makeFolders {d : Disk} (p : Path) : Made d → Made (d.makeFolders p).2
  | enter {d : Disk} {p : Path} {place : Place} :
    Made d → d.resolve p = .ok (place, .folder) → Made { d with current := place }

theorem Made.sound (made : d.Made) : d.Sound := by
  induction made with
  | empty => exact sound_empty
  | write _ written ih => exact ih.write written
  | rename _ _ moved ih => exact ih.rename moved
  | makeFolders p _ ih => exact ih.makeFolders p
  | enter _ resolved ih => exact ⟨ih.locate (resolve_eq_ok resolved).1, ih.once, ih.names⟩

theorem Made.rooted (made : d.Made) : d.Rooted := by
  induction made with
  | empty => exact rooted_empty
  | write _ written ih => exact ih.write written
  | rename _ file moved ih => exact ih.rename file moved
  | makeFolders p _ ih => exact ih.makeFolders p
  | enter _ resolved ih => exact ⟨(resolve_eq_ok resolved).2, ih.parent⟩

end Glance.Disk
