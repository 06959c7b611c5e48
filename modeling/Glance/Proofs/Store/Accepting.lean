import Glance.Proofs.Disk.Beside
import Glance.Proofs.Disk.Made
import Glance.Proofs.Store.Kept

/-!
# Files that accept puts

A put fails when the folders on the way to the file cannot be made, or when one of the two places
that it is written to is a folder. What is put plays no part in that, and behind a put the folders
on the way are there, while no other place has become a folder or has ceased to be one. So a file
that accepts one put accepts any number of them (`FileStore.accepts_of_put`).
-/

namespace Glance

namespace Disk

variable {d d' d'' : Disk} {p source target : Path} {place : Place} {bytes : List UInt8}

/-! ## Disks with the same folders -/

/-- The same places are folders. -/
structure SameFolders (d d' : Disk) : Prop where
  keeps : KeepsFolders d d'
  back : KeepsFolders d' d

theorem SameFolders.refl (d : Disk) : SameFolders d d :=
  ⟨.refl d, .refl d⟩

theorem SameFolders.symm (same : SameFolders d d') : SameFolders d' d :=
  ⟨same.back, same.keeps⟩

theorem SameFolders.trans (same : SameFolders d d') (same' : SameFolders d' d'') :
    SameFolders d d'' :=
  ⟨same.keeps.trans same'.keeps, same'.back.trans same.back⟩

theorem SameFolders.free (same : SameFolders d d') (free : d.node? place ≠ some .folder) :
    d'.node? place ≠ some .folder :=
  fun isFolder => free (same.back.folder place isFolder)

theorem sameFolders_put_file (free : d.node? place ≠ some .folder) (bytes : List UInt8) :
    SameFolders d (d.put place (.file bytes)) :=
  ⟨keepsFolders_put free _, keepsFolders_of_put_file free bytes⟩

theorem sameFolders_remove (free : d.node? place ≠ some .folder) :
    SameFolders d (d.remove place) := by
  refine ⟨keepsFolders_remove free, rfl, fun other isFolder => ?_⟩
  by_cases same : other = place
  · rw [same, node?_remove_self (filled_of_free free)] at isFolder
    cases isFolder
  · rwa [node?_remove_of_ne same] at isFolder

/-! ## What can be done again -/

/-- Folders that were made need not be made again. -/
theorem makeFolders_again (rooted : d.Rooted) (made : (d.makeFolders p).1 = .ok ())
    (same : SameFolders (d.makeFolders p).2 d') : d'.makeFolders p = (.ok (), d') := by
  by_cases filled : p.text = ""
  · unfold makeFolders
    rw [if_pos (by simpa using filled)]
  obtain ⟨isPath, place, through⟩ := makeFolders_done filled made
  have keeps := keepsFolders_foldl d (d.origin p) p.segments
  obtain ⟨followed, isFolder⟩ := follow_foldl (rooted.origin p) (congrArg Progress.place through)
  rw [through] at keeps followed isFolder
  have origin := (keeps.trans same.keeps).origin p
  have followed' := same.keeps.follow followed
  have through' := foldl_through_folder followed' (same.keeps.folder place isFolder)
  unfold makeFolders
  rw [if_neg (by simpa using filled), locate_eq isPath, origin, followed', through']
  rfl

/-- What was written to one path and moved to another can be written and moved once more, with other
contents, and no folder comes or goes. -/
theorem write_rename_again (rooted : d.Rooted) {written moved : Disk}
    (write : d.write source bytes = .ok written) (rename : written.rename source target = .ok moved)
    (same : SameFolders d d') (other : List UInt8) :
    ∃ written' moved', d'.write source other = .ok written' ∧
      written'.rename source target = .ok moved' ∧ SameFolders d moved' := by
  obtain ⟨place, goal, located, free, rfl, located', free', -, -⟩ :=
    write_rename_cases write rename
  obtain ⟨front, name, rfl, isFolder⟩ := rooted.locate_free located free
  have here := same.keeps.locate located
  have free₁ := same.free free
  have writes := write_eq_ok here free₁
    (fun _ => by rw [Array.pop_push]; exact same.keeps.folder front isFolder) other
  -- Behind the new contents there are the same folders as behind the old ones.
  have put := sameFolders_put_file free₁ other
  have onward := (sameFolders_put_file free bytes).symm.trans (same.trans put)
  have free₂ := onward.free free'
  have holds := node?_put_self (d := d') (filled_of_free free₁) (.file other)
  have leads := resolve_of_locate (put.keeps.locate here) holds
  have renames := rename_eq_ok leads (onward.keeps.locate located') free₂
  have removed := sameFolders_remove (d := d'.put (front.push name) (.file other))
    (by rw [holds]; nofun)
  have move := removed.trans (sameFolders_put_file (removed.free free₂) other)
  exact ⟨_, _, writes, renames, (same.trans put).trans move⟩

end Disk

namespace FileStore

open Disk (SameFolders)
open Json (Members)

variable {d d' : Disk} {s : FileStore} {path : Path} {bytes : List UInt8} {key : String}
  {value : Json} {members : Members}

/-! ## Writing again -/

/-- Where a file could be written, any other contents can be, and no folder comes or goes. -/
theorem replace_again (rooted : d.Rooted) (done : (replace d path bytes).1 = .ok ())
    (same : SameFolders d d') (other : List UInt8) :
    ∃ moved, replace d' path other = (.ok (), moved) ∧ SameFolders d moved := by
  have ended := ended_replace d path bytes
  generalize replace d path bytes = result at ended done
  cases ended with
  | unwritten cause => cases done
  | aside cause write => cases done
  | done write rename =>
    obtain ⟨written, moved, write', rename', same'⟩ :=
      Disk.write_rename_again rooted write rename same other
    refine ⟨moved, ?_, same'⟩
    unfold replace
    rw [write']
    dsimp only
    rw [rename']

/-! ## Putting again -/

/-- The folder of the file can be made, and then the disk has the same folders as another one. -/
structure Prepares (s : FileStore) (d : Disk) : Prop where
  made : ∀ folder, s.path.parent = some folder → (s.disk.makeFolders folder).1 = .ok ()
  same : SameFolders d s.prepared

theorem Prepares.save_eq (prepares : s.Prepares d) (members : Members) :
    s.save members =
      ((replace s.prepared s.path (encode members)).1.mapError .disk,
        { s with disk := (replace s.prepared s.path (encode members)).2 }) := by
  have made := prepares.made
  unfold save prepared
  cases parent : s.path.parent with
  | none => rfl
  | some folder =>
    have done := made folder parent
    dsimp only
    generalize s.disk.makeFolders folder = result at done ⊢
    obtain ⟨_, d'⟩ := result
    cases done
    rfl

theorem Prepares.save (prepares : s.Prepares d) (rooted : d.Rooted)
    (done : (replace d s.path bytes).1 = .ok ()) (members : Members) :
    ∃ moved, s.save members = (.ok (), ⟨moved, s.path⟩) ∧ SameFolders d moved := by
  obtain ⟨moved, eq, same⟩ := replace_again rooted done prepares.same (encode members)
  refine ⟨moved, ?_, same⟩
  rw [prepares.save_eq, eq]
  rfl

/-- A save that was done has made the folder and has written the file. -/
theorem prepares_of_save (done : (s.save members).1 = .ok ()) :
    s.Prepares s.prepared ∧ (replace s.prepared s.path (encode members)).1 = .ok () := by
  have prepares : s.Prepares s.prepared := by
    refine ⟨fun folder parent => ?_, .refl _⟩
    unfold FileStore.save at done
    rw [parent] at done
    dsimp only at done
    generalize s.disk.makeFolders folder = result at done ⊢
    obtain ⟨made, d'⟩ := result
    cases made with
    | error cause => cases done
    | ok _ => rfl
  refine ⟨prepares, ?_⟩
  rw [prepares.save_eq] at done
  cases written : (replace s.prepared s.path (encode members)).1 with
  | error cause =>
    rw [written] at done
    cases done
  | ok _ => rfl

theorem rooted_prepared (rooted : s.disk.Rooted) : s.prepared.Rooted := by
  unfold prepared
  cases s.path.parent with
  | none => exact rooted
  | some folder => exact rooted.makeFolders folder

/-- A disk with the folders that were made is prepared. -/
theorem Prepares.again (prepares : s.Prepares d) (rooted : s.disk.Rooted)
    (same : SameFolders s.prepared d') : Prepares ⟨d', s.path⟩ s.prepared := by
  have made := prepares.made
  have again (folder : Path) (parent : s.path.parent = some folder) :
      d'.makeFolders folder = (.ok (), d') := by
    refine Disk.makeFolders_again rooted (made folder parent) ?_
    unfold prepared at same
    rwa [parent] at same
  refine ⟨fun folder parent => by rw [again folder parent], ?_⟩
  have prepared' : prepared ⟨d', s.path⟩ = d' := by
    unfold prepared
    dsimp only
    split
    · next folder parent => rw [again folder parent]
    · rfl
  rwa [prepared']

/-- Any puts, one after the other, are done. -/
def Accepts (s : FileStore) : Prop :=
  ∀ puts, ∃ s', s.putAll puts = .ok s'

theorem Accepts.done (accepts : s.Accepts) (key : String) (value : Json) :
    (Store.put s key value).1 = .ok () := by
  obtain ⟨s', done⟩ := accepts [(key, value)]
  unfold putAll at done
  split at done
  · next put => rw [put]
  · cases done

theorem Accepts.put (accepts : s.Accepts) (key : String) (value : Json) :
    (Store.put s key value).2.Accepts := by
  intro puts
  obtain ⟨s', done⟩ := accepts ((key, value) :: puts)
  unfold putAll at done
  split at done
  · next put =>
    rw [put]
    exact ⟨s', done⟩
  · cases done

/-- The store behind puts that are done. -/
theorem Accepts.putAll_eq (accepts : s.Accepts) (puts : List (String × Json)) :
    s.putAll puts = .ok (puts.foldl (fun s m => (Store.put s m.1 m.2).2) s) := by
  induction puts generalizing s with
  | nil => rfl
  | cons m puts ih =>
    have done := accepts.done m.1 m.2
    rw [List.foldl_cons, ← ih (accepts.put m.1 m.2)]
    conv_lhs => unfold putAll
    generalize Store.put s m.1 m.2 = result at done
    obtain ⟨_, s'⟩ := result
    cases done
    rfl

/-- A file that accepts one put accepts any, whatever is put under whatever keys. -/
theorem accepts_of_put (rooted : s.disk.Rooted) (done : (Store.put s key value).1 = .ok ()) :
    s.Accepts := by
  obtain ⟨prepares, written⟩ := prepares_of_save done
  have step {s' : FileStore} (path : s'.path = s.path) (prepares' : s'.Prepares s.prepared)
      (puts : List (String × Json)) : ∃ s'', s'.putAll puts = .ok s'' := by
    -- Behind each put, the disk has the folders that the first one made.
    induction puts generalizing s' with
    | nil => exact ⟨s', rfl⟩
    | cons m puts ih =>
      obtain ⟨moved, eq, same⟩ := prepares'.save (rooted_prepared rooted) (path ▸ written)
        (s'.readable.insert m.1 m.2)
      have put : Store.put s' m.1 m.2 = (.ok (), ⟨moved, s'.path⟩) := eq
      unfold putAll
      rw [put]
      rw [path]
      exact ih rfl (prepares.again rooted same)
  exact step rfl prepares

end FileStore

end Glance
