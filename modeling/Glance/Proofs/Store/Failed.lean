import Glance.Proofs.Disk.Beside
import Glance.Proofs.Store

/-!
# Puts that fail

A put into a file is done as a whole, or nothing that can be read has changed
(`FileStore.put_whole_or_nothing`). The new contents are written beside the file first, and take its
place in one step.

The folders that a put makes stay when it fails. A path that goes up again from one of them led
nowhere before and leads somewhere behind the put (`FileStore.failed_put_shows`); all other paths
lead where they led.
-/

namespace Glance

namespace FileStore

variable {s s' : FileStore} {d : Disk} {path folder : Path} {members : Json.Members}
  {front after : List (List Char)} {text : List Char}

/-! ## Loading -/

theorem contains_of_toOption {d' : Disk}
    (same : (d'.resolve path).toOption = (d.resolve path).toOption) :
    d'.contains path = d.contains path := by
  unfold Disk.contains
  cases before : d.resolve path <;> cases behind : d'.resolve path <;>
    simp_all [Except.toOption, Except.isOk, Except.toBool]

/-- What is read of a file depends on what its path leads to, and on nothing else. -/
theorem load_congr (path : s'.path = s.path)
    (same : (s'.disk.resolve s'.path).toOption = (s.disk.resolve s.path).toOption) :
    s'.load = s.load := by
  rw [path] at same
  unfold load
  rw [path, contains_of_toOption same]
  by_cases contains : s.disk.contains s.path
  · rw [if_pos contains, if_pos contains]
    obtain ⟨found, resolved⟩ : ∃ found, s.disk.resolve s.path = .ok found := by
      unfold Disk.contains at contains
      cases resolved : s.disk.resolve s.path with
      | error cause =>
        rw [resolved] at contains
        cases contains
      | ok found => exact ⟨found, rfl⟩
    have resolved' : s'.disk.resolve s.path = .ok found :=
      Disk.eq_ok_of_toOption (same.trans (by rw [resolved]; rfl))
    unfold Disk.read
    rw [resolved, resolved']
  · rw [if_neg contains, if_neg contains]

theorem load_of_unread {cause : DiskError} (contains : s.disk.contains s.path)
    (unread : s.disk.read s.path = .error cause) : s.load = .error (.disk cause) := by
  unfold load
  rw [if_pos contains, unread]

/-! ## Saving -/

/-- A path whose extension can be changed ends in a name. -/
theorem endsIn_of_apart (apart : temporary path ≠ path) :
    ∃ front text after, path.EndsIn front text after :=
  Path.endsIn_of_fileName fun nameless => apart (Path.withExtension_of_nameless nameless _)

/-- What was written beside the file is not there any more when it has taken the file's place. -/
theorem contains_temporary (rooted : d.Rooted) (ends : path.EndsIn front text after)
    (apart : temporary path ≠ path) {written moved : Disk} {bytes : List UInt8}
    (write : d.write (temporary path) bytes = .ok written)
    (rename : written.rename (temporary path) path = .ok moved) :
    moved.contains (temporary path) = false := by
  obtain ⟨place, goal, located, free, rfl, located', -, rfl, keeps⟩ :=
    Disk.write_rename_cases write rename
  have back := (Disk.keepsFolders_of_put_file free bytes).locate located'
  have ne := (Disk.beside_withExtension rooted ends (by decide) apart located free back).ne
  have nothing : (((d.put place (.file bytes)).remove place).put goal (.file bytes)).node? place =
      none := by
    rw [Disk.node?_put_of_ne ne.symm, Disk.node?_remove_self (Disk.filled_of_free free)]
  unfold Disk.contains Disk.resolve
  rw [((Disk.keepsFolders_put free _).trans keeps).locate located]
  dsimp only [bind, Except.bind]
  rw [nothing]
  rfl

/-- A put into a file is done whole, or nothing that can be read has changed. -/
theorem put_whole_or_nothing (rooted : s.disk.Rooted) (apart : temporary s.path ≠ s.path)
    (key : String) (value : Json) :
    (∀ cause, (Store.put s key value).1 = .error cause → s.disk.Grounded s.path →
      s.disk.Unchanged (Store.put s key value).2.disk s.path ∧
        ∀ other, Store.get (Store.put s key value).2 other = Store.get s other) ∧
    ((Store.put s key value).1 = .ok () →
      (Store.put s key value).2.disk.read s.path = .ok (encode (s.readable.insert key value)) ∧
        (Store.put s key value).2.disk.contains (temporary s.path) = false) := by
  obtain ⟨front, text, after, ends⟩ := endsIn_of_apart apart
  obtain ⟨-, -, folder, -, -, parent, -⟩ := Path.parent_way ends
  have made := rooted.makeFolders folder
  have prepared : s.prepared = (s.disk.makeFolders folder).2 := by
    unfold FileStore.prepared
    rw [parent]
  have reads {d' : Disk} (unchanged : s.disk.Unchanged d' s.path) (other : String) :
      Store.get (⟨d', s.path⟩ : FileStore) other = Store.get s other := by
    have load : load ⟨d', s.path⟩ = s.load := load_congr rfl unchanged.same
    rw [get_eq, get_eq, load]
  obtain ⟨result, ended, eq⟩ := save_ended s (s.readable.insert key value)
  have put : Store.put s key value = _ := eq
  rw [prepared] at ended
  rw [put]
  cases ended with
  | unwritten cause =>
    refine ⟨fun _ _ grounded => ?_, nofun⟩
    have unchanged := Disk.unchanged_makeFolders rooted grounded ends parent
    exact ⟨unchanged, reads unchanged⟩
  | aside cause write =>
    refine ⟨fun _ _ grounded => ?_, nofun⟩
    obtain ⟨place, located, free, rfl⟩ := Disk.write_cases write
    have beside := Disk.unchanged_put_file free (fun goal =>
      Disk.beside_withExtension made ends (by decide) apart located free)
      (encode (s.readable.insert key value))
    have unchanged := (Disk.unchanged_makeFolders rooted grounded ends parent).trans beside
    exact ⟨unchanged, reads unchanged⟩
  | done write rename =>
    refine ⟨nofun, fun _ => ⟨Disk.read_of_write_rename write rename, ?_⟩⟩
    exact contains_temporary made ends apart write rename

/-- A folder where the new contents would be written: the put fails, and the file is read as before.
-/
theorem put_whole_or_nothing_occupied :
    let s : FileStore := ⟨(Disk.empty.put #["state.json"] (.file (encode [("k", .int 1)]))).put
      #["state.tmp"] .folder, ⟨"state.json"⟩⟩
    s.disk.Rooted ∧ temporary s.path ≠ s.path ∧ s.disk.Grounded s.path ∧
      (Store.put s "k" .null).1 = .error (.disk .isFolder) ∧
      Store.get (Store.put s "k" .null).2 "k" = Store.get s "k" := by
  intro s
  have first := @Disk.Rooted.put _ #[] "state.json" Disk.rooted_empty rfl (by decide)
    (.file (encode [("k", .int 1)]))
  have rooted : s.disk.Rooted := @Disk.Rooted.put _ #[] "state.tmp" first rfl (by decide) _
  have apart : temporary s.path ≠ s.path := by decide
  have located : s.disk.locate s.path = .ok #["state.json"] := by decide +kernel
  have grounded := Disk.Grounded.of_locate located
  have failed : (Store.put s "k" .null).1 = .error (.disk .isFolder) := by decide +kernel
  exact ⟨rooted, apart, grounded, failed,
    ((put_whole_or_nothing rooted apart "k" .null).1 _ failed grounded).2 "k"⟩

/-- A failed put can make a path lead somewhere, when the path goes up again from a folder that the
put makes. -/
theorem failed_put_shows :
    let s : FileStore := ⟨Disk.empty.put #["state.json"] .folder, ⟨"a/../state.json"⟩⟩
    s.disk.Rooted ∧ temporary s.path ≠ s.path ∧
      (Store.put s "k" (.int 1)).1 = .error (.disk .isFolder) ∧
      Store.get s "k" = .ok none ∧
      Store.get (Store.put s "k" (.int 1)).2 "k" = .error (.disk .isFolder) := by
  intro s
  have rooted : s.disk.Rooted :=
    @Disk.Rooted.put _ #[] "state.json" Disk.rooted_empty rfl (by decide) _
  have apart : temporary s.path ≠ s.path := by decide
  have absent : s.disk.contains s.path = false := by decide +kernel
  have failed : (Store.put s "k" (.int 1)).1 = .error (.disk .isFolder) := by decide +kernel
  have there : (Store.put s "k" (.int 1)).2.disk.contains s.path := by decide +kernel
  have unread : (Store.put s "k" (.int 1)).2.disk.read s.path = .error .isFolder := by
    decide +kernel
  refine ⟨rooted, apart, failed, ?_, ?_⟩
  · rw [get_eq, load_of_absent absent]
    rfl
  · rw [get_eq, load_of_unread there unread]
    rfl

end FileStore

end Glance
