import Glance.Proofs.Config
import Glance.Proofs.Disk.Beside

/-!
# Saving limits

Limits that a settings file can hold are loaded from it as they were saved, and limits that it
cannot hold are refused before a file is touched (`Config.save_or_refuse`). Only the folder for the
file is made in any case, so a path that goes up again from that folder can come to lead somewhere
(`Config.save_beyond`).
-/

namespace Glance

namespace Config

variable {c : Config} {d : Disk} {p folder : Path}

/-- The limits are in the file, and every limit whose line is taken out of it is the usual one. -/
structure IsSaved (c : Config) (d : Disk) (p : Path) : Prop where
  done : (c.save d p).1 = .ok ()
  loaded : load (c.save d p).2 p = .ok c
  edited : ∀ kept : Field → Bool, ∃ edited,
    (c.save d p).2.write p (Text.utf8 (c.writeOnly kept)) = .ok edited ∧
      load edited p = .ok (c.keeping kept)

/-- The limits were refused, and all files are as they were. -/
structure IsRefused (c : Config) (d : Disk) (p : Path) : Prop where
  failed : (c.save d p).1 = .error .tooLarge
  files : ∀ place bytes, (c.save d p).2.node? place = some (.file bytes) ↔
    d.node? place = some (.file bytes)
  unchanged : d.Grounded p → d.Unchanged (c.save d p).2 p

theorem save_of_made (parent : p.parent = some folder) (made : (d.makeFolders folder).1 = .ok ()) :
    c.save d p = c.store (d.makeFolders folder).2 p := by
  unfold save
  rw [parent]
  dsimp only
  generalize d.makeFolders folder = result at made
  obtain ⟨_, d'⟩ := result
  cases made
  rfl

theorem load_of_read {bytes : List UInt8} (read : d.read p = .ok bytes) :
    load d p = ofBytes bytes := by
  unfold load
  rw [read]

theorem isSaved (storable : c.isStorable) (rooted : d.Rooted) (file : Disk.IsFilePath p)
    (parent : p.parent = some folder) (made : (d.makeFolders folder).1 = .ok ())
    (free : ∀ place, (d.makeFolders folder).2.resolve p ≠ .ok (place, .folder)) :
    IsSaved c d p := by
  obtain ⟨place, name, located, isFolder⟩ := Disk.locate_makeFolders rooted file parent made
  have free' : (d.makeFolders folder).2.node? (Array.push place name) ≠ some .folder :=
    fun holds => free _ (Disk.resolve_of_locate located holds)
  have writes := Disk.write_eq_ok located free' (fun _ => by rwa [Array.pop_push])
  have saved : c.save d p = (.ok (), (d.makeFolders folder).2.put (Array.push place name)
      (.file (Text.utf8 c.write))) := by
    rw [save_of_made parent made]
    unfold store
    rw [if_pos storable, writes]
  have holds := @Disk.node?_put_self (d.makeFolders folder).2 _ (Disk.filled_of_free free')
    (.file (Text.utf8 c.write))
  have located' := (Disk.keepsFolders_put free' (.file (Text.utf8 c.write))).locate located
  refine ⟨by rw [saved], ?_, fun kept => ?_⟩
  · have whole := ofBytes_writeOnly storable fun _ => true
    rw [writeOnly_all] at whole
    rw [saved, load_of_read (Disk.read_of_write (writes _)), whole]
    rfl
  · have rewrites := Disk.write_eq_ok located' (by rw [holds]; nofun) (by rw [holds]; nofun)
      (Text.utf8 (c.writeOnly kept))
    rw [saved]
    refine ⟨_, rewrites, ?_⟩
    rw [load_of_read (Disk.read_of_write rewrites), ofBytes_writeOnly storable kept]

theorem isRefused (large : ¬ c.isStorable) (rooted : d.Rooted) (named : p.fileName ≠ none)
    (parent : p.parent = some folder) (made : (d.makeFolders folder).1 = .ok ()) :
    IsRefused c d p := by
  obtain ⟨front, text, after, ends⟩ := Path.endsIn_of_fileName named
  obtain ⟨way, between, -, -, isParent⟩ := Disk.isParent_of_parent ends parent
  have refused : c.save d p = (.error .tooLarge, (d.makeFolders folder).2) := by
    rw [save_of_made parent made]
    unfold store
    rw [if_neg large]
  refine ⟨by rw [refused], ?_, ?_⟩
  · rw [refused]
    exact Disk.file_makeFolders_iff isParent
  · rw [refused]
    exact fun grounded => Disk.unchanged_makeFolders rooted grounded ends parent

/-- Limits that a file can hold are saved, and others are refused before the file is touched. -/
theorem save_or_refuse (rooted : d.Rooted) (parent : p.parent = some folder)
    (made : (d.makeFolders folder).1 = .ok ()) :
    ((∀ f : Field, f.of c ≤ 2 ^ 63 - 1) → Disk.IsFilePath p →
      (∀ place, (d.makeFolders folder).2.resolve p ≠ .ok (place, .folder)) → IsSaved c d p) ∧
    ((∃ f : Field, 2 ^ 63 - 1 < f.of c) → p.fileName ≠ none → IsRefused c d p) := by
  constructor
  · exact fun small file free => isSaved (isStorable_iff.mpr small) rooted file parent made free
  · rintro ⟨f, large⟩ named
    refine isRefused (fun storable => ?_) rooted named parent made
    exact absurd (isStorable_iff.mp storable f) (by omega)

/-- Limits that all differ from the usual ones are saved over an old settings file, where one line
is then taken out; and a limit that is too large leaves the old file. -/
theorem save_or_refuse_over_old :
    let c : Config := { files := ⟨1, 2⟩, text := ⟨3, 4, 5⟩ }
    let large : Config := { c with text := ⟨3, 4, 2 ^ 63⟩ }
    let old : List UInt8 := Text.utf8 "[highlight]\nlarge_text_lines = 7\n".toList
    let d : Disk := Disk.empty.put #["config.toml"] (.file old)
    let p : Path := ⟨"config.toml"⟩
    let shorter : List Char := ("[files]\nmax_image_texture_bytes = 2\n\n[highlight]\n" ++
      "max_highlight_chars = 3\nlarge_text_bytes = 4\nlarge_text_lines = 5\n").toList
    (d.Rooted ∧ p.parent = some ⟨""⟩ ∧ (d.makeFolders ⟨""⟩).1 = .ok () ∧ Disk.IsFilePath p) ∧
    (load d p = .ok { initial with text := ⟨200000, 500000, 7⟩ } ∧
      (∀ f : Field, f.of c ≠ f.of initial) ∧ (∀ f : Field, f.of c ≤ 2 ^ 63 - 1)) ∧
    (IsSaved c d p ∧ ∃ edited, (c.save d p).2.write p (Text.utf8 shorter) = .ok edited ∧
      load edited p = .ok { files := ⟨10000000, 2⟩, text := ⟨3, 4, 5⟩ }) ∧
    (IsRefused large d p ∧ (large.save d p).2.read p = .ok old) := by
  intro c large old d p shorter
  have rooted : d.Rooted :=
    @Disk.Rooted.put _ #[] "config.toml" Disk.rooted_empty rfl (by decide) (.file old)
  have parent : p.parent = some ⟨""⟩ := by decide
  have made : (d.makeFolders ⟨""⟩).1 = .ok () := rfl
  have small : ∀ f : Field, f.of c ≤ 2 ^ 63 - 1 := by decide
  have file : Disk.IsFilePath p :=
    ⟨⟨by decide, by decide, by decide +kernel⟩, [], "config.toml".toList, by decide,
      ⟨by decide, by decide, by decide⟩, by decide⟩
  have isFile : (d.makeFolders ⟨""⟩).2.resolve p = .ok (#["config.toml"], .file old) := by
    decide +kernel
  have saved := (save_or_refuse rooted parent made).1 small file fun place leads => by
    rw [isFile] at leads
    cases leads
  refine ⟨⟨rooted, parent, made, file⟩, ⟨by decide +kernel, by decide, small⟩, ⟨saved, ?_⟩, ?_,
    by decide +kernel⟩
  · have written : c.writeOnly (· ≠ .fileBytes) = shorter := by decide +kernel
    have edited := saved.edited (· ≠ .fileBytes)
    rwa [written] at edited
  · exact (save_or_refuse rooted parent made).2 ⟨.largeLines, by decide⟩ (by decide)

/-- Nothing is saved under a lone name that is too long. -/
theorem save_long (storable : c.isStorable) (rooted : d.Rooted) (clean : '\x00' ∉ p.text.toList)
    (separate : '/' ∉ p.text.toList) (isName : Path.IsName p.text.toList)
    (long : Disk.nameLimit < (Text.utf8 p.text.toList).length) :
    d.contains p = false ∧ (c.save d p).1 = .error (.disk .nameTooLong) := by
  have nowhere := Disk.locate_long rooted clean separate isName long
  constructor
  · unfold Disk.contains Disk.resolve
    rw [nowhere]
    rfl
  · rw [save_of_made (Path.parent_bare separate isName) rfl]
    show (c.store d p).1 = _
    unfold store
    rw [if_pos storable, Disk.write_of_nowhere nowhere]

/-- Limits that a file can hold are not saved under a name that is too long, nor where a path leads
to a folder once its parent is there; and limits that no file can hold can make a path lead
somewhere. -/
theorem save_beyond :
    let long : Path := ⟨String.ofList (List.replicate 256 'a')⟩
    let d : Disk := (Disk.empty.put #["config.toml"] (.file [])).put #["sub"] .folder
    let large : Config := { initial with files := ⟨2 ^ 63, 0⟩ }
    (initial.isStorable ∧ long.parent = some ⟨""⟩ ∧ (d.makeFolders ⟨""⟩).1 = .ok () ∧
      d.contains long = false ∧ (initial.save d long).1 = .error (.disk .nameTooLong)) ∧
    ((Path.mk "a/../sub").parent = some ⟨"a/.."⟩ ∧ (d.makeFolders ⟨"a/.."⟩).1 = .ok () ∧
      d.contains ⟨"a/../sub"⟩ = false ∧
      (initial.save d ⟨"a/../sub"⟩).1 = .error (.disk .isFolder)) ∧
    (large.isStorable = false ∧ d.contains ⟨"a/../config.toml"⟩ = false ∧
      (large.save d ⟨"a/../config.toml"⟩).1 = .error .tooLarge ∧
      (large.save d ⟨"a/../config.toml"⟩).2.contains ⟨"a/../config.toml"⟩ = true) := by
  intro long d large
  have text : long.text.toList = List.replicate 256 'a' := String.toList_ofList
  have first := @Disk.Rooted.put _ #[] "config.toml" Disk.rooted_empty rfl (by decide) (.file [])
  have rooted : d.Rooted := @Disk.Rooted.put _ #[] "sub" first rfl (by decide) _
  have others (c : Char) (ne : c ≠ 'a') : c ∉ long.text.toList := by
    rw [text]
    exact fun mem => ne (List.eq_of_mem_replicate mem)
  have isName : Path.IsName long.text.toList := by
    rw [text]
    exact ⟨nofun, nofun, nofun⟩
  have storable : initial.isStorable := by decide
  have separate := others '/' (by decide)
  obtain ⟨absent, failed⟩ := save_long storable rooted (others '\x00' (by decide)) separate isName
    (by rw [text]; decide +kernel)
  refine ⟨⟨storable, Path.parent_bare separate isName, rfl, absent, failed⟩, ?_, ?_⟩ <;>
    decide +kernel

end Config

end Glance
