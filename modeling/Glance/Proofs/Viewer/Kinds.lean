import Glance.Proofs.Disk.Listing
import Glance.Proofs.Neighbor.Cycle
import Glance.Proofs.Viewer.Folder

/-!
# Texts stay among texts, and images among images

Listing a folder and opening a file each ask by themselves what kind of file a path is. They agree:
what is listed as a kind opens as that kind or not at all, whatever reader tells the sizes of images
(`siblings_open_alike`). So steps from file to file never lead from a text to an image or back,
whatever the folders hold from step to step.
-/

namespace Glance

variable {d : Disk} {limits : FileLimits} {reader : ImageReader} {p : Path} {kind : FileKind}

namespace Disk

/-- A file of a known kind is opened as that kind, if it is opened. -/
theorem resolveFile_of_kind (limits : FileLimits) (d : Disk) (reader : ImageReader)
    (known : FileKind.ofPath? p = some kind) :
    (∃ content, (d.resolveFile limits p reader).content? = some content ∧ content.kind = kind ∧
      content.path = p.text) ∨
    ∃ cause, d.resolveFile limits p reader = .failed p.text (OpenError.message cause) := by
  refine (resolveFile_cases limits d p reader).imp_left fun opens => ?_
  unfold FileKind.ofPath? at known
  generalize d.resolveFile limits p reader = file at opens
  cases opens with
  | text read small noImage =>
    refine ⟨_, rfl, ?_, rfl⟩
    rw [noImage, if_neg (by simp)] at known
    split at known
    · split_ifs at known
      exact Option.some.inj known
    · cases known
  | image read small isImage told fits =>
    refine ⟨_, rfl, ?_, rfl⟩
    rw [isImage, if_pos (by simp)] at known
    exact Option.some.inj known

end Disk

namespace Viewer

variable {σ : Type} {v : Viewer σ}

theorem kind_openNeighbor [Store σ] (v : Viewer σ) (limits : FileLimits) (reader : ImageReader)
    (d : Disk) (dir : Direction) :
    (v.openNeighbor (d.resolver limits reader) dir).2.content.map Content.kind =
      v.content.map Content.kind := by
  unfold openNeighbor
  cases shown : v.content with
  | none => simp [shown]
  | some content =>
    dsimp only
    cases found : neighbor ((d.resolver limits reader).siblings ⟨content.path⟩ content.kind)
      ⟨content.path⟩ dir with
    | none => simp [shown]
    | some next =>
      have known := Disk.kind_of_mem_siblings (Neighbor.mem_of_neighbor found)
      show (v.showFile (d.resolveFile limits next reader)).2.content.map Content.kind = _
      rcases Disk.resolveFile_of_kind limits d reader known with
        ⟨opened, gives, kinds, -⟩ | ⟨cause, fails⟩
      · rw [(showFile_of_content? v gives).2, Option.map_some, Option.map_some, kinds]
      · rw [fails, ← shown]
        rfl

theorem kind_walk [Store σ] (v : Viewer σ) (limits : FileLimits) (reader : ImageReader)
    (steps : List (Disk × Direction)) :
    (v.walk (steps.map fun (d, dir) => (d.resolver limits reader, dir))).content.map Content.kind =
      v.content.map Content.kind := by
  induction steps generalizing v with
  | nil => rfl
  | cons step steps ih =>
    obtain ⟨d, dir⟩ := step
    exact (ih (v.openNeighbor (d.resolver limits reader) dir).2).trans
      (kind_openNeighbor v limits reader d dir)

/-- The files of a kind that are listed beside a path are the files of that kind that lie in its
folder, each one once and in the order of their names' bytes; there are none if the folder cannot be
read, and a path without separators lies in the current folder. Every one of them opens as a file of
the kind, under its own path, or fails, whatever sizes or errors the reader of images tells. So a
walk from file to file keeps to the kind of file that is open, whatever the disks hold at each step.
-/
theorem siblings_open_alike [Store σ] (sound : d.Sound) (limits : FileLimits)
    (reader : ImageReader) (path : Path) (kind : FileKind) :
    (∀ p, p ∈ d.siblings path kind ↔
      ∃ place name bytes, d.resolve path.folder = .ok (place, .folder) ∧
        p = path.folder.child name ∧ d.resolve p = .ok (place.push name, .file bytes) ∧
        FileKind.ofPath? p = some kind) ∧
    (d.siblings path kind).Nodup ∧ (d.siblings path kind).Pairwise Neighbor.ByteBefore ∧
    (∀ cause, d.list path.folder = .error cause → d.siblings path kind = []) ∧
    ('/' ∉ path.text.toList → ∀ place node, d.resolve path.folder = .ok (place, node) →
      place = d.current) ∧
    (∀ p ∈ d.siblings path kind,
      (∃ content, (d.resolveFile limits p reader).content? = some content ∧ content.kind = kind ∧
        content.path = p.text) ∨
      ∃ cause, d.resolveFile limits p reader = .failed p.text (OpenError.message cause)) ∧
    ∀ (v : Viewer σ) (steps : List (Disk × Direction)),
      (v.walk (steps.map fun (d, dir) => (d.resolver limits reader, dir))).content.map
        Content.kind = v.content.map Content.kind := by
  have ascending := Disk.pairwise_siblings sound path kind
  refine ⟨fun p => Disk.mem_siblings_iff sound, ?_, ascending, fun cause unread => ?_,
    fun separate place node => Disk.place_of_bare separate, fun p mem => ?_,
    fun v steps => kind_walk v limits reader steps⟩
  · refine ascending.imp fun {p q} before same => ?_
    obtain ⟨a, b, eq, eq', lt⟩ := before
    rw [same, eq'] at eq
    obtain rfl := Option.some.inj eq
    exact List.lt_irrefl _ lt
  · refine Disk.siblings_eq_nil fun place resolved => ?_
    rw [Disk.list_of_resolve resolved] at unread
    cases unread
  · exact Disk.resolveFile_of_kind limits d reader (Disk.kind_of_mem_siblings mem)

/-- An image in capitals beside a text and a folder with the name of an image: from the image that
is listed and open, no step leads to the text. -/
theorem siblings_open_alike_capitals :
    let d : Disk := ⟨#[], [(#["A.GIF"], .file ImageFormat.pixel), (#["b.txt"], .file [98]),
      (#["c.gif"], .folder), (#["D.Gif"], .file ImageFormat.pixel)]⟩
    let r := d.resolver Config.initial.files
    let v := (start MemoryStore.empty .initial).run [.openPath r ⟨"A.GIF"⟩]
    d.Sound ∧ ⟨"./D.Gif"⟩ ∈ d.siblings ⟨"A.GIF"⟩ .image ∧
      ∀ dir, (v.walk [(r, dir)]).content.map Content.kind = some .image := by
  intro d r v
  have sound : d.Sound := ⟨by decide, by decide, by decide⟩
  have agree :=
    siblings_open_alike (σ := MemoryStore) sound Config.initial.files .headers ⟨"A.GIF"⟩ .image
  refine ⟨sound, (agree.1 _).mpr ⟨#[], "D.Gif", ImageFormat.pixel, ?_, ?_, ?_, ?_⟩, fun dir => ?_⟩
  · decide +kernel
  · decide +kernel
  · decide +kernel
  · decide +kernel
  · have image : v.content.map Content.kind = some .image := by decide +kernel
    exact (agree.2.2.2.2.2.2 v [(d, dir)]).trans image

end Viewer

end Glance
