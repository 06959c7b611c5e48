import Glance.Folder
import Mathlib.Tactic

/-!
# What opening a file of a disk gives

The length that is measured is the number of bytes that are read, so a file that is opened is never
larger than allowed (`openFile_eq_ok_iff`), whatever reader tells the sizes of images. The bytes of
an image are counted without overflow as long as the limit is one that can be exceeded at all.
-/

namespace Glance

/-! ## Sizes of images -/

/-- Counting only as far as bytes can be told makes no image fit that does not. -/
theorem PixelSize.fits_iff {size : PixelSize} {limit : ℕ} (tells : limit < maxBytes) :
    size.fits limit ↔ 4 * size.width.toNat * size.height.toNat ≤ limit := by
  have product : size.width.toNat * size.height.toNat * 4 =
      4 * size.width.toNat * size.height.toNat := by ring
  unfold fits textureBytes
  rw [decide_eq_true_iff, product]
  omega

namespace Disk

variable {limits : FileLimits} {d : Disk} {p : Path} {bytes : List UInt8} {file : OpenedFile}
  {format : ImageFormat} {reader : ImageReader} {size : PixelSize}

/-! ## Measuring and reading -/

theorem read_eq_ok_iff :
    d.read p = .ok bytes ↔ ∃ place, d.resolve p = .ok (place, .file bytes) := by
  unfold read
  constructor
  · intro read
    cases found : d.resolve p with
    | error cause =>
      rw [found] at read
      cases read
    | ok found' =>
      rw [found] at read
      obtain ⟨place, _ | _⟩ := found'
      · cases read
        exact ⟨place, rfl⟩
      · cases read
  · rintro ⟨place, found⟩
    rw [found]
    rfl

theorem length_of_read (read : d.read p = .ok bytes) : d.length p = .ok bytes.length := by
  obtain ⟨place, found⟩ := read_eq_ok_iff.mp read
  unfold length
  rw [found]
  rfl

theorem exceeds_of_read (read : d.read p = .ok bytes) (limit : ℕ) :
    d.exceeds p limit = decide (limit < bytes.length) := by
  unfold exceeds
  rw [length_of_read read]

/-! ## Opening -/

/-- The file that is at a path can be shown within the limits, in this form. -/
inductive Opens (limits : FileLimits) (d : Disk) (p : Path) (reader : ImageReader) :
    OpenedFile → Prop
  | text {bytes : List UInt8} (read : d.read p = .ok bytes)
      (small : bytes.length ≤ limits.maxFileBytes) (noImage : ImageFormat.ofPath? p = none) :
    Opens limits d p reader (.text p.text (Text.decodeLossy bytes) none)
  | image {bytes : List UInt8} {format : ImageFormat} {size : PixelSize}
      (read : d.read p = .ok bytes) (small : bytes.length ≤ limits.maxFileBytes)
      (isImage : ImageFormat.ofPath? p = some format) (told : reader.size format bytes = .ok size)
      (fits : size.fits limits.maxTextureBytes) :
    Opens limits d p reader (.image p.text ⟨d.address p, size⟩ none)

theorem openText_eq_ok_iff :
    openText d p = .ok file ↔
      ∃ bytes, d.read p = .ok bytes ∧ file = .text p.text (Text.decodeLossy bytes) none := by
  unfold openText
  cases read : d.read p with
  | error cause => simp
  | ok bytes =>
    constructor
    · intro opened
      cases opened
      exact ⟨bytes, rfl, rfl⟩
    · rintro ⟨other, same, rfl⟩
      cases same
      rfl

theorem imageSize_eq_ok_iff : d.imageSize p format reader = .ok size ↔
    ∃ bytes, d.read p = .ok bytes ∧ reader.size format bytes = .ok size := by
  unfold imageSize
  cases read : d.read p with
  | error cause => simp [Except.mapError, bind, Except.bind]
  | ok bytes => simp [Except.mapError, bind, Except.bind]

theorem openImage_eq_ok_iff : openImage limits d p format reader = .ok file ↔
    ∃ bytes size, d.read p = .ok bytes ∧ reader.size format bytes = .ok size ∧
      size.fits limits.maxTextureBytes ∧ file = .image p.text ⟨d.address p, size⟩ none := by
  unfold openImage
  constructor
  · intro opened
    split at opened
    · cases opened
    · next size told =>
      obtain ⟨bytes, read, told⟩ := imageSize_eq_ok_iff.mp told
      split_ifs at opened with fits
      cases opened
      exact ⟨bytes, size, read, told, fits, rfl⟩
  · rintro ⟨bytes, size, read, told, fits, rfl⟩
    rw [imageSize_eq_ok_iff.mpr ⟨bytes, read, told⟩]
    exact if_pos fits

/-- A file is opened if and only if it can be shown within the limits. -/
theorem openFile_eq_ok_iff :
    d.openFile limits p reader = .ok file ↔ Opens limits d p reader file := by
  unfold openFile
  constructor
  · intro opened
    split_ifs at opened with exceeds
    split at opened
    · next format isImage =>
      obtain ⟨bytes, size, read, told, fits, rfl⟩ := openImage_eq_ok_iff.mp opened
      rw [exceeds_of_read read, decide_eq_true_iff, not_lt] at exceeds
      exact .image read exceeds isImage told fits
    · next noImage =>
      obtain ⟨bytes, read, rfl⟩ := openText_eq_ok_iff.mp opened
      rw [exceeds_of_read read, decide_eq_true_iff, not_lt] at exceeds
      exact .text read exceeds noImage
  · intro opens
    cases opens with
    | text read small noImage =>
      rw [exceeds_of_read read, if_neg (by simpa using small), noImage]
      exact openText_eq_ok_iff.mpr ⟨_, read, rfl⟩
    | image read small isImage told fits =>
      rw [exceeds_of_read read, if_neg (by simpa using small), isImage]
      exact openImage_eq_ok_iff.mpr ⟨_, _, read, told, fits, rfl⟩

theorem resolveFile_eq_of_opens (opens : Opens limits d p reader file) :
    d.resolveFile limits p reader = file := by
  unfold resolveFile
  rw [openFile_eq_ok_iff.mpr opens]

/-- Either the file is opened, or there is a message that tells why not. -/
theorem resolveFile_cases (limits : FileLimits) (d : Disk) (p : Path) (reader : ImageReader) :
    Opens limits d p reader (d.resolveFile limits p reader) ∨
      ∃ cause, d.resolveFile limits p reader = .failed p.text (OpenError.message cause) := by
  unfold resolveFile
  cases opened : d.openFile limits p reader with
  | error cause => exact .inr ⟨cause, rfl⟩
  | ok file => exact .inl (openFile_eq_ok_iff.mp opened)

end Disk

/-- The bytes of a GIF of one pixel. -/
def ImageFormat.pixel : List UInt8 :=
  [0x47, 0x49, 0x46, 0x38, 0x39, 0x61, 1, 0, 1, 0, 0x80, 0, 0, 0xFF, 0xFF, 0xFF, 0, 0, 0, 0x21, 0xF9,
    4, 1, 0, 0, 0, 0, 0x2C, 0, 0, 0, 0, 1, 0, 1, 0, 0, 2, 2, 0x44, 1, 0, 0x3B]

end Glance
