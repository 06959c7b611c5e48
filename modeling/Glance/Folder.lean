import Glance.Config
import Glance.File

/-!
# Opening files of a disk

A file is measured before it is read. An image is opened by the size that a reader of images tells,
and must not be too large in memory; any other file is text, and bytes that are no text are shown as
U+FFFD.

The reader is open: everything here is for any of them. Where none is given, it is
`ImageReader.headers`.
-/

namespace Glance.Disk

/-- Where an image is drawn from: its absolute path as an address. -/
def address (d : Disk) (p : Path) : String :=
  let path := match d.resolve p with
    | .ok (place, _) => absolute place
    | .error _ => p.text
  let path := String.ofList (path.toList.map fun c => if c = '\\' then '/' else c)
  if path.toList.head? = some '/' then "file://" ++ path else "file:///" ++ path

/-- The file is known to have more bytes than are allowed. -/
def exceeds (d : Disk) (p : Path) (limit : Nat) : Bool :=
  match d.length p with
  | .ok length => limit < length
  | .error _ => false

/-- The size of an image, or why it cannot be told. -/
def imageSize (d : Disk) (p : Path) (format : ImageFormat) (reader : ImageReader) :
    Except String PixelSize := do
  let bytes ← (d.read p).mapError DiskError.message
  reader.size format bytes

/-- Opens an image. -/
def openImage (limits : FileLimits) (d : Disk) (p : Path) (format : ImageFormat)
    (reader : ImageReader) : Except OpenError OpenedFile :=
  match d.imageSize p format reader with
  | .error cause => .error (@OpenError.badImage cause)
  | .ok size =>
    if size.fits limits.maxTextureBytes then .ok (.image p.text ⟨d.address p, size⟩ none)
    else .error (.imageTooLarge size limits.maxTextureBytes)

/-- Opens a text. -/
def openText (d : Disk) (p : Path) : Except OpenError OpenedFile :=
  match d.read p with
  | .error cause => .error (.unreadable cause)
  | .ok bytes => .ok (.text p.text (Text.decodeLossy bytes) none)

/-- Opens a file within the limits. -/
def openFile (limits : FileLimits) (d : Disk) (p : Path)
    (reader : ImageReader := ImageReader.headers) : Except OpenError OpenedFile :=
  if d.exceeds p limits.maxFileBytes then .error (.fileTooLarge limits.maxFileBytes)
  else
    match ImageFormat.ofPath? p with
    | some format => openImage limits d p format reader
    | none => openText d p

/-- Opens a file, or tells why not. -/
def resolveFile (limits : FileLimits) (d : Disk) (p : Path)
    (reader : ImageReader := ImageReader.headers) : OpenedFile :=
  match d.openFile limits p reader with
  | .ok file => file
  | .error e => .failed p.text e.message

/-- The order of names by their bytes. -/
def nameLe (a b : String) : Bool :=
  decide (a ≤ b)

/-- The files of a kind in the folder of a path, sorted by name. A folder that cannot be read has
none. -/
def siblings (d : Disk) (p : Path) (kind : FileKind) : List Path :=
  let names := ((d.list p.folder).toOption.getD []).mergeSort nameLe
  (names.map p.folder.child).filter fun other =>
    d.isFile other && FileKind.ofPath? other == some kind

/-- How a program finds the files of a disk when nobody is there to pick one. -/
def resolver (limits : FileLimits) (d : Disk) (reader : ImageReader := ImageReader.headers) :
    Resolver where
  pick := none
  resolve p := d.resolveFile limits p reader
  siblings := d.siblings

end Glance.Disk

namespace Glance

/-- The command that shows the folder of a file to the user, program first; a bare name has no
folder to show. -/
def revealCommand (p : Path) : Option (List String) :=
  match p.parent with
  | some folder => if folder.text.isEmpty then none else some ["xdg-open", folder.text]
  | none => none

end Glance
