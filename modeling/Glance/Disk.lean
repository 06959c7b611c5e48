import Glance.Path
import Glance.Text.Utf8

/-!
# Disks

The files and folders that a program can see, as a value: what each place holds, and the current
folder. A place is the list of names that lead to it from the root. Reading never changes a disk,
and an operation that fails says why.

A path is followed segment by segment: every segment but the last must lead through a folder, and so
must the last one when a separator or a dot comes behind it.
-/

namespace Glance

/-- The names that lead to a place from the root. -/
abbrev Place := Array String

/-- What a place holds. -/
inductive Node where
  | file (bytes : List UInt8)
  | folder
  deriving DecidableEq, Repr

/-- Why an operation on a disk failed. -/
inductive DiskError where
  | notFound
  | notFolder
  | isFolder
  | exists
  | nameTooLong
  | nulInPath
  deriving DecidableEq, Repr

def DiskError.message : DiskError → String
  | .notFound => "No such file or directory (os error 2)"
  | .notFolder => "Not a directory (os error 20)"
  | .isFolder => "Is a directory (os error 21)"
  | .exists => "File exists (os error 17)"
  | .nameTooLong => "File name too long (os error 36)"
  | .nulInPath => "file name contained an unexpected NUL byte"

structure Disk where
  current : Place
  nodes : List (Place × Node)
  deriving Repr

namespace Disk

/-- A disk with nothing but its root. -/
def empty : Disk := ⟨#[], []⟩

/-! ## Places -/

/-- What a place holds. The root is always a folder. -/
def node? (d : Disk) (place : Place) : Option Node :=
  if place.isEmpty then some .folder else (d.nodes.find? (·.1 = place)).map (·.2)

/-- The disk with other contents at a place. -/
def put (d : Disk) (place : Place) (node : Node) : Disk :=
  { d with nodes := (place, node) :: d.nodes.filter (·.1 ≠ place) }

/-- The disk without a place. -/
def remove (d : Disk) (place : Place) : Disk :=
  { d with nodes := d.nodes.filter (·.1 ≠ place) }

/-! ## Following a path -/

/-- The longest name a folder can hold, in bytes. -/
def nameLimit : Nat := 255

/-- The longest path, in bytes. -/
def pathLimit : Nat := 4095

/-- Leaves a place, which must be a folder, through one segment. The new place need not hold
anything. -/
def enter (d : Disk) (place : Place) (segment : List Char) : Except DiskError Place :=
  match d.node? place with
  | none => .error .notFound
  | some (.file _) => .error .notFolder
  | some .folder =>
    if segment = [] ∨ segment = ['.'] then .ok place
    else if segment = ['.', '.'] then .ok place.pop
    else if nameLimit < (Text.utf8 segment).length then .error .nameTooLong
    else .ok (place.push (String.ofList segment))

/-- Where a path begins. -/
def origin (d : Disk) (p : Path) : Place :=
  if p.isAbsolute then #[] else d.current

/-- The place a path leads to. It need not hold anything. -/
def locate (d : Disk) (p : Path) : Except DiskError Place :=
  if p.text.toList.contains '\x00' then .error .nulInPath
  else if p.text.isEmpty then .error .notFound
  else if pathLimit < p.text.utf8ByteSize then .error .nameTooLong
  else p.segments.foldlM d.enter (d.origin p)

/-- The place a path leads to, which holds something. -/
def resolve (d : Disk) (p : Path) : Except DiskError (Place × Node) := do
  let place ← d.locate p
  match d.node? place with
  | some node => .ok (place, node)
  | none => .error .notFound

/-! ## Reading -/

/-- The length that a folder is said to have. -/
def folderLength : Nat := 4096

/-- The length of a file or folder. -/
def length (d : Disk) (p : Path) : Except DiskError Nat := do
  match ← d.resolve p with
  | (_, .file bytes) => .ok bytes.length
  | (_, .folder) => .ok folderLength

/-- The path leads to something. -/
def contains (d : Disk) (p : Path) : Bool :=
  (d.resolve p).isOk

def isFile (d : Disk) (p : Path) : Bool :=
  match d.resolve p with
  | .ok (_, .file _) => true
  | _ => false

/-- The bytes of a file. -/
def read (d : Disk) (p : Path) : Except DiskError (List UInt8) := do
  match ← d.resolve p with
  | (_, .file bytes) => .ok bytes
  | (_, .folder) => .error .isFolder

/-- The name of a place inside a folder, when it lies directly in it. -/
def nameIn (folder place : Place) : Option String :=
  match place.back? with
  | some name => if place.pop = folder then some name else none
  | none => none

/-- The names in a folder, in no particular order. -/
def list (d : Disk) (p : Path) : Except DiskError (List String) := do
  match ← d.resolve p with
  | (place, .folder) => .ok (d.nodes.filterMap fun (other, _) => nameIn place other)
  | (_, .file _) => .error .notFolder

/-- The path of a place from the root. -/
def absolute (place : Place) : String :=
  if place.isEmpty then "/" else String.join (place.toList.map ("/" ++ ·))

/-! ## Changing -/

/-- Writes a file, in place of the one that was there. Its folder must exist. -/
def write (d : Disk) (p : Path) (bytes : List UInt8) : Except DiskError Disk := do
  let place ← d.locate p
  match d.node? place, d.node? place.pop with
  | some .folder, _ => .error .isFolder
  | some (.file _), _ => .ok (d.put place (.file bytes))
  | none, some .folder => .ok (d.put place (.file bytes))
  | none, some (.file _) => .error .notFolder
  | none, none => .error .notFound

/-- Moves a file to another path, in place of the file that was there. -/
def rename (d : Disk) (source target : Path) : Except DiskError Disk := do
  let (place, node) ← d.resolve source
  let goal ← d.locate target
  match d.node? goal with
  | some .folder => .error .isFolder
  | _ => .ok ((d.remove place).put goal node)

/-- How far the making of folders has come: the disk, and the place reached or what stopped it. -/
structure Progress where
  disk : Disk
  place : Except DiskError Place

/-- One step of making folders: goes through a segment and makes the folder it leads to. -/
def Progress.through (p : Progress) (segment : List Char) : Progress :=
  match p.place with
  | .error _ => p
  | .ok place =>
    match p.disk.enter place segment with
    | .error e => ⟨p.disk, .error e⟩
    | .ok next =>
      match p.disk.node? next with
      | some .folder => ⟨p.disk, .ok next⟩
      | some (.file _) => ⟨p.disk, .error .exists⟩
      | none => ⟨p.disk.put next .folder, .ok next⟩

/-- Makes a folder and all the folders on the way to it. What was made before a failure stays. When
the path cannot be followed for another reason than a missing folder, nothing is made. -/
def makeFolders (d : Disk) (p : Path) : Except DiskError Unit × Disk :=
  if p.text.isEmpty then (.ok (), d)
  else
    match d.locate p with
    | .ok _ | .error .notFound =>
      let made := p.segments.foldl Progress.through ⟨d, .ok (d.origin p)⟩
      (made.place.map fun _ => (), made.disk)
    | .error cause => (.error cause, d)

end Disk

end Glance
