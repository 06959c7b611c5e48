import Glance.Disk
import Glance.Json.Parser
import Glance.Json.Printer

/-!
# Stores

A store keeps values by key. Both of its operations may fail, and the caller decides what a failure
means. One store lives in memory; another is a file that holds one object.

A store in a file reads the file anew at every access, so any number of programs can share it: a
value that one of them puts is seen by all, and the keys of the others stay. A file that cannot be
read as an object is replaced at the first put.
-/

namespace Glance

/-- Why a store failed. -/
inductive StoreError where
  /-- No folder for settings is known. -/
  | noConfigFolder
  | disk (cause : DiskError)
  | notJson
  /-- The file holds a value, but no object. -/
  | notAnObject (path : Path)
  deriving DecidableEq, Repr

def StoreError.message : StoreError → String
  | .noConfigFolder => "Config directory not found"
  | .disk cause => "IO error: " ++ cause.message
  | .notJson => "JSON error"
  | .notAnObject path => "State file is not a JSON object: " ++ path.text

/-- Values kept by key. -/
class Store (σ : Type) where
  get : σ → String → Except StoreError (Option Json)
  /-- A failed put leaves a store too, which need not be the one before. -/
  put : σ → String → Json → Except StoreError Unit × σ

/-! ## In memory -/

/-- A store that lasts as long as the program. -/
structure MemoryStore where
  members : Json.Members
  deriving Inhabited, Repr

namespace MemoryStore

def empty : MemoryStore := ⟨[]⟩

instance : Store MemoryStore where
  get s key := .ok (s.members.get? key)
  put s key value := (.ok (), ⟨s.members.insert key value⟩)

end MemoryStore

/-! ## In a file -/

/-- A store in a file of a disk. The file need not exist. -/
structure FileStore where
  disk : Disk
  path : Path
  deriving Repr

namespace FileStore

/-- What the file holds; no file holds the empty object. -/
def load (s : FileStore) : Except StoreError Json.Members :=
  if s.disk.contains s.path then
    match s.disk.read s.path with
    | .error cause => .error (.disk cause)
    | .ok bytes =>
      match Json.ofBytes? bytes with
      | none => .error .notJson
      | some (.obj members) => .ok members
      | some _ => .error (.notAnObject s.path)
  else .ok []

/-- Where the new contents are written before they take the place of the file. -/
def temporary (path : Path) : Path :=
  path.withExtension "tmp"

/-- The bytes of an object in a file. -/
def encode (members : Json.Members) : List UInt8 :=
  Text.utf8 (Json.pretty (.obj members))

/-- Writes the file by way of the temporary one, in an existing folder. -/
def replace (d : Disk) (path : Path) (bytes : List UInt8) : Except DiskError Unit × Disk :=
  match d.write (temporary path) bytes with
  | .error cause => (.error cause, d)
  | .ok written =>
    match written.rename (temporary path) path with
    | .error cause => (.error cause, written)
    | .ok moved => (.ok (), moved)

/-- Makes the folder of the file and writes the file. -/
def save (s : FileStore) (members : Json.Members) : Except StoreError Unit × FileStore :=
  let (made, d) :=
    match s.path.parent with
    | some folder => s.disk.makeFolders folder
    | none => (.ok (), s.disk)
  let (result, d) :=
    match made with
    | .ok () => replace d s.path (encode members)
    | .error cause => (.error cause, d)
  (result.mapError .disk, { s with disk := d })

instance : Store FileStore where
  get s key := s.load.map (Json.Members.get? key)
  put s key value := s.save ((s.load.toOption.getD []).insert key value)

end FileStore

end Glance
