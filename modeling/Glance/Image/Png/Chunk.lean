import Glance.Image.Bytes

/-!
# PNG chunks

A file is a signature and a row of chunks: length, type, data and checksum. The case of the first
letter of a type says whether a reader may ignore the chunk. Many types fix how long the data may
be.
-/

namespace Glance.Image.Png

def signature : List UInt8 := [0x89, 0x50, 0x4E, 0x47, 0x0D, 0x0A, 0x1A, 0x0A]

/-- What a chunk behind the header is about. -/
inductive ChunkKind where
  | palette
  | transparency
  | background
  /-- The numbers of a colour space. -/
  | codePoints
  | text
  /-- Metadata of a camera. -/
  | exif
  /-- A colour profile. -/
  | profile
  /-- The place of a frame in an animation. -/
  | frame
  | pixels
  /-- A reader may ignore it. -/
  | ignorable
  /-- It is not allowed in front of the pixels, or a reader must understand it and does not. -/
  | refused
  deriving DecidableEq, Repr

/-- The bytes of a chunk type. -/
def typeBytes (name : String) : List UInt8 :=
  name.toList.map fun c => UInt8.ofNat c.toNat

/-- The types that a reader of sizes knows. Pixels of single frames follow those of the image. -/
def knownTypes : List (List UInt8 × ChunkKind) :=
  [("PLTE", .palette), ("tRNS", .transparency), ("bKGD", .background), ("cICP", .codePoints),
    ("tEXt", .text), ("zTXt", .text), ("iTXt", .text), ("eXIf", .exif), ("iCCP", .profile),
    ("fcTL", .frame), ("IDAT", .pixels), ("fdAT", .refused)].map
      fun (name, kind) => (typeBytes name, kind)

/-- A first letter in lower case marks a chunk that may be ignored. -/
def isAncillary (type : List UInt8) : Bool :=
  match type with
  | b :: _ => b &&& 0x20 != 0
  | [] => false

namespace ChunkKind

def ofType (type : List UInt8) : ChunkKind :=
  match knownTypes.find? (·.1 = type) with
  | some (_, kind) => kind
  | none => if isAncillary type then .ignorable else .refused

/-- A chunk of the kind may have data of the given length. -/
def admits (kind : ChunkKind) (length : Nat) : Bool :=
  match kind with
  | .palette => 3 ≤ length && length ≤ 768
  | .transparency => 1 ≤ length && length ≤ 256
  | .background => 1 ≤ length && length ≤ 6
  | .codePoints => length == 4
  | .frame => length == 26
  | .text | .exif | .profile | .pixels | .ignorable | .refused => true

/-- An image with a chunk of another length is refused; other kinds are passed over then. -/
def needsLength (kind : ChunkKind) : Bool :=
  kind == .palette || kind == .frame

/-- An image is refused when the checksum is wrong; other kinds are passed over then. -/
def needsChecksum (kind : ChunkKind) : Bool :=
  kind == .palette || kind == .refused

end ChunkKind

/-- One chunk. -/
structure Chunk where
  type : List UInt8
  data : List UInt8
  /-- The checksum agrees with type and data. -/
  intact : Bool

/-- What kind of chunk it is. -/
def Chunk.kind (c : Chunk) : ChunkKind :=
  .ofType c.type

/-- The length and type of the next chunk. -/
def chunkHead? (bytes : List UInt8) : Option (Nat × List UInt8 × List UInt8) := do
  let (length, bytes) ← big? 4 bytes
  let (type, bytes) ← take? 4 bytes
  return (length, type, bytes)

/-- The next chunk, and what follows. -/
def chunk? (bytes : List UInt8) : Option (Chunk × List UInt8) := do
  let (length, type, bytes) ← chunkHead? bytes
  let (data, bytes) ← take? length bytes
  let (crc, bytes) ← big? 4 bytes
  return (⟨type, data, (crc32 (type ++ data)).toNat == crc⟩, bytes)

end Glance.Image.Png
