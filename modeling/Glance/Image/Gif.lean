import Glance.Image.Bytes

/-!
# GIF headers

A file is a signature, the size of the screen, a palette that may be missing, and blocks. The size
counts once a block begins that is no extension. The extensions in front of it are passed through,
and one that is not known refuses the file.
-/

namespace Glance.Image.Gif

def signatures : List (List UInt8) :=
  [[0x47, 0x49, 0x46, 0x38, 0x37, 0x61], [0x47, 0x49, 0x46, 0x38, 0x39, 0x61]]

/-- The bytes of the palette that the flags announce. -/
def paletteBytes (flags : Nat) : Nat :=
  if flags < 128 then 0 else 3 * Nat.pow 2 (flags % 8 + 1)

/-- Passes the data of an extension, which comes in pieces and ends with an empty one. Tells how
long the last piece with data is; `last` is the length of the piece in front. -/
def skipPieces : (fuel : Nat) → (last : Nat) → List UInt8 → Option (Nat × List UInt8)
  | 0, _, _ => none
  | fuel + 1, last, bytes =>
    match bytes with
    | [] => none
    | n :: rest =>
      if n = 0 then some (last, rest)
      else (take? n.toNat rest).bind fun (_, rest) => skipPieces fuel n.toNat rest

/-- The extensions: plain text, the control of a frame, comments, and data of an application. -/
def labels : List UInt8 := [0x01, 0xF9, 0xFE, 0xFF]

/-- An extension is known, and one that controls how a frame is drawn ends with a piece of four
bytes: every piece replaces the one in front of it. -/
def isSound (label : UInt8) (last : Nat) : Bool :=
  labels.contains label && (label != 0xF9 || last == 4)

/-- The block that ends a file. -/
def trailer : UInt8 := 0x3B

/-- The first block that is no extension begins behind the given number of extensions at most. It
shows by its second byte; the trailer has none and shows at once `behind` an extension. -/
def reachesBlock : (fuel : Nat) → (behind : Bool) → List UInt8 → Bool
  | 0, _, _ => false
  | fuel + 1, behind, bytes =>
    match bytes with
    | 0x21 :: label :: rest =>
      match skipPieces rest.length 0 rest with
      | some (last, rest) => if isSound label last then reachesBlock fuel true rest else false
      | none => false
    | block :: _ :: _ => block != 0x21
    | [block] => behind && block == trailer
    | [] => false

def size? (bytes : List UInt8) : Option PixelSize := do
  let (front, bytes) ← take? 6 bytes
  if front ∉ signatures then none
  let (width, bytes) ← little? 2 bytes
  let (height, bytes) ← little? 2 bytes
  let (flags, bytes) ← little? 1 bytes
  let (_, bytes) ← take? 2 bytes
  let (_, bytes) ← take? (paletteBytes flags) bytes
  if reachesBlock bytes.length false bytes then some (sizeOf width height) else none

end Glance.Image.Gif
