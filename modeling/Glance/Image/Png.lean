import Glance.Image.Png.Header
import Glance.Image.Zlib

/-!
# Sizes of PNG images

The size of an image counts once its pixel data begins, so the chunks between the header and the
pixels are passed through. Most of them may be wrong and are then passed over. The image is refused
for a wrong palette or frame, for a background without the palette it points into, for code points
of another colour model, and for a chunk that a reader must understand and does not.

What a reader keeps must not grow without bound: texts, a colour profile, the buffer for the data of
a chunk where it has to grow, and in the end one line of pixels share one budget.
-/

namespace Glance.Image.Png

/-- The bytes that all that is kept may take. -/
def budget : Nat := 512 * 1024 * 1024

/-- The first size of the buffer for the data of a chunk. -/
def firstBuffer : Nat := 128

/-- What is known of an image in front of its pixels. -/
structure Reading where
  header : Header
  /-- The bytes that may still be kept. -/
  room : Nat
  /-- The size of the buffer for the data of a chunk. -/
  buffer : Nat
  hasPalette : Bool
  hasTransparency : Bool
  hasCodePoints : Bool
  /-- A colour profile was met, right or wrong. -/
  hasProfile : Bool
  /-- The frames told so far, which is the number of the next one. -/
  frames : Nat

namespace Reading

/-- Nothing but the header is known. -/
def start (h : Header) : Reading :=
  ⟨h, budget, firstBuffer, false, false, false, false, 0⟩

/-- Keeps so many bytes more, if there is room. -/
def keep (r : Reading) (bytes : Nat) : Option Reading :=
  if bytes ≤ r.room then some { r with room := r.room - bytes } else none

/-- Gathers the data of a chunk in the buffer, which doubles until the data fits. -/
def gather (r : Reading) (length : Nat) : Option Reading :=
  let buffer := max r.buffer length.nextPowerOfTwo
  (r.keep (buffer - r.buffer)).map fun r => { r with buffer := buffer }

/-- The data says which colours are transparent: one gray level, one colour, or an entry for each of
the first colours of a palette. -/
def isTransparency (r : Reading) (data : List UInt8) : Bool :=
  match r.header.color with
  | .gray => 2 ≤ data.length
  | .rgb => 6 ≤ data.length
  | .indexed => r.hasPalette
  | .grayAlpha | .rgba => false

/-- The data begins a frame that covers the whole image, which it must in front of the pixels. The
frames have numbers in order; a frame is left, cleared or undone and drawn in one of two ways. -/
def isFrame (r : Reading) (data : List UInt8) : Bool :=
  let number (start size : Nat) := bigEndian ((data.drop start).take size)
  number 0 4 == r.frames && number 4 4 == r.header.width && number 8 4 == r.header.height &&
    number 12 4 == 0 && number 16 4 == 0 && number 24 1 ≤ 2 && number 25 1 ≤ 1

/-- The data holds code points of a model with red, green and blue, and a flag. -/
def areCodePoints (data : List UInt8) : Bool :=
  match data with
  | [_, _, model, flag] => model == 0 && flag ≤ 1
  | _ => false

/-- The colour profile that the data holds, if it can be kept: behind a name of 1 to 80 bytes, with
a zero behind it, and a zero for the method of compression. -/
def profile? (r : Reading) (data : List UInt8) : Option ByteArray :=
  let name := (data.take 80).takeWhile (· != 0)
  match data.drop name.length with
  | 0 :: 0 :: compressed =>
    if name.isEmpty then none else Zlib.decompress? r.room compressed
  | _ => none

/-- Takes in the data of a chunk, unless it must be refused. Of transparency and code points the
first that are right count; of profiles the first, and if it is wrong there is none. -/
def takeIn (r : Reading) (kind : ChunkKind) (data : List UInt8) : Option Reading :=
  match kind with
  | .palette => if r.hasPalette then none else some { r with hasPalette := true }
  | .transparency =>
    some { r with hasTransparency := r.hasTransparency || r.isTransparency data }
  | .text => r.keep data.length
  | .background => if r.header.color = .indexed ∧ !r.hasPalette then none else some r
  | .codePoints =>
    if r.hasPalette || r.hasCodePoints then some r
    else if areCodePoints data then some { r with hasCodePoints := true }
    else none
  | .profile =>
    if r.hasProfile then some r
    else { r with hasProfile := true }.keep ((r.profile? data).elim 0 ByteArray.size)
  | .frame => if r.isFrame data then some { r with frames := r.frames + 1 } else none
  | .exif | .ignorable => some r
  | .pixels | .refused => none

/-- Passes a chunk in front of the pixels. -/
def pass (r : Reading) (c : Chunk) : Option Reading :=
  if c.kind = .ignorable then some r
  else if !c.kind.admits c.data.length then (if c.kind.needsLength then none else some r)
  else
    match r.gather c.data.length with
    | none => none
    | some r =>
      if c.intact then r.takeIn c.kind c.data
      else if c.kind.needsChecksum then none
      else some r

/-- What is known when pixel data begins, behind at most `fuel` chunks. -/
def toPixels : (fuel : Nat) → Reading → List UInt8 → Option Reading
  | 0, _, _ => none
  | fuel + 1, r, bytes =>
    match chunkHead? bytes with
    | none => none
    | some (_, type, _) =>
      if ChunkKind.ofType type = .pixels then some r
      else
        match chunk? bytes with
        | none => none
        | some (c, rest) =>
          match r.pass c with
          | some r => toPixels fuel r rest
          | none => none

end Reading

def size? (bytes : List UInt8) : Option PixelSize := do
  let (front, bytes) ← take? 8 bytes
  if front ≠ signature then none
  let (c, rest) ← chunk? bytes
  let h ← Header.ofChunk? c
  let r ← (Reading.start h).toPixels rest.length rest
  if h.lineBytes r.hasTransparency ≤ r.room then some (sizeOf h.width h.height) else none

end Glance.Image.Png
