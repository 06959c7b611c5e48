import Glance.Image

/-!
# Reading binary headers

Numbers in binary data, in either byte order, and the checksum of chunked formats.
-/

namespace Glance.Image

/-- Takes exactly `n` bytes off the front. -/
def take? (n : Nat) (bytes : List UInt8) : Option (List UInt8 × List UInt8) :=
  let front := bytes.take n
  if front.length = n then some (front, bytes.drop n) else none

/-- The number written with its highest byte first. -/
def bigEndian (bytes : List UInt8) : Nat :=
  bytes.foldl (fun n b => 256 * n + b.toNat) 0

/-- The number written with its lowest byte first. -/
def littleEndian (bytes : List UInt8) : Nat :=
  bytes.foldr (fun b n => 256 * n + b.toNat) 0

/-- Takes a number of `n` bytes, lowest byte first. -/
def little? (n : Nat) (bytes : List UInt8) : Option (Nat × List UInt8) :=
  (take? n bytes).map fun (front, rest) => (littleEndian front, rest)

/-- Takes a number of `n` bytes, highest byte first. -/
def big? (n : Nat) (bytes : List UInt8) : Option (Nat × List UInt8) :=
  (take? n bytes).map fun (front, rest) => (bigEndian front, rest)

/-- Divides one bit off a checksum. -/
def crcBit (crc : UInt32) : UInt32 :=
  if crc &&& 1 = 1 then (crc >>> 1) ^^^ 0xEDB88320 else crc >>> 1

/-- Adds a byte to a checksum. -/
def crcByte (crc : UInt32) (b : UInt8) : UInt32 :=
  Nat.repeat crcBit 8 (crc ^^^ b.toUInt32)

/-- The cyclic redundancy check of the bytes, with the polynomial of ISO 3309. -/
def crc32 (bytes : List UInt8) : UInt32 :=
  bytes.foldl crcByte 0xFFFFFFFF ^^^ 0xFFFFFFFF

/-- A size that both fields of 32 bits can hold. -/
def sizeOf (width height : Nat) : PixelSize :=
  ⟨UInt32.ofNat width, UInt32.ofNat height⟩

end Glance.Image
