import Glance.Image.Zlib.Block

/-!
# Zlib data

Compressed data between a header of two bytes and a checksum of what is restored. What follows the
checksum is not read.
-/

namespace Glance.Image.Zlib

/-- The checksum of the data: the sum of all bytes, and above it the sum of these sums. -/
def checksum (data : ByteArray) : Nat :=
  let (low, high) := data.foldl
    (fun (low, high) b => let low := (low + b.toNat) % 65521; (low, (high + low) % 65521)) (1, 0)
  65536 * high + low

/-- The header names the method, a window of 32768 bytes at most and no dictionary, and is a multiple
of 31. -/
def isHeader (method flags : Nat) : Bool :=
  method % 16 == 8 && method / 16 ≤ 7 && !flags.testBit 5 && (256 * method + flags) % 31 == 0

/-- Restores the data, unless it is longer than `limit` or anything is wrong. -/
def decompress? (limit : Nat) (bytes : List UInt8) : Option ByteArray := do
  let (method, bytes) ← little? 1 bytes
  let (flags, bytes) ← little? 1 bytes
  if !isHeader method flags then none
  let s := BitStream.ofBytes bytes
  let (data, s) ← blocks? limit s.size s .empty
  let (sum, _) ← big? 4 s.bytes
  if sum = checksum data then some data else none

end Glance.Image.Zlib
