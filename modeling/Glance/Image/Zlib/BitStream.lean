import Glance.Image.Bytes

/-!
# Streams of bits

Bytes are read bit by bit, the lowest bit of a byte first. A number in such a stream has its lowest
bit first as well.
-/

namespace Glance.Image.Zlib

structure BitStream where
  /-- What is left of the byte that is being read. -/
  begun : List Bool
  /-- The bytes behind it. -/
  bytes : List UInt8

namespace BitStream

/-- All bits of the bytes. -/
def ofBytes (bytes : List UInt8) : BitStream :=
  ⟨[], bytes⟩

/-- The bits that are left. -/
def size (s : BitStream) : Nat :=
  s.begun.length + 8 * s.bytes.length

/-- Takes one bit. -/
def bit? (s : BitStream) : Option (Bool × BitStream) :=
  match s with
  | ⟨bit :: begun, bytes⟩ => some (bit, ⟨begun, bytes⟩)
  | ⟨[], b :: bytes⟩ => some (b.toNat.testBit 0, ⟨(List.range' 1 7).map b.toNat.testBit, bytes⟩)
  | ⟨[], []⟩ => none

/-- Takes a number of `n` bits. -/
def number? : (n : Nat) → BitStream → Option (Nat × BitStream)
  | 0, s => some (0, s)
  | n + 1, s => do
    let (bit, s) ← s.bit?
    let (high, s) ← number? n s
    return (2 * high + bit.toNat, s)

/-- Takes `count` numbers of `n` bits each. -/
def numbers? (n : Nat) : (count : Nat) → BitStream → Option (List Nat × BitStream)
  | 0, s => some ([], s)
  | count + 1, s => do
    let (first, s) ← s.number? n
    let (others, s) ← numbers? n count s
    return (first :: others, s)

end BitStream

end Glance.Image.Zlib
