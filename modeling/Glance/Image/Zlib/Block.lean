import Glance.Image.Zlib.PrefixCode

/-!
# Blocks of compressed data

Data is kept in blocks. A block holds its bytes as they are, or bytes and repeats of what came
before, in two prefix codes: one for bytes, the end of the block and lengths of repeats, one for how
far back a repeat begins. The codes are fixed, or a block tells them at its start. What is restored
may not grow beyond a limit.
-/

namespace Glance.Image.Zlib

/-! ## Repeats -/

/-- Ranges of numbers one behind the other, the first from `start`. Bits tell the place in a range,
so it has a power of two of numbers. -/
def ranges : (start : Nat) → (bits : List Nat) → List (Nat × Nat)
  | _, [] => []
  | start, n :: bits => (start, n) :: ranges (start + Nat.pow 2 n) bits

/-- The lengths of repeats: 3 to 258, and the greatest has a symbol for itself as well. -/
def repeatLengths : Array (Nat × Nat) :=
  (ranges 3 (0 :: 0 :: 0 :: 0 :: (List.range 6).flatMap (List.replicate 4)) ++ [(258, 0)]).toArray

/-- The distances of repeats: 1 to 32768. -/
def repeatDistances : Array (Nat × Nat) :=
  (ranges 1 (0 :: 0 :: (List.range 14).flatMap (List.replicate 2))).toArray

/-- Takes the place of a number in the range with the given index. -/
def inRange? (ranges : Array (Nat × Nat)) (i : Nat) (s : BitStream) : Option (Nat × BitStream) := do
  let (start, bits) ← ranges[i]?
  let (place, s) ← s.number? bits
  return (start + place, s)

/-- Adds `length` bytes, each the one that stands `distance` bytes in front of it. -/
def copy (distance : Nat) : (length : Nat) → ByteArray → ByteArray
  | 0, out => out
  | length + 1, out =>
    let b := out[out.size - distance]?.getD 0
    copy distance length (out.push b)

/-! ## Codes -/

/-- The codes of a block. -/
structure BlockCodes where
  /-- Bytes, the end of the block, and lengths of repeats. -/
  main : PrefixCode
  /-- Distances of repeats. -/
  distance : PrefixCode

/-- The symbol for the end of a block. Symbols below are bytes, symbols above lengths of repeats. -/
def endSymbol : Nat := 256

/-- The codes of a block that does not tell its own. -/
def fixedCodes : BlockCodes where
  main := .ofLengths (List.replicate 144 8 ++ List.replicate 112 9 ++ List.replicate 24 7 ++
    List.replicate 8 8)
  distance := .ofLengths (List.replicate 32 5)

/-- Takes `total` lengths of symbols, which are told by symbols themselves: a length, or a repeat of
the length in front or of zero. -/
def codeLengths? (code : PrefixCode) (total : Nat) :
    (fuel : Nat) → BitStream → Array Nat → Option (Array Nat × BitStream)
  | 0, s, lengths => if lengths.size = total then some (lengths, s) else none
  | fuel + 1, s, lengths =>
    if lengths.size = total then some (lengths, s)
    else do
      let (symbol, s) ← code.symbol? s
      let (length, times, s) ←
        match symbol with
        | 16 => do
          let length ← lengths.back?
          let (n, s) ← s.number? 2
          pure (length, n + 3, s)
        | 17 => do
          let (n, s) ← s.number? 3
          pure (0, n + 3, s)
        | 18 => do
          let (n, s) ← s.number? 7
          pure (0, n + 11, s)
        | length => pure (length, 1, s)
      if lengths.size + times ≤ total then
        codeLengths? code total fuel s (lengths ++ Array.replicate times length)
      else none

/-- The order in which the lengths of those symbols are told; lengths left out are zero. -/
def lengthOrder : List Nat :=
  [16, 17, 18, 0, 8, 7, 9, 6, 10, 5, 11, 4, 12, 3, 13, 2, 14, 1, 15]

/-- Takes the codes that a block tells. They must be complete, but there may be no distance at all,
or one that has a single bit. -/
def toldCodes? (s : BitStream) : Option (BlockCodes × BitStream) := do
  let (mains, s) ← s.number? 5
  let (distances, s) ← s.number? 5
  let (told, s) ← s.number? 4
  let mains := mains + endSymbol + 1
  let distances := distances + 1
  if 286 < mains ∨ 30 < distances then none
  let (told, s) ← s.numbers? 3 (told + 4)
  let told := lengthOrder.zip told
  let code := PrefixCode.ofLengths ((List.range 19).map fun i => (told.lookup i).getD 0)
  if !code.isComplete then none
  let (lengths, s) ← codeLengths? code (mains + distances) (mains + distances) s #[]
  let lengths := lengths.toList
  let main := PrefixCode.ofLengths (lengths.take mains)
  let distance := PrefixCode.ofLengths (lengths.drop mains)
  if !main.isComplete ∨ endSymbol ∉ main.symbols then none
  if !distance.isComplete ∧ !distance.isTrivial then none
  return (⟨main, distance⟩, s)

/-! ## Contents -/

/-- Restores the bytes of a block in a code. -/
def coded? (codes : BlockCodes) (limit : Nat) :
    (fuel : Nat) → BitStream → ByteArray → Option (ByteArray × BitStream)
  | 0, _, _ => none
  | fuel + 1, s, out =>
    match codes.main.symbol? s with
    | none => none
    | some (symbol, s) =>
      if symbol = endSymbol then some (out, s)
      else if symbol < endSymbol then
        if out.size < limit then coded? codes limit fuel s (out.push (UInt8.ofNat symbol)) else none
      else
        match inRange? repeatLengths (symbol - endSymbol - 1) s with
        | none => none
        | some (length, s) =>
          match (codes.distance.symbol? s).bind fun (i, s) => inRange? repeatDistances i s with
          | none => none
          | some (distance, s) =>
            if distance ≤ out.size ∧ out.size + length ≤ limit then
              coded? codes limit fuel s (copy distance length out)
            else none

/-- Takes the bytes of a block that holds them as they are. They begin with a new byte; their number
is told twice, the second time with all bits inverted. -/
def stored? (limit : Nat) (s : BitStream) (out : ByteArray) : Option (ByteArray × BitStream) := do
  let (n, bytes) ← little? 2 s.bytes
  let (inverted, bytes) ← little? 2 bytes
  if n + inverted ≠ 0xFFFF ∨ limit < out.size + n then none
  let (data, bytes) ← take? n bytes
  return (data.foldl ByteArray.push out, .ofBytes bytes)

/-- Restores the bytes of one block, of the given kind. -/
def block? (limit fuel kind : Nat) (s : BitStream) (out : ByteArray) :
    Option (ByteArray × BitStream) :=
  match kind with
  | 0 => stored? limit s out
  | 1 => coded? fixedCodes limit fuel s out
  | 2 => (toldCodes? s).bind fun (codes, s) => coded? codes limit fuel s out
  | _ => none

/-- Restores the bytes of all blocks up to the last, each behind a mark that says if it is the last
and what kind it is. Every step takes a bit at least, so as much fuel as there are bits is enough.
-/
def blocks? (limit : Nat) : (fuel : Nat) → BitStream → ByteArray → Option (ByteArray × BitStream)
  | 0, _, _ => none
  | fuel + 1, s, out =>
    match s.number? 3 with
    | none => none
    | some (mark, s) =>
      match block? limit fuel (mark / 2) s out with
      | none => none
      | some (out, s) => if mark % 2 = 1 then some (out, s) else blocks? limit fuel s out

end Glance.Image.Zlib
