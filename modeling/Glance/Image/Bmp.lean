import Glance.Image.Bytes

/-!
# BMP headers

A file header is followed by an image header in one of several lengths, by colour masks and by a
palette, as far as the kind of pixels asks for them. A negative height means that the rows run from
top to bottom.
-/

namespace Glance.Image.Bmp

/-- How pixels are kept. -/
inductive Pixels where
  | palette (colors : Nat)
  | masks (bits : Nat)
  | direct
  deriving DecidableEq, Repr

/-- What an image header says. -/
structure Header where
  width : Nat
  height : Nat
  pixels : Pixels

/-- The longest side of an image. -/
def maxSide : Int := 0xFFFF

/-- A number of 32 bits with a sign. -/
def signed32 (n : Nat) : Int :=
  if n < 0x80000000 then n else n - 0x100000000

/-- The number of colours in a palette. -/
def colors? (bits used : Nat) : Option Nat :=
  if used = 0 then some (Nat.pow 2 bits) else if Nat.pow 2 bits < used then none else some used

/-- The kind of pixels for a compression and a number of bits. -/
def pixels? (compression bits used : Nat) : Option Pixels :=
  match compression with
  | 0 =>
    if bits ∈ [1, 2, 4, 8] then (colors? bits used).map .palette
    else if bits ∈ [16, 24, 32] then some .direct
    else none
  | 1 => if bits = 8 then (colors? bits used).map .palette else none
  | 2 => if bits = 4 then (colors? bits used).map .palette else none
  | 3 => if bits ∈ [16, 32] then some (.masks bits) else none
  | _ => none

/-- The old image header, of 12 bytes. -/
def shortHeader? (bytes : List UInt8) : Option Header := do
  let (width, bytes) ← little? 2 bytes
  let (height, bytes) ← little? 2 bytes
  let (planes, bytes) ← little? 2 bytes
  let (bits, _) ← little? 2 bytes
  if width = 0 ∨ height = 0 ∨ planes ≠ 1 then none
  if bits ∈ [1, 4, 8] then some ⟨width, height, .palette (Nat.pow 2 bits)⟩
  else if bits = 24 then some ⟨width, height, .direct⟩
  else none

/-- The part that all longer image headers begin with, and what follows it. -/
def longHeader? (bytes : List UInt8) : Option (Header × List UInt8) := do
  let (width, bytes) ← little? 4 bytes
  let (height, bytes) ← little? 4 bytes
  let (planes, bytes) ← little? 2 bytes
  let (bits, bytes) ← little? 2 bytes
  let (compression, bytes) ← little? 4 bytes
  let (_, bytes) ← take? 12 bytes
  let (used, bytes) ← little? 4 bytes
  let (_, bytes) ← take? 4 bytes
  let (width, height) := (signed32 width, signed32 height)
  if width ≤ 0 ∨ maxSide < width then none
  if height = 0 ∨ maxSide < height ∨ height = -0x80000000 ∨ planes ≠ 1 then none
  if height < 0 ∧ compression ≠ 0 ∧ compression ≠ 3 then none
  let pixels ← pixels? compression bits used
  return (⟨width.toNat, height.natAbs, pixels⟩, bytes)

/-- The bits of a mask are neighbours among the lowest `bits`. -/
def isMask (bits mask : Nat) : Bool :=
  (List.range (bits + 1)).any fun high =>
    (List.range (high + 1)).any fun low => mask == Nat.pow 2 high - Nat.pow 2 low

/-- Three colour masks, none of them empty, and one for transparency that may be. -/
def areMasks (bits : Nat) (alpha : Bool) (bytes : List UInt8) : Bool :=
  match little? 4 bytes with
  | none => false
  | some (red, bytes) =>
    match little? 4 bytes with
    | none => false
    | some (green, bytes) =>
      match little? 4 bytes with
      | none => false
      | some (blue, bytes) =>
        [red, green, blue].all (fun mask => mask != 0 && isMask bits mask) &&
          (!alpha || match little? 4 bytes with
            | some (mask, _) => isMask bits mask
            | none => false)

/-- What the kind of pixels asks for is there. `length` is the length of the image header, `inner`
what follows its common part, and `outer` what follows all of it. -/
def isComplete (pixels : Pixels) (length : Nat) (inner outer : List UInt8) : Bool :=
  match pixels with
  | .direct => true
  | .palette colors => (take? (colors * if length = 12 then 3 else 4) outer).isSome
  | .masks bits => areMasks bits (56 ≤ length) inner

def size? (bytes : List UInt8) : Option PixelSize := do
  let (front, bytes) ← take? 2 bytes
  if front ≠ [0x42, 0x4D] then none
  let (_, bytes) ← take? 12 bytes
  let (length, rest) ← little? 4 bytes
  let outer := bytes.drop length
  let (header, inner) ←
    if length = 12 then (shortHeader? rest).map (·, [])
    else if length ∈ [40, 52, 56, 108, 124] then longHeader? rest
    else none
  if isComplete header.pixels length inner outer then some (sizeOf header.width header.height)
  else none

end Glance.Image.Bmp
