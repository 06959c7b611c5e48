import Glance.Image.Png.Chunk

/-!
# PNG headers

The first chunk tells the size of an image and how its pixels are kept. In memory every sample takes
one byte, or two if it has sixteen bits, and pixels with a palette are looked up in it.
-/

namespace Glance.Image.Png

/-- How colours are kept. -/
inductive ColorKind where
  | gray
  | rgb
  | indexed
  | grayAlpha
  | rgba
  deriving DecidableEq, Repr

namespace ColorKind

def ofNumber? (n : Nat) : Option ColorKind :=
  match n with
  | 0 => some .gray
  | 2 => some .rgb
  | 3 => some .indexed
  | 4 => some .grayAlpha
  | 6 => some .rgba
  | _ => none

/-- The numbers of bits that a sample may have. -/
def depths (kind : ColorKind) : List Nat :=
  match kind with
  | .gray => [1, 2, 4, 8, 16]
  | .indexed => [1, 2, 4, 8]
  | .rgb | .grayAlpha | .rgba => [8, 16]

/-- The samples of a pixel in memory, one of them for transparency that is kept apart. -/
def samples (kind : ColorKind) (transparency : Bool) : Nat :=
  match kind with
  | .gray => 1 + transparency.toNat
  | .grayAlpha => 2
  | .rgb | .indexed => 3 + transparency.toNat
  | .rgba => 4

end ColorKind

/-- What the header says about the image. -/
structure Header where
  width : Nat
  height : Nat
  /-- The bits of a sample. -/
  depth : Nat
  color : ColorKind

namespace Header

/-- The bytes of a line of pixels in memory. -/
def lineBytes (h : Header) (transparency : Bool) : Nat :=
  h.width * h.color.samples transparency * if h.depth = 16 then 2 else 1

/-- A header of the first chunk. -/
def ofChunk? (c : Chunk) : Option Header := do
  if c.type ≠ typeBytes "IHDR" ∨ c.data.length ≠ 13 ∨ !c.intact then none
  let (width, rest) ← big? 4 c.data
  let (height, rest) ← big? 4 rest
  match rest.map UInt8.toNat with
  | [depth, color, compression, filter, interlace] =>
    let color ← ColorKind.ofNumber? color
    if width = 0 ∨ height = 0 ∨ depth ∉ color.depths ∨ compression ≠ 0 ∨ filter ≠ 0 ∨ 1 < interlace
    then none
    else some ⟨width, height, depth, color⟩
  | _ => none

end Header

end Glance.Image.Png
