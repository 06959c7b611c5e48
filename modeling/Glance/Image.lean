import Glance.Number.Decimal

/-!
# Image sizes

How much memory the pixels of an image take, and the scale at which an image fits a window. A pixel
takes four bytes.
-/

namespace Glance

open Number (Single Double)

/-- The size of an image in pixels. -/
structure PixelSize where
  width : UInt32
  height : UInt32
  deriving DecidableEq, Repr

namespace PixelSize

/-- The largest number of bytes that can be told. -/
def maxBytes : Nat := 0xFFFFFFFFFFFFFFFF

/-- The bytes of all pixels, as far as they can be told. -/
def textureBytes (size : PixelSize) : Nat :=
  min (size.width.toNat * size.height.toNat * 4) maxBytes

/-- A number of bytes in mebibytes. -/
def mebibytes (bytes : Nat) : Double :=
  (Double.ofNat bytes).div (Double.ofNat (1024 * 1024))

/-- The pixels take no more than `limit` bytes. -/
def fits (size : PixelSize) (limit : Nat) : Bool :=
  size.textureBytes ≤ limit

/-- The mebibytes of all pixels, to one place. -/
def textureText (size : PixelSize) : List Char :=
  (mebibytes size.textureBytes).exact.fixed 1

/-! ## Fitting -/

/-- The smallest scale of a fitted image. -/
def minScale : Single := .ofRatio 1 10

/-- The largest scale of a fitted image. -/
def maxScale : Single := .ofNat 6

/-- The scale at which one side of an image fits one side of a window. A side without pixels counts
as one pixel. -/
def sideScale (window : Single) (pixels : UInt32) : Single :=
  window.div (.ofNat (max pixels.toNat 1))

end PixelSize

/-- The size of the area in which an image is shown. -/
structure Viewport where
  width : Single
  height : Single
  deriving DecidableEq, Repr

/-- The scale at which the whole image fits the area; the smallest scale when there is none. -/
def Viewport.fitScale (area : Viewport) (size : PixelSize) : Single :=
  let scale := (PixelSize.sideScale area.width size.width).min
    (PixelSize.sideScale area.height size.height)
  if scale.isNaN then PixelSize.minScale else scale.clamp PixelSize.minScale PixelSize.maxScale

end Glance
