import Glance.Image.Bmp
import Glance.Image.Gif
import Glance.Image.Png
import Glance.Path

/-!
# Image formats

The format of an image is known from its file extension alone. Its size is for a reader of images to
tell: one for PNG, GIF and BMP is here, and a program that shows more brings a reader of its own.
-/

namespace Glance

inductive ImageFormat where
  | png
  | jpeg
  | gif
  | bmp
  | webp
  deriving DecidableEq, Repr

namespace ImageFormat

/-- The format a file extension stands for, in any letter case. -/
def ofExtension? (extension : String) : Option ImageFormat :=
  match extension.toLower with
  | "png" => some .png
  | "jpg" | "jpeg" => some .jpeg
  | "gif" => some .gif
  | "bmp" => some .bmp
  | "webp" => some .webp
  | _ => none

/-- The format of a file, if its extension is one of an image. -/
def ofPath? (p : Path) : Option ImageFormat :=
  p.extension.bind ofExtension?

end ImageFormat

/-- What knows about the inside of images: tells the size of one from its format and the bytes of
its file, or why there is none. -/
structure ImageReader where
  size : ImageFormat → List UInt8 → Except String PixelSize

namespace ImageReader

/-- The size that was found in a header. -/
def found : Option PixelSize → Except String PixelSize
  | some size => .ok size
  | none => .error "no size in its header"

/-- The reader of the headers of PNG, GIF and BMP. -/
def headers : ImageReader where
  size
    | .png, bytes => found (Image.Png.size? bytes)
    | .gif, bytes => found (Image.Gif.size? bytes)
    | .bmp, bytes => found (Image.Bmp.size? bytes)
    | .jpeg, _ => .error "JPEG is not read"
    | .webp, _ => .error "WebP is not read"

end ImageReader

end Glance
