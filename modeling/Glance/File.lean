import Glance.Disk
import Glance.Image.Format

/-!
# Files to show

What opening a file gives, why it may fail, and what a program must be able to do to find files: let
the user pick one, open one by its path, and list the files around one.
-/

namespace Glance

/-- Files of one kind are neighbours in their folder. -/
inductive FileKind where
  | text
  | image
  deriving DecidableEq, Repr

namespace FileKind

/-- The extensions of files that are shown as neighbours of text files. Any file that is no image
can be opened as text. -/
def textExtensions : List String :=
  ["txt", "rs", "py", "toml", "md", "json", "js", "html", "css"]

/-- The kind of a file among its neighbours, by its extension in any letter case. -/
def ofPath? (p : Path) : Option FileKind :=
  if (ImageFormat.ofPath? p).isSome then some .image
  else
    match p.extension with
    | some extension => if extension.toLower ∈ textExtensions then some .text else none
    | none => none

end FileKind

/-- An image that can be drawn. -/
structure ImageSource where
  /-- Where the image is drawn from. -/
  location : String
  size : PixelSize
  deriving DecidableEq, Repr

/-- The outcome of opening a file. A file that was not reached by its path has a token by which it
can be found again. -/
inductive OpenedFile where
  | text (path : String) (content : List Char) (token : Option String)
  | image (path : String) (image : ImageSource) (token : Option String)
  | failed (path : String) (message : String)
  deriving DecidableEq, Repr

/-- Why a file was not opened. -/
inductive OpenError where
  | unreadable (cause : DiskError)
  /-- The file has more than `limit` bytes. -/
  | fileTooLarge (limit : Nat)
  /-- The pixels take more than `limit` bytes. -/
  | imageTooLarge (size : PixelSize) (limit : Nat)
  /-- No size can be read from the image. -/
  | badImage {cause : String}
  deriving DecidableEq, Repr

/-- A number of bytes in millions, to one place. -/
def millions (bytes : Nat) : List Char :=
  ((Number.Double.ofNat bytes).div (.ofNat 1000000)).exact.fixed 1

def OpenError.message : OpenError → String
  | .unreadable cause => "Failed to read file: " ++ cause.message
  | .fileTooLarge limit => "File is too large (> " ++ String.ofList (millions limit) ++ "MB)"
  | .imageTooLarge size limit =>
    "Image too large: " ++ size.width.toNat.repr ++ "x" ++ size.height.toNat.repr ++ " (~" ++
      String.ofList size.textureText ++ " MB RGBA). Limit ~" ++
      String.ofList ((PixelSize.mebibytes limit).exact.fixed 0) ++ " MB"
  | @badImage cause => "Failed to open image: " ++ cause

/-- How a program finds files. -/
structure Resolver where
  /-- The file that the user picks; nothing when the user cancels. -/
  pick : Option OpenedFile
  resolve : Path → OpenedFile
  /-- The files of a kind in the folder of a path. -/
  siblings : Path → FileKind → List Path

end Glance
