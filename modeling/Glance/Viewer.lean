import Glance.Config
import Glance.File
import Glance.Neighbor
import Glance.Page
import Glance.Preferences
import Glance.Recents

/-!
# The viewer

What is on screen: one text or image or nothing, the search in it, and the preferences it is shown
with. Preferences and recent files are kept in a store at every change; a store that fails changes
nothing else.

A file that cannot be opened leaves everything as it was but for the error message. The search
always belongs to what is open: whatever replaces the text or the query searches anew.
-/

namespace Glance

open Number (Single)

/-- What is open. -/
inductive Content where
  | text (path : String) (doc : Document) (lang : Language)
  | image (path : String) (image : ImageSource)
  deriving DecidableEq, Repr

def Content.path : Content → String
  | .text path _ _ => path
  | .image path _ => path

/-- The kind of the files beside what is open. -/
def Content.kind : Content → FileKind
  | .text .. => .text
  | .image .. => .image

/-- The outcome of a request to open a file. -/
inductive Outcome where
  | opened
  | cancelled
  | failed (message : String)
  deriving DecidableEq, Repr

/-- Why a request was refused. -/
inductive ViewerError where
  | noContent
  /-- The recent file with this label has no path. -/
  | recentUnavailable (label : String)
  deriving DecidableEq, Repr

def ViewerError.message : ViewerError → String
  | .noContent => "No file is open"
  | .recentUnavailable label => "Recent entry cannot be reopened: " ++ label

structure Viewer (σ : Type) where
  store : σ
  config : Config
  preferences : Preferences
  recents : Recents
  content : Option Content
  query : List Char
  index : MatchIndex
  navigator : Navigator
  /-- The area for images, once it is known. -/
  viewport : Option Viewport
  /-- The path was copied just now, and the status line says so. -/
  copied : Bool
  /-- Why the last file was not opened. -/
  error : Option String

namespace Viewer

variable {σ : Type}

/-- The viewer with what the store remembers and nothing open. -/
def start [Store σ] (store : σ) (config : Config) : Viewer σ where
  store := store
  config := config
  preferences := .load store
  recents := .load store
  content := none
  query := []
  index := .empty
  navigator := .start 0
  viewport := none
  copied := false
  error := none

/-! ## Search -/

/-- The occurrences of a query in what is open. -/
def indexOf (content : Option Content) (query : List Char) : MatchIndex :=
  match content with
  | some (.text _ doc _) => .ofText doc.text query
  | _ => .empty

/-- Searches what is open, with nothing emphasized. -/
def search (v : Viewer σ) : Viewer σ :=
  let index := indexOf v.content v.query
  { v with index := index, navigator := .start index.count }

/-- Searches for another query. The same query again changes nothing. -/
def setQuery (v : Viewer σ) (query : List Char) : Viewer σ :=
  if v.query = query then v else search { v with query := query }

/-- Emphasizes the next or previous match. -/
def step (v : Viewer σ) (dir : Direction) : Option Nat × Viewer σ :=
  let (landed, nav) := v.navigator.step dir
  (landed, { v with navigator := nav })

/-- Emphasizes match `i`. -/
def select (v : Viewer σ) (i : Nat) : Option Nat × Viewer σ :=
  let (landed, nav) := v.navigator.select i
  (landed, { v with navigator := nav })

/-- The emphasized match. -/
def currentMatch (v : Viewer σ) : Option Match :=
  v.navigator.current.bind v.index.get?

/-- The line on which the emphasized match begins. -/
def currentLine (v : Viewer σ) : Option Nat :=
  match v.content, v.currentMatch with
  | some (.text _ doc _), some m => (doc.lineOfChar m.start).toOption
  | _, _ => none

/-- The number of matches in words; nothing when there are none. -/
def matchSummary (v : Viewer σ) : String :=
  if v.index.count = 0 then "" else v.index.count.repr ++ " match(es)"

/-! ## Opening -/

/-- The entry by which an opened file is remembered. -/
def recentOf (path : String) : Option String → Recent
  | some token => .ofHandle token path
  | none => .ofPath path

def remember [Store σ] (v : Viewer σ) (r : Recent) : Viewer σ :=
  let recents := v.recents.push r
  { v with recents := recents, store := recents.save v.store }

/-- Shows something new. -/
def present (v : Viewer σ) (content : Content) : Viewer σ :=
  { search { v with content := some content } with error := none, copied := false }

/-- The preferences an image is first shown with: in its own size, fitted if it is larger than the
area. -/
def forImage (p : Preferences) (viewport : Option Viewport) (size : PixelSize) : Preferences :=
  let fit := match viewport with
    | some area => decide (area.fitScale size < .ofNat 1)
    | none => p.fit
  { p with imageZoom := .ofNat 1, fit := fit }

/-- Shows an opened file, or notes why it could not be opened. -/
def showFile [Store σ] (v : Viewer σ) : OpenedFile → Outcome × Viewer σ
  | .text path content token =>
    let v := v.remember (recentOf path token)
    (.opened, v.present (.text path ⟨content⟩ (.ofPath ⟨path⟩)))
  | .image path image token =>
    let v := v.remember (recentOf path token)
    let preferences := forImage v.preferences v.viewport image.size
    let v := { v with preferences := preferences, store := preferences.save v.store }
    (.opened, v.present (.image path image))
  | .failed _ message => (.failed message, { v with error := some message })

/-- Shows the file that the user picks. -/
def openPicked [Store σ] (v : Viewer σ) (r : Resolver) : Outcome × Viewer σ :=
  match r.pick with
  | some file => v.showFile file
  | none => (.cancelled, v)

/-- Shows the file at a path. -/
def openPath [Store σ] (v : Viewer σ) (r : Resolver) (path : Path) : Outcome × Viewer σ :=
  v.showFile (r.resolve path)

/-- Shows a recent file again. An empty slot changes nothing. -/
def openRecent [Store σ] (v : Viewer σ) (r : Resolver) (slot : Nat) :
    Except ViewerError Outcome × Viewer σ :=
  match v.recents.inSlot slot with
  | none => (.ok .cancelled, v)
  | some entry =>
    if entry.kind = .path then
      let (outcome, v) := v.openPath r ⟨entry.identifier⟩
      (.ok outcome, v)
    else (.error (.recentUnavailable entry.displayLabel), v)

/-- Shows the next or previous file of the same kind in the folder of the open one. -/
def openNeighbor [Store σ] (v : Viewer σ) (r : Resolver) (dir : Direction) :
    Outcome × Viewer σ :=
  match v.content with
  | none => (.cancelled, v)
  | some content =>
    let path : Path := ⟨content.path⟩
    match neighbor (r.siblings path content.kind) path dir with
    | some next => v.openPath r next
    | none => (.cancelled, v)

/-- Closes what is open. -/
def close (v : Viewer σ) : Viewer σ :=
  search { v with content := none, error := none, copied := false }

/-- Reads the open text as another language; tells whether a text is open. -/
def setLanguage (v : Viewer σ) (lang : Language) : Bool × Viewer σ :=
  match v.content with
  | some (.text path doc _) => (true, { v with content := some (.text path doc lang) })
  | _ => (false, v)

/-! ## Display -/

def currentPath (v : Viewer σ) : Option String :=
  v.content.map Content.path

/-- The text is so large that it has neither colours nor line numbers. -/
def isLarge (limits : TextLimits) (doc : Document) : Bool :=
  limits.largeBytes ≤ doc.byteCount || limits.largeLines ≤ doc.lineCount

/-- How the open text is shown. -/
def renderOptions (v : Viewer σ) : PageOptions :=
  let (colors, large) :=
    match v.content with
    | some (.text _ doc _) =>
      let large := isLarge v.config.text doc
      (!large && doc.charCount ≤ v.config.text.maxColoredChars, large)
    | _ => (true, false)
  { lineNumbers := v.preferences.lineNumbers && !large
    colors := colors
    theme := v.preferences.theme }

/-- The open text in markup. -/
def renderWith (v : Viewer σ) (options : PageOptions) : Option (List Char) :=
  match v.content with
  | some (.text _ doc lang) => some (doc.render lang v.index v.navigator.current options)
  | _ => none

/-- The open text in markup, as preferences and limits want it. -/
def render (v : Viewer σ) : Option (List Char) :=
  v.renderWith v.renderOptions

def stylesheet (v : Viewer σ) : String :=
  v.preferences.theme.stylesheet

/-- The scale at which the open image is drawn. -/
def imageZoom (v : Viewer σ) : Option Single :=
  match v.content with
  | some (.image _ image) =>
    match v.preferences.fit, v.viewport with
    | true, some area => some (area.fitScale image.size)
    | _, _ => some v.preferences.imageZoom
  | _ => none

/-- What the status line says about a text. -/
def textStatus (limits : TextLimits) (path : String) (doc : Document) : String :=
  path ++ " - " ++ doc.lineCount.repr ++ " lines" ++
    (if isLarge limits doc then " - Large file: reduced features" else "") ++
    (if doc.isLossy then " - UTF-8 (lossy)" else "")

/-- What the status line says about an image. -/
def imageStatus (path : String) (size : PixelSize) (zoom : Single) (fit : Bool) : String :=
  let percent := (zoom.mul (.ofNat 100)).exact.fixed 0
  path ++ " - " ++ size.width.toNat.repr ++ "x" ++ size.height.toNat.repr ++ " px - Zoom: " ++
    String.ofList percent ++ "% - Texture ~" ++ String.ofList size.textureText ++ " MB" ++
    (if fit then " Fit: on" else "")

/-- The status line. -/
def status (v : Viewer σ) : String :=
  if v.copied then "Path copied to clipboard"
  else
    match v.content with
    | none => ""
    | some (.text path doc _) => textStatus v.config.text path doc
    | some (.image path image) =>
      imageStatus path image.size (v.imageZoom.getD (.ofNat 1)) v.preferences.fit

def setViewport (v : Viewer σ) (area : Viewport) : Viewer σ :=
  { v with viewport := some area }

/-! ## The open file and the desktop -/

/-- Copies the path of the open file. `clipboard` tells whether it took the text. -/
def copyPath (v : Viewer σ) (clipboard : String → Bool) : Except ViewerError (Viewer σ) :=
  match v.currentPath with
  | none => .error .noContent
  | some path => .ok (if clipboard path then { v with copied := true } else v)

/-- The path to show in its folder. -/
def reveal (v : Viewer σ) : Except ViewerError Path :=
  match v.currentPath with
  | none => .error .noContent
  | some path => .ok ⟨path⟩

/-! ## Preferences -/

/-- Changes preferences and keeps them. -/
def prefer [Store σ] (v : Viewer σ) (preferences : Preferences) : Viewer σ :=
  { v with preferences := preferences, copied := false, store := preferences.save v.store }

def toggleDark [Store σ] (v : Viewer σ) : Viewer σ :=
  v.prefer { v.preferences with dark := !v.preferences.dark }

def toggleWrap [Store σ] (v : Viewer σ) : Viewer σ :=
  v.prefer { v.preferences with wrap := !v.preferences.wrap }

def toggleLineNumbers [Store σ] (v : Viewer σ) : Viewer σ :=
  v.prefer { v.preferences with lineNumbers := !v.preferences.lineNumbers }

def setFit [Store σ] (v : Viewer σ) (on : Bool) : Viewer σ :=
  v.prefer { v.preferences with fit := on }

def setTheme [Store σ] (v : Viewer σ) (theme : Theme) : Viewer σ :=
  v.prefer { v.preferences with theme := theme }

def zoomText [Store σ] (v : Viewer σ) (factor : Single) : Viewer σ :=
  v.prefer (v.preferences.scaleText factor)

/-- Zooms the image by hand, which ends fitting. -/
def setImageZoom [Store σ] (v : Viewer σ) (level : Single) : Viewer σ :=
  v.prefer ({ v.preferences with fit := false }.setImageZoom level)

def zoomImageIn [Store σ] (v : Viewer σ) : Viewer σ :=
  v.setImageZoom (v.preferences.imageZoom.mul Preferences.zoomStep)

def zoomImageOut [Store σ] (v : Viewer σ) : Viewer σ :=
  v.setImageZoom (v.preferences.imageZoom.div Preferences.zoomStep)

def resetImageZoom [Store σ] (v : Viewer σ) : Viewer σ :=
  v.setImageZoom (.ofNat 1)

def clearRecents [Store σ] (v : Viewer σ) : Viewer σ :=
  { v with recents := .empty, store := Recents.empty.save v.store }

end Viewer

end Glance
