import Glance.Store
import Glance.Theme

/-!
# Preferences

How files are shown. The zooms stay between fixed limits, whatever they are set to. Stored
preferences name only what they want to change: a missing field has its default, an unknown theme
counts as the default theme, and a field of a wrong type makes all of them worthless.
-/

namespace Glance

open Number (Single)

structure Preferences where
  dark : Bool
  /-- Images are scaled to fit the window. -/
  fit : Bool
  /-- Long lines are wrapped. -/
  wrap : Bool
  lineNumbers : Bool
  textZoom : Single
  /-- The scale of images that are not fitted. -/
  imageZoom : Single
  theme : Theme
  deriving DecidableEq, Repr

namespace Preferences

def initial : Preferences where
  dark := false
  fit := false
  wrap := true
  lineNumbers := true
  textZoom := .ofNat 1
  imageZoom := .ofNat 1
  theme := .classic

/-! ## Zooms -/

/-- One step of zooming in multiplies by this much. -/
def zoomStep : Single := .ofRatio 11 10

def minTextZoom : Single := .ofRatio 6 10

def maxTextZoom : Single := .ofNat 3

def minImageZoom : Single := .ofRatio 1 10

def maxImageZoom : Single := .ofNat 6

/-- The nearest zoom between the limits; what is no number is the lower one. -/
def limitZoom (level low high : Single) : Single :=
  if level.isNaN then low else level.clamp low high

def setTextZoom (p : Preferences) (level : Single) : Preferences :=
  { p with textZoom := limitZoom level minTextZoom maxTextZoom }

/-- Multiplies the text zoom. -/
def scaleText (p : Preferences) (factor : Single) : Preferences :=
  p.setTextZoom (p.textZoom.mul factor)

def setImageZoom (p : Preferences) (level : Single) : Preferences :=
  { p with imageZoom := limitZoom level minImageZoom maxImageZoom }

/-! ## Storing -/

/-- Where a store keeps preferences. -/
def key : String := "settings"

def toJson (p : Preferences) : Json :=
  .object
    [("dark", .bool p.dark), ("fit", .bool p.fit), ("wrap", .bool p.wrap),
     ("ln", .bool p.lineNumbers), ("textZoom", .float p.textZoom.widen),
     ("imageZoom", .float p.imageZoom.widen), ("theme", .str p.theme.shortName)]

/-- The fields, in the order in which an array lists them. -/
def fieldNames : List String :=
  ["dark", "fit", "wrap", "ln", "textZoom", "imageZoom", "theme"]

/-- A field that need not be there. -/
def field {α : Type} (missing : α) (read : Json → Option α) : Option Json → Option α
  | none => some missing
  | some value => read value

/-- A stored theme; anything but the name of one is the default theme. -/
def lenientTheme (value : Json) : Theme :=
  match value with
  | .str name => (Theme.ofName name).toOption.getD initial.theme
  | _ => initial.theme

/-- The fields as they were stored. -/
def ofJson? (value : Json) : Option Preferences :=
  match value.fields? fieldNames with
  | some [dark, fit, wrap, ln, textZoom, imageZoom, theme] => do
    return {
      dark := ← field initial.dark Json.asBool? dark
      fit := ← field initial.fit Json.asBool? fit
      wrap := ← field initial.wrap Json.asBool? wrap
      lineNumbers := ← field initial.lineNumbers Json.asBool? ln
      textZoom := ← field initial.textZoom Json.asSingle? textZoom
      imageZoom := ← field initial.imageZoom Json.asSingle? imageZoom
      theme := ← field initial.theme (fun v => some (lenientTheme v)) theme }
  | _ => none

/-- A stored zoom; one that is not a positive finite number is 1. -/
def usableZoom (level : Single) : Single :=
  if level.isFinite ∧ .ofNat 0 < level then level else .ofNat 1

/-- Brings stored zooms into their limits. -/
def sanitize (p : Preferences) : Preferences :=
  (p.setTextZoom (usableZoom p.textZoom)).setImageZoom (usableZoom p.imageZoom)

/-- The stored preferences; without readable ones, the defaults. -/
def load {σ : Type} [Store σ] (store : σ) : Preferences :=
  match Store.get store key with
  | .ok (some value) => ((ofJson? value).map sanitize).getD initial
  | _ => initial

/-- Stores the preferences if the store can. -/
def save {σ : Type} [Store σ] (p : Preferences) (store : σ) : σ :=
  (Store.put store key p.toJson).2

end Preferences

end Glance
