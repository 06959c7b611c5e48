import Glance.Store

/-!
# Recent files

The files opened last, each once: opening a file again moves it to the front, and the oldest one
leaves when there are more than ten. The first nine have numbers, counted from the most recent.

The list is stored oldest first.
-/

namespace Glance

/-- How a file can be found again. -/
inductive RecentKind where
  /-- By its path. -/
  | path
  /-- By a token that whoever opened it gave out. -/
  | handle
  /-- Not at all; only its name is known. -/
  | name
  deriving DecidableEq, Repr

/-- One remembered file. -/
structure Recent where
  kind : RecentKind
  identifier : String
  label : String
  deriving DecidableEq, Repr

namespace RecentKind

def shortName : RecentKind → String
  | .path => "path"
  | .handle => "handle"
  | .name => "name"

def ofShortName? : String → Option RecentKind
  | "path" => some .path
  | "handle" => some .handle
  | "name" => some .name
  | _ => none

/-- A kind is stored as its name, or as the only key of an object, with nothing under it. -/
def ofJson? : Json → Option RecentKind
  | .str word => ofShortName? word
  | .obj [(word, .null)] => ofShortName? word
  | _ => none

end RecentKind

namespace Recent

def ofPath (path : String) : Recent := ⟨.path, path, path⟩

def ofHandle (token label : String) : Recent := ⟨.handle, token, label⟩

def ofName (name : String) : Recent := ⟨.name, name, name⟩

/-- What a list shows. -/
def displayLabel (r : Recent) : String :=
  if r.label.isEmpty then r.identifier else r.label

/-- Both entries stand for one file. -/
def sameFile (r other : Recent) : Bool :=
  r.kind = other.kind && r.identifier = other.identifier

def toJson (r : Recent) : Json :=
  .object [("type", .str r.kind.shortName), ("value", .str r.identifier), ("label", .str r.label)]

/-- An entry with all its fields, or a bare path. -/
def ofJson? : Json → Option Recent
  | .str path => some (ofPath path)
  | value =>
    match value.fields? ["type", "value", "label"] with
    | some [some kind, some identifier, label] => do
      let kind ← RecentKind.ofJson? kind
      let identifier ← identifier.asString?
      let label ← label.elim (some "") Json.asString?
      return ⟨kind, identifier, label⟩
    | _ => none

end Recent

/-- The recent files, the most recent one first. -/
structure Recents where
  entries : List Recent
  deriving DecidableEq, Repr

namespace Recents

/-- The number of files kept. -/
def capacity : Nat := 10

/-- The number of files that can be asked for by number. -/
def slots : Nat := 9

def empty : Recents := ⟨[]⟩

/-- Remembers a file that was just opened. -/
def push (rs : Recents) (r : Recent) : Recents :=
  ⟨(r :: rs.entries.filter fun other => !other.sameFile r).take capacity⟩

/-- File number `slot`, counted from 1. -/
def inSlot (rs : Recents) (slot : Nat) : Option Recent :=
  if slot = 0 ∨ slots < slot then none else rs.entries[slot - 1]?

def count (rs : Recents) : Nat :=
  rs.entries.length

/-- The list as it looks on a screen, with numbers for the files that can be asked for. -/
def rows (rs : Recents) : List String :=
  rs.entries.zipIdx.map fun (r, i) =>
    if i < slots then (i + 1).repr ++ ": " ++ r.displayLabel else "   " ++ r.displayLabel

/-! ## Storing -/

/-- Where a store keeps the list. -/
def key : String := "recents"

def toJson (rs : Recents) : Json :=
  .arr (rs.entries.reverse.map Recent.toJson)

/-- Opens the stored files once more, oldest first. One bad entry spoils the list. -/
def ofJson? : Json → Option Recents
  | .arr items => (items.mapM Recent.ofJson?).map (·.foldl push empty)
  | _ => none

/-- The stored list; without a readable one, the empty list. -/
def load {σ : Type} [Store σ] (store : σ) : Recents :=
  match Store.get store key with
  | .ok (some value) => (ofJson? value).getD empty
  | _ => empty

/-- Stores the list if the store can. -/
def save {σ : Type} [Store σ] (rs : Recents) (store : σ) : σ :=
  (Store.put store key rs.toJson).2

end Recents

end Glance
