/-!
# Tables of settings

The values that a settings file can hold, and the rules by which its lines build one large table. A
table can be defined by a header of its own, by a longer header that leads through it, by a dotted
key, or between braces. Which of these it was decides whether a later line may add to it: a header
may complete a table that so far was only implied, a dotted key may go on with tables that dotted
keys began, a table between braces is complete, and nothing may be defined twice.

Texts, floats and points in time are only checked, not kept.
-/

namespace Glance

/-- How a table came to be. -/
inductive Definition where
  /-- By its own header. -/
  | own
  /-- By a header that leads through it. -/
  | implied
  /-- By a dotted key that leads through it. -/
  | dotted
  /-- Between braces. -/
  | braces
  deriving DecidableEq, Repr

/-- A path that makes missing tables with the definition `made` may lead into a table. Nothing leads
into a table between braces, and a dotted key into no table with a header of its own. -/
def Definition.admits (definition made : Definition) : Bool :=
  match definition with
  | .braces => false
  | .own => made != .dotted
  | .implied | .dotted => true

inductive Toml where
  | str
  | integer (value : Int)
  | float
  | boolean (value : Bool)
  /-- A date, a time or both. -/
  | moment
  | array (items : List Toml)
  | table (definition : Definition) (entries : List (String × Toml))
  /-- Tables under one repeated header: the last one, and those before it, latest first. -/
  | tables (last : List (String × Toml)) (earlier : List (List (String × Toml)))
  deriving Inhabited, Repr

namespace Toml

/-- The entries of a table, in no particular order. -/
abbrev Entries := List (String × Toml)

namespace Entries

def get? (key : String) : Entries → Option Toml
  | [] => none
  | (k, v) :: rest => if k = key then some v else get? key rest

/-- Puts a value under a key, instead of the one that was there. -/
def set (key : String) (value : Toml) : Entries → Entries
  | [] => [(key, value)]
  | (k, v) :: rest => if k = key then (key, value) :: rest else (k, v) :: set key value rest

/-! ## Following a path -/

/-- A change to a table, which may depend on how the table was defined. -/
abbrev Change := Definition → Entries → Option Entries

/-- Changes the table at the end of a path. Tables that are missing on the way are made with the
definition `made`; under a repeated header the last table is meant. -/
def within (made : Definition) (change : Change) :
    List String → Definition → Entries → Option Entries
  | [], definition, entries => change definition entries
  | key :: path, _, entries =>
    match entries.get? key with
    | none => (within made change path made []).map fun inner => entries.set key (.table made inner)
    | some (.table definition inner) =>
      if definition.admits made then
        (within made change path definition inner).map fun inner =>
          entries.set key (.table definition inner)
      else none
    | some (.tables last earlier) =>
      (within made change path .own last).map fun last => entries.set key (.tables last earlier)
    | some _ => none

/-- Puts a new value under a key. A path of dotted keys in front of it must end in a table that
dotted keys began. -/
def put (path : List String) (key : String) (value : Toml) (definition : Definition)
    (entries : Entries) : Option Entries :=
  within .dotted
    (fun definition entries =>
      if path ≠ [] ∧ definition ≠ .dotted then none
      else if (entries.get? key).isSome then none
      else some (entries.set key value))
    path definition entries

/-- Begins the table of a header. -/
def define (path : List String) (key : String) (root : Entries) : Option Entries :=
  within .implied
    (fun _ entries =>
      match entries.get? key with
      | none => some (entries.set key (.table .own []))
      | some (.table .implied inner) => some (entries.set key (.table .own inner))
      | some _ => none)
    path .own root

/-- Begins another table of a repeated header. -/
def append (path : List String) (key : String) (root : Entries) : Option Entries :=
  within .implied
    (fun _ entries =>
      match entries.get? key with
      | none => some (entries.set key (.tables [] []))
      | some (.tables last earlier) => some (entries.set key (.tables [] (last :: earlier)))
      | some _ => none)
    path .own root

end Entries

/-! ## Reading values by type -/

/-- The fields of a record with the given field names. A table names them and may hold others
besides, an array lists them in order; a point in time is a record without any of them. -/
def fields? (names : List String) : Toml → Option (List (Option Toml))
  | .table _ entries => some (names.map (Entries.get? · entries))
  | .array items => some (names.zipIdx.map fun (_, i) => items[i]?)
  | .tables last earlier =>
    let items := (last :: earlier).reverse
    some (names.zipIdx.map fun (_, i) => items[i]?.map (.table .own))
  | .moment => some (names.map fun _ => none)
  | _ => none

/-- A whole number that is not negative. -/
def asNat? : Toml → Option Nat
  | .integer i => if 0 ≤ i then some i.toNat else none
  | _ => none

end Toml

end Glance
