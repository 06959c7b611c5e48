import Glance.Number.Decimal

/-!
# Stored values

The values that settings and state are kept as. Whole numbers stay exact; every other number is a
64-bit float. The members of an object are sorted by key and no key occurs twice, so two objects
with the same members are the same value.
-/

namespace Glance

inductive Json where
  | null
  | bool (value : Bool)
  | int (value : Int)
  | float (value : Number.Double)
  | str (value : String)
  | arr (items : List Json)
  | obj (members : List (String × Json))
  deriving Inhabited, Repr

namespace Json

/-- The members of an object. -/
abbrev Members := List (String × Json)

namespace Members

def get? (key : String) : Members → Option Json
  | [] => none
  | (k, v) :: rest => if k = key then some v else get? key rest

/-- Puts a value in its place among sorted keys, instead of the one that was there. -/
def insert (key : String) (value : Json) : Members → Members
  | [] => [(key, value)]
  | (k, v) :: rest =>
    if k = key then (key, value) :: rest
    else if key < k then (key, value) :: (k, v) :: rest
    else (k, v) :: insert key value rest

/-- The members in the order given; of one key the last value counts. -/
def ofList (members : List (String × Json)) : Members :=
  members.foldl (fun sorted (key, value) => insert key value sorted) []

theorem get?_insert (key other : String) (value : Json) (members : Members) :
    get? other (insert key value members) =
      if key = other then some value else get? other members := by
  induction members with
  | nil => simp [insert, get?]
  | cons m rest ih =>
    obtain ⟨k, v⟩ := m
    unfold insert
    split
    · rename_i h; subst h
      by_cases e : k = other <;> simp [get?, e]
    · split
      · by_cases e : key = other <;> simp [get?, e]
      · rename_i ne _
        by_cases e : k = other
        · subst e
          simp [get?, Ne.symm ne]
        · simp [get?, e, ih]

end Members

/-- An object from its members in any order. -/
def object (members : List (String × Json)) : Json :=
  .obj (Members.ofList members)

/-! ## Reading values by type -/

def asBool? : Json → Option Bool
  | .bool b => some b
  | _ => none

def asString? : Json → Option String
  | .str s => some s
  | _ => none

/-- A number in 32 bits. -/
def asSingle? : Json → Option Number.Single
  | .int i => some (.ofInt i)
  | .float x => some (.ofDouble x)
  | _ => none

/-- The fields of a record with the given field names: an object names them and may hold others
besides, an array lists them in order and may stop early. -/
def fields? (names : List String) : Json → Option (List (Option Json))
  | .obj members => some (names.map (Members.get? · members))
  | .arr items =>
    if names.length < items.length then none
    else some ((items.map some) ++ List.replicate (names.length - items.length) none)
  | _ => none

end Json

end Glance
