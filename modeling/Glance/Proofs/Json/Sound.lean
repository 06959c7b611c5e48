import Glance.Proofs.Json.Floats
import Glance.Proofs.Json.Members

/-!
# Sound values

What a value must be to be kept: whole numbers that fit, finite floats, members in order. Such a
value is read back from its text as itself but for its floats (`reread`), unless more containers are
nested in it than the reader follows (`nesting`).
-/

namespace Glance.Json

open Number (Double)

/-- A value as it is kept: every whole number fits its word, every float is finite and all members
are sorted. -/
inductive Sound : Json → Prop
  | null : Sound .null
  | bool {b : Bool} : Sound (.bool b)
  | int {i : ℤ} : FitsWord i → Sound (.int i)
  | float {x : Double} : x.Finite → Sound (.float x)
  | str {s : String} : Sound (.str s)
  | arr {items : List Json} : (∀ v ∈ items, Sound v) → Sound (.arr items)
  | obj {members : Members} :
    members.Sorted → (∀ m ∈ members, Sound m.2) → Sound (.obj members)

/-- The floats in the value, if there are any, have few digits. -/
inductive Brief : Json → Prop
  | null : Brief .null
  | bool {b : Bool} : Brief (.bool b)
  | int {i : ℤ} : Brief (.int i)
  | float {x : Double} : x.Finite → FewDigits x → Brief (.float x)
  | str {s : String} : Brief (.str s)
  | arr {items : List Json} : (∀ v ∈ items, Brief v) → Brief (.arr items)
  | obj {members : Members} : (∀ m ∈ members, Brief m.2) → Brief (.obj members)

/-- There are no floats in the value. -/
inductive Whole : Json → Prop
  | null : Whole .null
  | bool {b : Bool} : Whole (.bool b)
  | int {i : ℤ} : Whole (.int i)
  | str {s : String} : Whole (.str s)
  | arr {items : List Json} : (∀ v ∈ items, Whole v) → Whole (.arr items)
  | obj {members : Members} : (∀ m ∈ members, Whole m.2) → Whole (.obj members)

variable {depth : ℕ} {v : Json} {vs : List Json} {ms : Members} {key : String}

theorem Sound.object {members : List (String × Json)} (each : ∀ m ∈ members, Sound m.2) :
    Sound (Json.object members) :=
  .obj (Members.sorted_ofList members) fun m mem => each m (Members.mem_of_mem_ofList mem)

/-! ## Nested containers -/

mutual

/-- How many containers are nested in a value, itself counted. -/
def nesting : Json → ℕ
  | .arr items => nestingItems items + 1
  | .obj members => nestingMembers members + 1
  | _ => 0

def nestingItems : List Json → ℕ
  | [] => 0
  | item :: items => max (nesting item) (nestingItems items)

def nestingMembers : List (String × Json) → ℕ
  | [] => 0
  | (_, value) :: members => max (nesting value) (nestingMembers members)

end

theorem nestingItems_le_iff : nestingItems vs ≤ depth ↔ ∀ v ∈ vs, v.nesting ≤ depth := by
  induction vs with
  | nil => simp [nestingItems]
  | cons v vs ih => simp [nestingItems, ih]

theorem nestingMembers_le_iff : nestingMembers ms ≤ depth ↔ ∀ m ∈ ms, m.2.nesting ≤ depth := by
  induction ms with
  | nil => simp [nestingMembers]
  | cons m ms ih => simp [nestingMembers, ih]

theorem nesting_arr_le_iff : (arr vs).nesting ≤ depth + 1 ↔ ∀ v ∈ vs, v.nesting ≤ depth := by
  rw [nesting, Nat.add_le_add_iff_right, nestingItems_le_iff]

theorem nesting_obj_le_iff : (obj ms).nesting ≤ depth + 1 ↔ ∀ m ∈ ms, m.2.nesting ≤ depth := by
  rw [nesting, Nat.add_le_add_iff_right, nestingMembers_le_iff]

/-! ## Floats read back -/

mutual

/-- The value with every float as it is read back. -/
def reread : Json → Json
  | .float x => .float (rereadFloat x)
  | .arr items => .arr (rereadItems items)
  | .obj members => .obj (rereadMembers members)
  | v => v

def rereadItems : List Json → List Json
  | [] => []
  | item :: items => reread item :: rereadItems items

def rereadMembers : Members → Members
  | [] => []
  | (key, value) :: members => (key, reread value) :: rereadMembers members

end

theorem rereadItems_eq (vs : List Json) : rereadItems vs = vs.map reread := by
  induction vs with
  | nil => rfl
  | cons v vs ih => rw [rereadItems, ih, List.map_cons]

theorem rereadMembers_eq (ms : Members) : rereadMembers ms = ms.map (Prod.map id reread) := by
  induction ms with
  | nil => rfl
  | cons m ms ih =>
    rw [rereadMembers, ih, List.map_cons]
    rfl

theorem get?_rereadMembers (ms : Members) (key : String) :
    (rereadMembers ms).get? key = (ms.get? key).map reread := by
  induction ms with
  | nil => rfl
  | cons m ms ih =>
    rw [rereadMembers, Members.get?, Members.get?, ih]
    split_ifs <;> rfl

theorem sorted_rereadMembers (sorted : ms.Sorted) : (rereadMembers ms).Sorted := by
  rw [rereadMembers_eq]
  exact List.pairwise_map.mpr sorted

/-- With few digits a value is read back as it is. -/
theorem Brief.reread_eq (brief : Brief v) : v.reread = v := by
  induction brief with
  | null | bool | int | str => rfl
  | float finite few => rw [reread, few.rereadFloat_eq finite]
  | arr _ ih => rw [reread, rereadItems_eq, List.map_congr_left ih, List.map_id']
  | @obj members _ ih =>
    have same : ∀ m ∈ members, m.map id Json.reread = m := fun m mem => Prod.ext rfl (ih m mem)
    rw [reread, rereadMembers_eq, List.map_congr_left same, List.map_id']

end Glance.Json
