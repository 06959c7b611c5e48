import Glance.Proofs.Preferences

/-!
# Typed preferences

What a stored value must look like for preferences to be read from it, said field by field: the
switches are truth values, the zooms are numbers, and each of them may be missing. The theme may be
anything.
-/

namespace Glance.Preferences

/-- A field is missing or a truth value. -/
def Switch (value? : Option Json) : Prop :=
  ∀ value ∈ value?, ∃ on, value = .bool on

/-- A field is missing or a number. -/
def Level (value? : Option Json) : Prop :=
  ∀ value ∈ value?, (∃ i, value = .int i) ∨ ∃ x, value = .float x

/-- The fields have their types, whatever the theme is. An object may have other members too; an
array has no items behind the fields. -/
inductive Typed : Json → Prop
  | object {members : Json.Members} (dark : Switch (members.get? "dark"))
      (fit : Switch (members.get? "fit")) (wrap : Switch (members.get? "wrap"))
      (lineNumbers : Switch (members.get? "ln")) (textZoom : Level (members.get? "textZoom"))
      (imageZoom : Level (members.get? "imageZoom")) : Typed (.obj members)
  | array {items : List Json} (short : items.length ≤ 7) (switches : ∀ i < 4, Switch items[i]?)
      (levels : ∀ i, i = 4 ∨ i = 5 → Level items[i]?) : Typed (.arr items)

theorem isSome_field_switch (missing : Bool) (value? : Option Json) :
    (field missing Json.asBool? value?).isSome ↔ Switch value? := by
  cases value? with
  | none => simp [field, Switch]
  | some value => cases value <;> simp [field, Switch, Json.asBool?]

theorem isSome_field_level (missing : Number.Single) (value? : Option Json) :
    (field missing Json.asSingle? value?).isSome ↔ Level value? := by
  cases value? with
  | none => simp [field, Level]
  | some value => cases value <;> simp [field, Level, Json.asSingle?]

/-- Reading the fields succeeds if reading each of them does; the theme is always read. -/
theorem isSome_ofJson?_of_fields {value : Json} {dark fit wrap ln textZoom imageZoom theme}
    (fields : value.fields? fieldNames =
      some [dark, fit, wrap, ln, textZoom, imageZoom, theme]) :
    (ofJson? value).isSome ↔ Switch dark ∧ Switch fit ∧ Switch wrap ∧ Switch ln ∧
      Level textZoom ∧ Level imageZoom := by
  have anyTheme : ∃ t, field initial.theme (fun v => some (lenientTheme v)) theme = some t := by
    cases theme <;> exact ⟨_, rfl⟩
  obtain ⟨t, read⟩ := anyTheme
  rw [← isSome_field_switch initial.dark, ← isSome_field_switch initial.fit,
    ← isSome_field_switch initial.wrap, ← isSome_field_switch initial.lineNumbers,
    ← isSome_field_level initial.textZoom, ← isSome_field_level initial.imageZoom]
  unfold ofJson?
  simp only [fields, read, Option.isSome_iff_exists]
  constructor
  · rintro ⟨p, all⟩
    simp only [Option.bind_eq_bind, Option.bind_eq_some_iff] at all
    obtain ⟨_, dark, _, fit, _, wrap, _, ln, _, text, _, image, -⟩ := all
    exact ⟨⟨_, dark⟩, ⟨_, fit⟩, ⟨_, wrap⟩, ⟨_, ln⟩, ⟨_, text⟩, ⟨_, image⟩⟩
  · rintro ⟨⟨_, dark⟩, ⟨_, fit⟩, ⟨_, wrap⟩, ⟨_, ln⟩, ⟨_, text⟩, ⟨_, image⟩⟩
    simp [dark, fit, wrap, ln, text, image]

theorem fields_array {items : List Json} (short : items.length ≤ 7) :
    (Json.arr items).fields? fieldNames =
      some [items[0]?, items[1]?, items[2]?, items[3]?, items[4]?, items[5]?, items[6]?] := by
  match items with
  | [] | [_] | [_, _] | [_, _, _] | [_, _, _, _] | [_, _, _, _, _] | [_, _, _, _, _, _]
  | [_, _, _, _, _, _, _] => rfl
  | _ :: _ :: _ :: _ :: _ :: _ :: _ :: _ :: rest => simp at short; omega

/-- Preferences are read from exactly the values whose fields have their types. -/
theorem isSome_ofJson?_iff {value : Json} : (ofJson? value).isSome ↔ Typed value := by
  constructor
  · intro read
    cases value with
    | obj members =>
      obtain ⟨dark, fit, wrap, ln, textZoom, imageZoom⟩ := (isSome_ofJson?_of_fields rfl).mp read
      exact .object dark fit wrap ln textZoom imageZoom
    | arr items =>
      have short : items.length ≤ 7 := by
        by_contra long
        have fields : (Json.arr items).fields? fieldNames = none := if_pos (not_le.mp long)
        simp [ofJson?, fields] at read
      obtain ⟨dark, fit, wrap, ln, textZoom, imageZoom⟩ :=
        (isSome_ofJson?_of_fields (fields_array short)).mp read
      refine .array short (fun i lt => ?_) ?_
      · interval_cases i <;> assumption
      · rintro i (rfl | rfl) <;> assumption
    | _ => cases read
  · intro typed
    cases typed with
    | object dark fit wrap ln textZoom imageZoom =>
      exact (isSome_ofJson?_of_fields rfl).mpr ⟨dark, fit, wrap, ln, textZoom, imageZoom⟩
    | array short switches levels =>
      rw [isSome_ofJson?_of_fields (fields_array short)]
      exact ⟨switches 0 (by decide), switches 1 (by decide), switches 2 (by decide),
        switches 3 (by decide), levels 4 (.inl rfl), levels 5 (.inr rfl)⟩

variable {σ : Type} [Store σ] {store : σ}

/-- Without typed preferences in the store there are the defaults. -/
theorem load_eq_initial (useless : ∀ value, Store.get store key = .ok (some value) →
    ¬ Typed value) : load store = initial := by
  unfold load
  split
  · next value get =>
    have unread := useless value get
    rw [← isSome_ofJson?_iff, Option.not_isSome_iff_eq_none] at unread
    rw [unread]
    rfl
  · rfl

end Glance.Preferences
