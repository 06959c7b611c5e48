import Glance.Proofs.Recents

/-!
# Stored recent files

The values that stand for a recent file (`Recent.Stored`), and the list that is loaded from an array
of them: its files pushed one by one, in the order in which they are stored.
-/

namespace Glance

/-- A kind is written as its name, or as the only key of an object with nothing under it. -/
inductive RecentKind.Written : Json → RecentKind → Prop
  | name (kind : RecentKind) : Written (.str kind.shortName) kind
  | key (kind : RecentKind) : Written (.obj [(kind.shortName, .null)]) kind

/-- A recent file is stored as a bare path, as an object with its fields and perhaps others, or as
the array of its fields. The label may be missing. -/
inductive Recent.Stored : Json → Recent → Prop
  | bare (path : String) : Stored (.str path) ⟨.path, path, path⟩
  | object {members : Json.Members} {kindValue : Json} {kind : RecentKind} {identifier : String}
      {label? : Option String} (written : RecentKind.Written kindValue kind)
      (kind_eq : members.get? "type" = some kindValue)
      (identifier_eq : members.get? "value" = some (.str identifier))
      (label_eq : members.get? "label" = label?.map .str) :
      Stored (.obj members) ⟨kind, identifier, label?.getD ""⟩
  | array {kindValue : Json} {kind : RecentKind} (identifier : String) (label? : Option String)
      (written : RecentKind.Written kindValue kind) :
      Stored (.arr (kindValue :: .str identifier :: (label?.map .str).toList))
        ⟨kind, identifier, label?.getD ""⟩

theorem RecentKind.ofShortName?_eq_some_iff {word : String} {kind : RecentKind} :
    ofShortName? word = some kind ↔ word = kind.shortName := by
  constructor
  · intro h
    unfold ofShortName? at h
    split at h <;> cases h <;> rfl
  · rintro rfl
    cases kind <;> rfl

theorem RecentKind.ofJson?_eq_some_iff {value : Json} {kind : RecentKind} :
    ofJson? value = some kind ↔ Written value kind := by
  constructor
  · intro h
    unfold ofJson? at h
    split at h
    · rw [ofShortName?_eq_some_iff.mp h]
      exact .name kind
    · rw [ofShortName?_eq_some_iff.mp h]
      exact .key kind
    · cases h
  · intro written
    cases written with
    | name => exact ofShortName?_eq_some_iff.mpr rfl
    | key => exact ofShortName?_eq_some_iff.mpr rfl

theorem Json.asString?_eq_some_iff {value : Json} {text : String} :
    value.asString? = some text ↔ value = .str text := by
  cases value <;> simp [asString?]

/-- The fields of a recent file, read one by one. -/
def Recent.ofFields? (kindValue identifierValue : Json) (labelValue : Option Json) :
    Option Recent := do
  let kind ← RecentKind.ofJson? kindValue
  let identifier ← identifierValue.asString?
  let label ← labelValue.elim (some "") Json.asString?
  return ⟨kind, identifier, label⟩

theorem Recent.ofFields?_eq_some_iff {kindValue identifierValue : Json} {labelValue : Option Json}
    {r : Recent} : ofFields? kindValue identifierValue labelValue = some r ↔
      ∃ kind identifier label?, RecentKind.Written kindValue kind ∧
        identifierValue = .str identifier ∧ labelValue = Option.map .str label? ∧
        r = ⟨kind, identifier, label?.getD ""⟩ := by
  have label : ∀ text, labelValue.elim (some "") Json.asString? = some text ↔
      ∃ label?, labelValue = Option.map Json.str label? ∧ text = label?.getD "" := by
    intro text
    cases labelValue with
    | none =>
      constructor
      · rintro h
        cases h
        exact ⟨none, rfl, rfl⟩
      · rintro ⟨label?, h, rfl⟩
        cases label? with
        | none => rfl
        | some => cases h
    | some value =>
      rw [Option.elim_some, Json.asString?_eq_some_iff]
      constructor
      · rintro rfl
        exact ⟨some text, rfl, rfl⟩
      · rintro ⟨label?, h, rfl⟩
        cases label? with
        | none => cases h
        | some => exact Option.some.inj h
  unfold ofFields?
  simp only [Option.bind_eq_bind, Option.bind_eq_some_iff, RecentKind.ofJson?_eq_some_iff,
    Json.asString?_eq_some_iff, label, Option.pure_def, Option.some.injEq]
  constructor
  · rintro ⟨kind, written, identifier, rfl, -, ⟨label?, rfl, rfl⟩, rfl⟩
    exact ⟨kind, identifier, label?, written, rfl, rfl, rfl⟩
  · rintro ⟨kind, identifier, label?, written, rfl, rfl, rfl⟩
    exact ⟨kind, written, identifier, rfl, _, ⟨label?, rfl, rfl⟩, rfl⟩

theorem Recent.ofJson?_obj (members : Json.Members) :
    ofJson? (.obj members) = (members.get? "type").bind fun kindValue =>
      (members.get? "value").bind fun identifierValue =>
        ofFields? kindValue identifierValue (members.get? "label") := by
  unfold ofJson? Json.fields?
  simp only [List.map_cons, List.map_nil]
  cases members.get? "type" <;> cases members.get? "value" <;> rfl

theorem Recent.ofJson?_arr (items : List Json) :
    ofJson? (.arr items) = match items with
      | [kindValue, identifierValue] => ofFields? kindValue identifierValue none
      | [kindValue, identifierValue, labelValue] =>
        ofFields? kindValue identifierValue (some labelValue)
      | _ => none := by
  match items with
  | [] | [_] | [_, _] | [_, _, _] => rfl
  | _ :: _ :: _ :: _ :: rest =>
    unfold ofJson? Json.fields?
    simp

/-- Reading accepts exactly what a recent file is stored as. -/
theorem Recent.ofJson?_eq_some_iff {item : Json} {r : Recent} :
    ofJson? item = some r ↔ Stored item r := by
  constructor
  · intro h
    cases item with
    | str path =>
      cases h
      exact .bare path
    | obj members =>
      rw [ofJson?_obj] at h
      obtain ⟨kindValue, kind_eq, h⟩ := Option.bind_eq_some_iff.mp h
      obtain ⟨identifierValue, identifier_eq, h⟩ := Option.bind_eq_some_iff.mp h
      obtain ⟨kind, identifier, label?, written, rfl, label_eq, rfl⟩ := ofFields?_eq_some_iff.mp h
      exact .object written kind_eq identifier_eq label_eq
    | arr items =>
      rw [ofJson?_arr] at h
      split at h
      · obtain ⟨kind, identifier, label?, written, rfl, label_eq, rfl⟩ :=
          ofFields?_eq_some_iff.mp h
        obtain rfl := Option.map_eq_none_iff.mp label_eq.symm
        exact .array identifier none written
      · obtain ⟨kind, identifier, label?, written, rfl, label_eq, rfl⟩ :=
          ofFields?_eq_some_iff.mp h
        obtain ⟨label, rfl, rfl⟩ := Option.map_eq_some_iff.mp label_eq.symm
        exact .array identifier (some label) written
      · cases h
    | _ => cases h
  · intro stored
    cases stored with
    | bare path => rfl
    | object written kind_eq identifier_eq label_eq =>
      rw [ofJson?_obj, kind_eq, identifier_eq, Option.bind_some, Option.bind_some]
      exact ofFields?_eq_some_iff.mpr ⟨_, _, _, written, rfl, label_eq, rfl⟩
    | array identifier label? written =>
      rw [ofJson?_arr]
      cases label? with
      | none => exact ofFields?_eq_some_iff.mpr ⟨_, _, none, written, rfl, rfl, rfl⟩
      | some label => exact ofFields?_eq_some_iff.mpr ⟨_, _, some label, written, rfl, rfl, rfl⟩

namespace Recents

theorem mapM_ofJson?_of_stored {items : List Json} {files : List Recent}
    (stored : List.Forall₂ Recent.Stored items files) :
    items.mapM Recent.ofJson? = some files := by
  induction stored with
  | nil => rfl
  | cons here _ ih => simp [Recent.ofJson?_eq_some_iff.mpr here, ih]

theorem stored_of_mapM_ofJson? {items : List Json} {files : List Recent}
    (read : items.mapM Recent.ofJson? = some files) : List.Forall₂ Recent.Stored items files := by
  induction items generalizing files with
  | nil =>
    obtain rfl := Option.some.inj read
    exact .nil
  | cons item items ih =>
    rw [List.mapM_cons] at read
    obtain ⟨file, here, read⟩ := Option.bind_eq_some_iff.mp read
    obtain ⟨others, there, read⟩ := Option.bind_eq_some_iff.mp read
    obtain rfl := Option.some.inj read
    exact .cons (Recent.ofJson?_eq_some_iff.mp here) (ih there)

/-- The stored files are pushed once more, in the order in which they are stored. -/
theorem load_of_stored {σ : Type} [Store σ] {store : σ} {items : List Json} {files : List Recent}
    (get : Store.get store key = .ok (some (.arr items)))
    (stored : List.Forall₂ Recent.Stored items files) : load store = files.foldl push empty := by
  unfold load
  rw [get]
  simp only [ofJson?, mapM_ofJson?_of_stored stored, Option.map_some, Option.getD_some]

/-- Without an array of recent files in the store there are none. -/
theorem load_eq_empty {σ : Type} [Store σ] {store : σ}
    (useless : ∀ items files, Store.get store key = .ok (some (.arr items)) →
      ¬ List.Forall₂ Recent.Stored items files) : load store = empty := by
  unfold load
  split
  · next value get =>
    cases read : ofJson? value with
    | none => rfl
    | some rs =>
      unfold ofJson? at read
      split at read
      · obtain ⟨files, stored, -⟩ := Option.map_eq_some_iff.mp read
        exact absurd (stored_of_mapM_ofJson? stored) (useless _ _ get)
      · cases read
  · rfl

end Recents

end Glance
