import Glance.Proofs.Preferences.Typed

/-!
# Preferences from any object

What a stored object shows for each field, said without the reader: the value that is there or the
default, zooms brought into their limits, and the default theme for everything that names none. A
field of a wrong type costs all the others, and the theme costs nothing (`load_tolerates`). So what
is stored as the theme never shows in another field, and members that are no fields never show at
all.
-/

namespace Glance.Preferences

open Number (Single Double)

/-! ## What fields show -/

/-- The switch that a field shows. -/
inductive Switched (missing : Bool) : Option Json → Bool → Prop
  | absent : Switched missing none missing
  | stored {on : Bool} : Switched missing (some (.bool on)) on

/-- The number that a value is in 32 bits. -/
inductive Numeral : Json → Single → Prop
  | int {i : ℤ} : Numeral (.int i) (.ofInt i)
  | float {x : Double} : Numeral (.float x) (.ofDouble x)

/-- The zoom that is made of a number: 1 if it is not finite, zero or negative, and else the nearest
between the limits. -/
inductive Brought (low high level : Single) : Single → Prop
  | useless (garbage : level.isFinite = false ∨ level ≤ .ofNat 0) : Brought low high level (.ofNat 1)
  | small (pos : .ofNat 0 < level) (lt : level < low) : Brought low high level low
  | large (finite : level.isFinite) (gt : high < level) : Brought low high level high
  | within (ge : low ≤ level) (le : level ≤ high) : Brought low high level level

/-- The zoom that a field shows. -/
inductive Zoomed (missing low high : Single) : Option Json → Single → Prop
  | absent : Zoomed missing low high none missing
  | stored {value : Json} {level zoom : Single} (number : Numeral value level)
      (brought : Brought low high level zoom) : Zoomed missing low high (some value) zoom

/-- The theme that a field shows. -/
inductive Themed : Option Json → Theme → Prop
  | absent : Themed none .classic
  | named {name : String} {theme : Theme} (known : Theme.ofName name = .ok theme) :
    Themed (some (.str name)) theme
  | nameless {value : Json}
      (unknown : ∀ name theme, value = .str name → Theme.ofName name ≠ .ok theme) :
    Themed (some value) .classic

/-- The preferences that an object shows, all its fields having their types. -/
structure Shown (members : Json.Members) (p : Preferences) : Prop where
  dark : Switched initial.dark (members.get? "dark") p.dark
  fit : Switched initial.fit (members.get? "fit") p.fit
  wrap : Switched initial.wrap (members.get? "wrap") p.wrap
  lineNumbers : Switched initial.lineNumbers (members.get? "ln") p.lineNumbers
  textZoom : Zoomed initial.textZoom minTextZoom maxTextZoom (members.get? "textZoom") p.textZoom
  imageZoom :
    Zoomed initial.imageZoom minImageZoom maxImageZoom (members.get? "imageZoom") p.imageZoom
  theme : Themed (members.get? "theme") p.theme

/-- Two objects hold the same under some keys. -/
def AgreeOn (keys : List String) (members members' : Json.Members) : Prop :=
  ∀ key ∈ keys, members'.get? key = members.get? key

theorem agreeOn_insert {keys : List String} {key : String} (foreign : key ∉ keys) (value : Json)
    (members : Json.Members) : AgreeOn keys members (members.insert key value) := by
  intro other mem
  have ne : key ≠ other := by
    rintro rfl
    exact foreign mem
  rw [Json.Members.get?_insert, if_neg ne]

/-! ## Reading one field -/

theorem switched_of_field {missing on : Bool} {value? : Option Json}
    (read : field missing Json.asBool? value? = some on) : Switched missing value? on := by
  cases value? with
  | none =>
    cases read
    exact .absent
  | some value =>
    cases value with
    | bool on =>
      cases read
      exact .stored
    | _ => cases read

theorem numeral_of_asSingle? {value : Json} {level : Single} (read : value.asSingle? = some level) :
    Numeral value level := by
  cases value with
  | int i =>
    cases read
    exact .int
  | float x =>
    cases read
    exact .float
  | _ => cases read

theorem not_isNaN_of_isFinite {level : Single} (finite : level.isFinite) : level.isNaN = false := by
  unfold Single.isFinite at finite
  unfold Single.isNaN
  rw [decide_eq_true_eq] at finite
  rw [decide_eq_false_iff_not]
  omega

/-- Making a number usable and keeping it between limits that 1 lies between. -/
theorem brought_limitZoom {low high : Single} (ge : low ≤ .ofNat 1) (le : .ofNat 1 ≤ high)
    (level : Single) : Brought low high level (limitZoom (usableZoom level) low high) := by
  unfold usableZoom
  split_ifs with usable
  · obtain ⟨finite, pos⟩ := usable
    have num := not_isNaN_of_isFinite finite
    unfold limitZoom Single.clamp
    rw [if_neg (by rw [num]; decide)]
    split_ifs with below above
    · exact .small pos below
    · exact .large finite above
    · refine .within ⟨ge.1, num, ?_⟩ ⟨num, le.2.1, ?_⟩
      · exact not_lt.mp fun lt => below ⟨num, ge.1, lt⟩
      · exact not_lt.mp fun lt => above ⟨le.2.1, num, lt⟩
  · rw [limitZoom_eq_self ge le]
    refine .useless ?_
    by_cases finite : level.isFinite
    · -- A finite number that is not above zero is at most zero.
      have num := not_isNaN_of_isFinite finite
      have zero : (Single.ofNat 0).isNaN = false := by decide +kernel
      exact .inr ⟨num, zero, not_lt.mp fun lt => usable ⟨finite, zero, num, lt⟩⟩
    · exact .inl (Bool.eq_false_iff.mpr finite)

/-- A zoom that was read, behind the making of usable preferences. -/
theorem zoomed_of_field {missing low high level : Single} {value? : Option Json}
    (ge : low ≤ .ofNat 1) (le : .ofNat 1 ≤ high)
    (default : limitZoom (usableZoom missing) low high = missing)
    (read : field missing Json.asSingle? value? = some level) :
    Zoomed missing low high value? (limitZoom (usableZoom level) low high) := by
  cases value? with
  | none =>
    cases read
    rw [default]
    exact .absent
  | some value => exact .stored (numeral_of_asSingle? read) (brought_limitZoom ge le level)

theorem themed_lenientTheme (value : Json) : Themed (some value) (lenientTheme value) := by
  cases value with
  | str name =>
    show Themed _ ((Theme.ofName name).toOption.getD initial.theme)
    cases known : Theme.ofName name with
    | ok theme => exact .named known
    | error cause =>
      refine .nameless fun other theme same => ?_
      cases same
      rw [known]
      nofun
  | _ => exact .nameless nofun

theorem themed_of_field {value? : Option Json} {theme : Theme}
    (read : field initial.theme (fun v => some (lenientTheme v)) value? = some theme) :
    Themed value? theme := by
  cases value? with
  | none =>
    cases read
    exact .absent
  | some value =>
    cases read
    exact themed_lenientTheme value

/-! ## Reading an object -/

variable {members members' : Json.Members} {p : Preferences}

/-- What is read from an object and made usable is what the object shows. -/
theorem shown_sanitize (read : ofJson? (.obj members) = some p) : Shown members p.sanitize := by
  have fields : (Json.obj members).fields? fieldNames = some (fieldNames.map members.get?) := rfl
  unfold ofJson? at read
  rw [fields] at read
  simp only [fieldNames, List.map_cons, List.map_nil, Option.bind_eq_bind,
    Option.bind_eq_some_iff] at read
  obtain ⟨_, dark, _, fit, _, wrap, _, ln, _, text, _, image, _, theme, made⟩ := read
  cases made
  exact {
    dark := switched_of_field dark
    fit := switched_of_field fit
    wrap := switched_of_field wrap
    lineNumbers := switched_of_field ln
    textZoom := zoomed_of_field (by decide +kernel) (by decide +kernel) (by decide +kernel) text
    imageZoom := zoomed_of_field (by decide +kernel) (by decide +kernel) (by decide +kernel) image
    theme := themed_of_field theme }

/-- Objects that agree on the other fields are read alike but for the theme. -/
theorem ofJson?_of_agreeOn (agree : AgreeOn (fieldNames.erase "theme") members members') :
    ∃ theme, ofJson? (.obj members') =
      (ofJson? (.obj members)).map fun p => { p with theme := theme } := by
  have theme (members : Json.Members) : ∃ theme, field initial.theme
      (fun v => some (lenientTheme v)) (members.get? "theme") = some theme := by
    cases members.get? "theme" <;> exact ⟨_, rfl⟩
  obtain ⟨here, read⟩ := theme members
  obtain ⟨there, read'⟩ := theme members'
  refine ⟨there, ?_⟩
  unfold ofJson?
  simp only [Json.fields?, fieldNames, List.map_cons, List.map_nil, read, read',
    agree "dark" (by decide), agree "fit" (by decide), agree "wrap" (by decide),
    agree "ln" (by decide), agree "textZoom" (by decide), agree "imageZoom" (by decide),
    Option.bind_eq_bind, Option.map_bind, Option.bind_some, Function.comp_def]
  rfl

theorem load_obj {σ : Type} [Store σ] {store : σ}
    (get : Store.get store key = .ok (some (.obj members))) :
    load store = ((ofJson? (.obj members)).map sanitize).getD initial := by
  unfold load
  rw [get]

variable {σ τ : Type} [Store σ] [Store τ] {store : σ} {other : τ}

/-- Preferences from a store that holds an object: if the fields have their types, whatever the
theme is, each is what the object shows for it; otherwise all are the defaults. Compared with a
store that holds another object: if the two agree on all fields but the theme, so do the
preferences, and if they agree on the theme too, the preferences are the same. -/
theorem load_tolerates (get : Store.get store key = .ok (some (.obj members)))
    (get' : Store.get other key = .ok (some (.obj members'))) :
    (Typed (.obj members) → Shown members (load store)) ∧
    (¬ Typed (.obj members) → load store = initial) ∧
    (AgreeOn (fieldNames.erase "theme") members members' →
      { load other with theme := (load store).theme } = load store) ∧
    (AgreeOn fieldNames members members' → load other = load store) := by
  rw [load_obj get, load_obj get']
  refine ⟨fun typed => ?_, fun untyped => ?_, fun agree => ?_, fun agree => ?_⟩
  · obtain ⟨p, read⟩ := Option.isSome_iff_exists.mp (isSome_ofJson?_iff.mpr typed)
    rw [read]
    exact shown_sanitize read
  · rw [← isSome_ofJson?_iff, Option.not_isSome_iff_eq_none] at untyped
    rw [untyped]
    rfl
  · obtain ⟨theme, eq⟩ := ofJson?_of_agreeOn agree
    rw [eq]
    cases ofJson? (.obj members) <;> rfl
  · have fields : (Json.obj members').fields? fieldNames = (Json.obj members).fields? fieldNames :=
      congrArg some (List.map_congr_left agree)
    unfold ofJson?
    rw [fields]

/-- A zoom of zero, one that is too large, a theme that is none, and a member that is no field. -/
theorem load_tolerates_garbage :
    let members : Json.Members := [("dark", .bool true), ("imageZoom", .int 50),
      ("textZoom", .int 0), ("theme", .str "solarized")]
    let changed : Json.Members := (members.insert "theme" (.str "Night Owl")).insert "font" .null
    let store : MemoryStore := ⟨[(key, .obj members)]⟩
    let other : MemoryStore := ⟨[(key, .obj changed)]⟩
    Typed (.obj members) ∧ Shown members (load store) ∧
      load store = { initial with dark := true, imageZoom := maxImageZoom } ∧
      AgreeOn (fieldNames.erase "theme") members changed ∧
      load other = { load store with theme := .nightOwl } := by
  intro members changed store other
  have typed : Typed (.obj members) := isSome_ofJson?_iff.mp (by decide +kernel)
  have agree : AgreeOn (fieldNames.erase "theme") members changed := fun key mem =>
    (agreeOn_insert (by decide) _ _ key mem).trans (agreeOn_insert (by decide) _ _ key mem)
  have get : Store.get store key = .ok (some (.obj members)) := rfl
  have get' : Store.get other key = .ok (some (.obj changed)) := rfl
  obtain ⟨shown, -, same, -⟩ := load_tolerates get get'
  refine ⟨typed, shown typed, by decide +kernel, agree, ?_⟩
  have theme : (load other).theme = .nightOwl := by decide +kernel
  rw [← same agree]
  show load other = { load other with theme := .nightOwl }
  rw [← theme]

end Glance.Preferences
