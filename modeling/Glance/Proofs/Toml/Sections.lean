import Glance.Proofs.Toml.Words

/-!
# Sections of a settings file

A header with lines of whole numbers below it is read as one table with the numbers, in their order
(`lines_section`). The names are unquoted, and no name comes twice.
-/

namespace Glance.Toml

variable {name header : String} {key : String} {n most fuel : ℕ} {v w : Toml} {p : Progress}
  {front entries : Entries} {path seen : List String} {rest : List Char}
  {settings : List (String × ℕ)}

/-! ## Entries -/

namespace Entries

theorem get?_append_of_none (absent : front.get? key = none) (entries : Entries) :
    get? key (front ++ entries) = get? key entries := by
  induction front with
  | nil => rfl
  | cons entry front ih =>
    obtain ⟨k, v⟩ := entry
    unfold get? at absent
    split_ifs at absent with same
    show (if k = key then some v else get? key (front ++ entries)) = _
    rw [if_neg same, ih absent]

theorem set_append_of_none (absent : front.get? key = none) (v : Toml) (entries : Entries) :
    set key v (front ++ entries) = front ++ set key v entries := by
  induction front with
  | nil => rfl
  | cons entry front ih =>
    obtain ⟨k, w⟩ := entry
    unfold get? at absent
    split_ifs at absent with same
    show (if k = key then (key, v) :: (front ++ entries)
      else (k, w) :: set key v (front ++ entries)) = _
    rw [if_neg same, ih absent]
    rfl

theorem set_of_none (absent : entries.get? key = none) (v : Toml) :
    set key v entries = entries ++ [(key, v)] := by
  have behind := set_append_of_none absent v []
  rwa [List.append_nil] at behind

theorem get?_last (absent : front.get? key = none) (v : Toml) :
    get? key (front ++ [(key, v)]) = some v := by
  rw [get?_append_of_none absent]
  exact if_pos rfl

theorem set_last (absent : front.get? key = none) (v w : Toml) :
    set key w (front ++ [(key, v)]) = front ++ [(key, w)] := by
  rw [set_append_of_none absent]
  exact congrArg _ (if_pos rfl)

/-- A value with a new name goes to the end of the table of the last header. -/
theorem within_last (absent : front.get? header = none) (new : entries.get? name = none)
    (v : Toml) :
    within .implied (put [] name v) [header] .own (front ++ [(header, .table .own entries)]) =
      some (front ++ [(header, .table .own (entries ++ [(name, v)]))]) := by
  have added : within .implied (put [] name v) [] .own entries = some (entries ++ [(name, v)]) := by
    show (if ([] : List String) ≠ [] ∧ Definition.own ≠ .dotted then none
      else if (entries.get? name).isSome then none else some (entries.set name v)) = _
    rw [if_neg (fun h => h.1 rfl), if_neg (by rw [new]; nofun), set_of_none new]
  rw [within, get?_last absent]
  dsimp only
  rw [if_pos (by decide), added, Option.map_some, set_last absent]

/-- A new header begins a table at the end. -/
theorem define_new (absent : front.get? header = none) :
    define [] header front = some (front ++ [(header, .table .own [])]) := by
  unfold define within
  rw [absent]
  exact congrArg some (set_of_none absent _)

end Entries

/-! ## Names -/

/-- A name that needs no quotes. -/
def IsBareName (name : String) : Prop :=
  name.toList ≠ [] ∧ ∀ c ∈ name.toList, isBare c

instance (name : String) : Decidable (IsBareName name) :=
  decidable_of_iff (name.toList ≠ [] ∧ name.toList.all isBare) (by rw [List.all_eq_true]; rfl)

/-- What follows does not go on with a name. -/
def EndsName (rest : List Char) : Prop :=
  ∀ c ∈ rest.head?, isBare c = false

theorem skipBlank_cons {c : Char} (filled : isBlank c = false) (rest : List Char) :
    skipBlank (c :: rest) = c :: rest := by
  unfold skipBlank
  rw [List.dropWhile_cons_of_neg (by simp [filled])]

theorem isBlank_of_isBare {c : Char} (bare : isBare c) : isBlank c = false := by
  unfold isBlank
  rw [Bool.or_eq_false_iff, beq_eq_false_iff_ne, beq_eq_false_iff_ne]
  constructor <;> rintro rfl <;> exact absurd bare (by decide)

theorem simpleKey_bare (bare : IsBareName name) (ends : EndsName rest) :
    simpleKey (name.toList ++ rest) = some (name, rest) := by
  obtain ⟨filled, bare⟩ := bare
  have stop : rest.takeWhile isBare = [] ∧ rest.dropWhile isBare = rest := by
    cases rest with
    | nil => exact ⟨rfl, rfl⟩
    | cons c rest =>
      have other : ¬ isBare c := by
        rw [ends c rfl]
        nofun
      exact ⟨List.takeWhile_cons_of_neg other, List.dropWhile_cons_of_neg other⟩
  unfold simpleKey
  rw [List.takeWhile_append_of_pos bare, List.dropWhile_append_of_pos bare, stop.1, stop.2,
    List.append_nil]
  split
  · next empty => exact absurd empty filled
  · rw [String.ofList_toList]

/-- A name with no dot behind it is the whole key. -/
theorem key_bare (rest : List Char) (bare : IsBareName name) (ends : EndsName rest)
    (single : (skipBlank rest).head? ≠ some '.') :
    Toml.key (name.toList ++ rest) = some ([], name, skipBlank rest) := by
  have shown : skipBlank (name.toList ++ rest) = name.toList ++ rest := by
    obtain ⟨c, text, split⟩ := List.exists_cons_of_ne_nil bare.1
    rw [split, List.cons_append]
    exact skipBlank_cons (isBlank_of_isBare (bare.2 c (by rw [split]; simp))) _
  have one : dottedFrom [] nestingLimit (name.toList ++ rest) = some ([name], skipBlank rest) := by
    rw [nestingLimit, dottedFrom, shown, simpleKey_bare bare ends]
    dsimp only
    split
    · next split => exact absurd (by rw [split]; rfl) single
    · rfl
  unfold Toml.key
  rw [one]
  rfl

/-! ## Lines -/

/-- A line with a whole number. -/
def settingText (name : String) (n : ℕ) : List Char :=
  name.toList ++ " = ".toList ++ Number.digits n ++ ['\n']

/-- Such lines, one behind the other. -/
def settingsText (settings : List (String × ℕ)) : List Char :=
  settings.flatMap fun (name, n) => settingText name n

/-- A line with the header of a table. -/
def headerText (header : String) : List Char :=
  '[' :: header.toList ++ "]\n".toList

/-- The entries that such lines stand for. -/
def numbers (settings : List (String × ℕ)) : Entries :=
  settings.map fun (name, n) => (name, .integer n)

theorem setting_number (most : ℕ) (bare : IsBareName name) (small : n < 2 ^ 63) (p : Progress)
    (rest : List Char) : setting most p (settingText name n ++ rest) =
      (Entries.within .implied (Entries.put [] name (.integer n)) p.header .own p.root).map
        fun root => (⟨root, p.header⟩, rest) := by
  have text : settingText name n ++ rest =
      name.toList ++ (' ' :: '=' :: ' ' :: (Number.digits n ++ '\n' :: rest)) := by
    simp [settingText]
  have digit : skipBlank (' ' :: (Number.digits n ++ '\n' :: rest)) =
      Number.digits n ++ '\n' :: rest := by
    obtain ⟨c, ds, split⟩ := List.exists_cons_of_ne_nil (digits_ne_nil n)
    have digit : c.isDigit := Json.isDigit_of_mem_digits (by rw [split]; exact .head _)
    have filled : isBlank c = false := by
      unfold isBlank
      rw [Bool.or_eq_false_iff, beq_eq_false_iff_ne, beq_eq_false_iff_ne]
      exact ⟨ne_of_isDigit digit rfl, ne_of_isDigit digit rfl⟩
    rw [split, List.cons_append]
    exact skipBlank_cons filled _
  have bound : binding (value most nestingLimit) (settingText name n ++ rest) =
      some (⟨[], name, .integer n⟩, '\n' :: rest) := by
    have key := key_bare (' ' :: '=' :: ' ' :: (Number.digits n ++ '\n' :: rest)) bare
      (fun c mem => by cases mem; rfl) (by show some '=' ≠ some '.'; decide)
    unfold binding
    rw [text, key]
    show (value most nestingLimit (skipBlank (' ' :: (Number.digits n ++ '\n' :: rest)))).map _ = _
    rw [digit, value_digits most nestingLimit small]
    rfl
  unfold setting
  rw [bound]
  show (Entries.within .implied (Entries.put [] name (.integer n)) p.header .own p.root).bind
    (fun root => some ((⟨root, p.header⟩ : Progress), rest)) = _
  rw [Option.map_eq_bind]
  rfl

/-- A name without quotes begins a line with a setting. -/
theorem line_of_bare (most : ℕ) (p : Progress) (bare : IsBareName name) (rest : List Char) :
    skipBlank (name.toList ++ rest) = name.toList ++ rest ∧
      line most p (name.toList ++ rest) = setting most p (name.toList ++ rest) := by
  obtain ⟨c, text, split⟩ := List.exists_cons_of_ne_nil bare.1
  have first : isBare c := bare.2 c (by rw [split]; exact .head _)
  rw [split, List.cons_append]
  refine ⟨skipBlank_cons (isBlank_of_isBare first) _, ?_⟩
  unfold line
  split
  · next eq => cases eq; exact absurd first (by decide)
  · next eq => cases eq; exact absurd first (by decide)
  · next eq => cases eq; exact absurd first (by decide)
  · next eq => cases eq; exact absurd first (by decide)
  · rfl

theorem lines_setting (bare : IsBareName name) (small : n < 2 ^ 63)
    (absent : front.get? header = none) (new : entries.get? name = none) (rest : List Char) :
    lines most (fuel + 1) ⟨front ++ [(header, .table .own entries)], [header]⟩
        (settingText name n ++ rest) =
      lines most fuel ⟨front ++ [(header, .table .own (entries ++ [(name, .integer n)]))], [header]⟩
        rest := by
  have text : settingText name n ++ rest =
      name.toList ++ (" = ".toList ++ Number.digits n ++ ['\n'] ++ rest) := by
    simp [settingText]
  have filled : settingText name n ++ rest ≠ [] := by simp [settingText]
  obtain ⟨shown, own⟩ := line_of_bare most ⟨front ++ [(header, .table .own entries)], [header]⟩
    bare (" = ".toList ++ Number.digits n ++ ['\n'] ++ rest)
  rw [← text] at shown own
  rw [lines, shown]
  split
  · next empty => exact absurd empty filled
  · rw [own, setting_number most bare small, Entries.within_last absent new]
    rfl

/-- Lines with different names are read one by one into the table of the last header. -/
theorem lines_settings (bare : ∀ s ∈ settings, IsBareName s.1) (small : ∀ s ∈ settings, s.2 < 2 ^ 63)
    (absent : front.get? header = none) (different : (settings.map Prod.fst).Nodup)
    (new : ∀ s ∈ settings, entries.get? s.1 = none) (rest : List Char) :
    lines most (fuel + settings.length) ⟨front ++ [(header, .table .own entries)], [header]⟩
        (settingsText settings ++ rest) =
      lines most fuel ⟨front ++ [(header, .table .own (entries ++ numbers settings))], [header]⟩
        rest := by
  -- Induction over the lines; a name that is added to the table is none of those still to come.
  induction settings generalizing entries with
  | nil => simp [settingsText, numbers]
  | cons s settings ih =>
    obtain ⟨name, n⟩ := s
    obtain ⟨bare', bare⟩ := List.forall_mem_cons.mp bare
    obtain ⟨small', small⟩ := List.forall_mem_cons.mp small
    obtain ⟨new', new⟩ := List.forall_mem_cons.mp new
    obtain ⟨other, different⟩ := List.nodup_cons.mp different
    have text : settingsText ((name, n) :: settings) ++ rest =
        settingText name n ++ (settingsText settings ++ rest) := by
      simp [settingsText]
    have new'' : ∀ s ∈ settings, Entries.get? s.1 (entries ++ [(name, .integer n)]) = none := by
      intro s mem
      have ne : name ≠ s.1 := by
        rintro rfl
        exact other (List.mem_map.mpr ⟨s, mem, rfl⟩)
      rw [Entries.get?_append_of_none (new s mem)]
      exact if_neg ne
    rw [text, List.length_cons, ← Nat.add_assoc, lines_setting bare' small' absent new',
      ih bare small different new'', List.append_assoc]
    rfl

theorem header_bare (named : IsBareName header) (absent : front.get? header = none)
    (rest : List Char) : Toml.header ⟨front, path⟩ (header.toList ++ ']' :: '\n' :: rest) =
      some (⟨front ++ [(header, .table .own [])], [header]⟩, rest) := by
  have key := key_bare (']' :: '\n' :: rest) named (fun c mem => by cases mem; rfl)
    (by show some ']' ≠ some '.'; decide)
  obtain ⟨c, text, split⟩ := List.exists_cons_of_ne_nil named.1
  have first : isBare c := named.2 c (by rw [split]; exact .head _)
  unfold Toml.header
  split
  · next eq =>
    rw [split, List.cons_append] at eq
    cases eq
    exact absurd first (by decide)
  · rw [key]
    show (Entries.define [] header front).bind
      (fun root => some ((⟨root, [header]⟩ : Progress), rest)) = _
    rw [Entries.define_new absent]
    rfl

/-- A header and the lines below it are one table. -/
theorem lines_section (named : IsBareName header) (absent : front.get? header = none)
    (bare : ∀ s ∈ settings, IsBareName s.1) (small : ∀ s ∈ settings, s.2 < 2 ^ 63)
    (different : (settings.map Prod.fst).Nodup) (rest : List Char) :
    lines most (fuel + settings.length + 1) ⟨front, path⟩
        (headerText header ++ (settingsText settings ++ rest)) =
      lines most fuel ⟨front ++ [(header, .table .own (numbers settings))], [header]⟩ rest := by
  have own : lines most (fuel + settings.length + 1) ⟨front, path⟩
      (headerText header ++ (settingsText settings ++ rest)) =
        lines most (fuel + settings.length) ⟨front ++ [(header, .table .own [])], [header]⟩
          (settingsText settings ++ rest) := by
    have text : headerText header ++ (settingsText settings ++ rest) =
        '[' :: (header.toList ++ ']' :: '\n' :: (settingsText settings ++ rest)) := by
      simp [headerText]
    have first : line most ⟨front, path⟩
        ('[' :: (header.toList ++ ']' :: '\n' :: (settingsText settings ++ rest))) =
          some (⟨front ++ [(header, .table .own [])], [header]⟩, settingsText settings ++ rest) :=
      header_bare named absent (settingsText settings ++ rest)
    rw [text, lines, skipBlank_cons rfl]
    dsimp only
    rw [first]
  rw [own, lines_settings bare small absent different (fun _ _ => rfl), List.nil_append]

theorem lines_break (most fuel : ℕ) (p : Progress) (rest : List Char) :
    lines most (fuel + 1) p ('\n' :: rest) = lines most fuel p rest := rfl

theorem lines_nil (most fuel : ℕ) (p : Progress) : lines most (fuel + 1) p [] = some p := rfl

theorem get?_numbers (key : String) (settings : List (String × ℕ)) :
    Entries.get? key (numbers settings) = (settings.lookup key).map fun n => .integer n := by
  induction settings with
  | nil => rfl
  | cons s settings ih =>
    obtain ⟨name, n⟩ := s
    show (if name = key then some (.integer n) else Entries.get? key (numbers settings)) = _
    rw [List.lookup_cons, ih]
    by_cases same : name = key
    · rw [if_pos same, same, beq_self_eq_true]
      rfl
    · rw [if_neg same, beq_eq_false_iff_ne.mpr (Ne.symm same)]

end Glance.Toml
