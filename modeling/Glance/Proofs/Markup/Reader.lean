import Glance.Markup
import Mathlib.Data.List.TakeWhile
import Mathlib.Tactic

/-!
# Reading markup

What a reader sees of a markup: its characters from left to right, each under the colour and the
emphasis of the tags around it. Entities stand for one character each, and everything that is no tag
and no entity stands for itself.

Written runs read back as what they hold (`read_write`), because nothing of a text survives escaping
that begins a tag or an entity.
-/

namespace Glance.Markup

/-- A character as a reader sees it. -/
structure Seen where
  char : Char
  color : Option String
  emphasis : Emphasis
  deriving DecidableEq, Repr

/-- What stands at one place of a markup: a colour or an emphasis from here on, or a character. -/
inductive Sign where
  | color (value : Option String)
  | emphasis (value : Emphasis)
  | char (c : Char)
  deriving DecidableEq, Repr

/-- The signs that have one spelling. -/
def fixedSigns : List (List Char × Sign) :=
  [("</span>".toList, .color none),
   ("<mark class=\"match\">".toList, .emphasis .found),
   ("<mark class=\"match current\">".toList, .emphasis .current),
   ("</mark>".toList, .emphasis .unmarked),
   ("&amp;".toList, .char '&'),
   ("&lt;".toList, .char '<'),
   ("&gt;".toList, .char '>')]

/-- A sign of one spelling at the beginning of a markup, and what follows it. -/
def fixedSign? (markup : List Char) : Option (Sign × List Char) :=
  fixedSigns.findSome? fun s => (markup.dropPrefix? s.1).map fun rest => (s.2, rest)

/-- The tag of a colour at the beginning of a markup, and what follows it. -/
def colorSign? (markup : List Char) : Option (Sign × List Char) :=
  (markup.dropPrefix? "<span style=\"color:".toList).bind fun style =>
    ((style.dropWhile (· != '"')).dropPrefix? "\">".toList).map fun rest =>
      (.color (some (String.ofList (style.takeWhile (· != '"')))), rest)

/-- What stands at the beginning of `c :: rest`, and what follows it. -/
def sign (c : Char) (rest : List Char) : Sign × List Char :=
  ((colorSign? (c :: rest)).or (fixedSign? (c :: rest))).getD (.char c, rest)

variable {c : Char} {markup rest after text : List Char} {color : Option String}
  {emphasis : Emphasis}

theorem length_dropPrefix? (h : markup.dropPrefix? text = some rest) :
    rest.length + text.length = markup.length := by
  obtain ⟨pre, rfl, eq⟩ := List.dropPrefix?_eq_some_iff.mp h
  rw [eq_of_beq eq, List.length_append]
  omega

theorem length_colorSign?_lt {s : Sign × List Char} (h : colorSign? markup = some s) :
    s.2.length < markup.length := by
  obtain ⟨style, named, h⟩ := Option.bind_eq_some_iff.mp h
  obtain ⟨rest, closed, rfl⟩ := Option.map_eq_some_iff.mp h
  have behind := length_dropPrefix? named
  have stop := length_dropPrefix? closed
  have value := (List.dropWhile_suffix (l := style) (· != '"')).length_le
  have pos : 0 < "\">".toList.length := by simp
  show rest.length < markup.length
  omega

theorem length_fixedSign?_lt {s : Sign × List Char} (h : fixedSign? markup = some s) :
    s.2.length < markup.length := by
  obtain ⟨text, mem, h⟩ := List.exists_of_findSome?_eq_some h
  obtain ⟨rest, found, rfl⟩ := Option.map_eq_some_iff.mp h
  have behind := length_dropPrefix? found
  have pos : ∀ text ∈ fixedSigns, 0 < text.1.length := by decide
  have := pos text mem
  show rest.length < markup.length
  omega

theorem length_sign_le (c : Char) (rest : List Char) : (sign c rest).2.length ≤ rest.length := by
  unfold sign
  cases eq : (colorSign? (c :: rest)).or (fixedSign? (c :: rest)) with
  | none => exact le_rfl
  | some s =>
    refine Nat.le_of_lt_succ ?_
    rcases Option.or_eq_some_iff.mp eq with h | ⟨-, h⟩
    · exact length_colorSign?_lt h
    · exact length_fixedSign?_lt h

/-- The characters of a markup, which begins under a colour and an emphasis. -/
def read (color : Option String) (emphasis : Emphasis) : List Char → List Seen
  | [] => []
  | c :: rest =>
    let s := sign c rest
    match s.1 with
    | .color value => read value emphasis s.2
    | .emphasis value => read color value s.2
    | .char c => ⟨c, color, emphasis⟩ :: read color emphasis s.2
  termination_by markup => markup.length
  decreasing_by
    all_goals
      have := length_sign_le c rest
      rw [List.length_cons]
      omega

/-! ## Signs -/

/-- No fixed sign begins like another one, so a sign is recognized whatever follows it. -/
theorem fixedSign?_append {s : Sign} (mem : (text, s) ∈ fixedSigns) (rest : List Char) :
    fixedSign? (text ++ rest) = some (s, rest) := by
  have apart : ∀ a ∈ fixedSigns, ∀ b ∈ fixedSigns, a.1 <+: b.1 → a = b := by decide
  obtain ⟨earlier, later, split, first⟩ := List.eq_append_cons_of_mem mem
  refine List.findSome?_eq_some_iff.mpr ⟨earlier, (text, s), later, split, ?_, ?_⟩
  · rw [List.dropPrefix?_append_of_beq rest BEq.rfl]
    rfl
  · intro other known
    have listed : other ∈ fixedSigns := by
      rw [split]
      exact List.mem_append_left _ known
    by_contra some
    obtain ⟨found, eq⟩ := Option.ne_none_iff_exists'.mp some
    obtain ⟨tail, eq, -⟩ := Option.map_eq_some_iff.mp eq
    obtain ⟨pre, split', same⟩ := List.dropPrefix?_eq_some_iff.mp eq
    rw [eq_of_beq same] at split'
    have here : other.1 <+: text ++ rest := ⟨tail, split'.symm⟩
    have same : other = (text, s) := by
      rcases List.prefix_or_prefix_of_prefix here (List.prefix_append text rest) with h | h
      · exact apart _ listed _ mem h
      · exact (apart _ mem _ listed h).symm
    exact first (same ▸ known)

/-- Only `<s` can begin the tag of a colour. -/
theorem colorSign?_of_not_prefix (h : ¬ ['<', 's'] <+: markup) : colorSign? markup = none := by
  have eq : "<span style=\"color:".toList = ['<', 's'] ++ "pan style=\"color:".toList := rfl
  unfold colorSign?
  rw [Option.bind_eq_none_iff]
  intro style found
  obtain ⟨pre, rfl, same⟩ := List.dropPrefix?_eq_some_iff.mp found
  rw [eq_of_beq same, eq, List.append_assoc] at h
  exact absurd (List.prefix_append _ _) h

theorem sign_of_mem {s : Sign} (mem : (c :: text, s) ∈ fixedSigns) (rest : List Char) :
    sign c (text ++ rest) = (s, rest) := by
  have color : ¬ ['<', 's'] <+: c :: (text ++ rest) := by
    intro h
    have long : ∀ s ∈ fixedSigns, 2 ≤ s.1.length ∧ ¬ ['<', 's'] <+: s.1 := by decide
    obtain ⟨length, clear⟩ := long _ mem
    exact clear (List.prefix_of_prefix_length_le h (List.prefix_append (c :: text) rest) length)
  rw [sign, colorSign?_of_not_prefix color, ← List.cons_append, fixedSign?_append mem]
  rfl

/-- The tag of a colour ends at the first quote behind it. -/
theorem colorSign?_append {value : String} (clear : '"' ∉ value.toList) (rest : List Char) :
    colorSign? (openColor value ++ rest) = some (.color (some value), rest) := by
  have inside : ∀ c ∈ value.toList, (c != '"') = true := by
    intro c mem
    rw [bne_iff_ne]
    rintro rfl
    exact clear mem
  have stop : "\">".toList ++ rest = '"' :: '>' :: rest := rfl
  have ends : (value.toList ++ ("\">".toList ++ rest)).dropWhile (· != '"') =
      "\">".toList ++ rest := by
    rw [List.dropWhile_append_of_pos inside, stop]
    rfl
  have named : (value.toList ++ ("\">".toList ++ rest)).takeWhile (· != '"') =
      value.toList := by
    rw [List.takeWhile_append_of_pos inside, stop]
    exact List.append_nil _
  unfold colorSign? openColor
  rw [List.append_assoc, List.append_assoc, List.dropPrefix?_append_of_beq _ BEq.rfl,
    Option.bind_some, ends, List.dropPrefix?_append_of_beq _ BEq.rfl, Option.map_some, named,
    String.ofList_toList]

/-- A character that begins no sign stands for itself. -/
theorem sign_other (tag : c ≠ '<') (entity : c ≠ '&') (rest : List Char) :
    sign c rest = (.char c, rest) := by
  have color : ¬ ['<', 's'] <+: c :: rest := fun h => tag (List.cons_prefix_cons.mp h).1.symm
  have fixed : fixedSign? (c :: rest) = none := by
    have begins : ∀ s ∈ fixedSigns, s.1.head? = some '<' ∨ s.1.head? = some '&' := by decide
    refine List.findSome?_eq_none_iff.mpr fun s mem => ?_
    rw [Option.map_eq_none_iff]
    by_contra some
    obtain ⟨tail, eq⟩ := Option.ne_none_iff_exists'.mp some
    obtain ⟨pre, split, same⟩ := List.dropPrefix?_eq_some_iff.mp eq
    rw [eq_of_beq same] at split
    have first := begins s mem
    cases text : s.1 with
    | nil => simp [text] at first
    | cons d tail' =>
      rw [text] at split first
      obtain ⟨rfl, -⟩ := List.cons.inj split
      simp [tag, entity] at first
  rw [sign, colorSign?_of_not_prefix color, fixed]
  rfl

/-! ## Reading what was written -/

/-- Reading goes on behind a sign, with what it says. -/
theorem read_append_of_mem {s : Sign} (mem : (text, s) ∈ fixedSigns) (rest : List Char) :
    read color emphasis (text ++ rest) =
      match s with
      | .color value => read value emphasis rest
      | .emphasis value => read color value rest
      | .char c => ⟨c, color, emphasis⟩ :: read color emphasis rest := by
  have filled : ∀ s ∈ fixedSigns, s.1 ≠ [] := by decide
  obtain ⟨c, text, rfl⟩ := List.exists_cons_of_ne_nil (filled _ mem)
  rw [List.cons_append, read, sign_of_mem mem]
  cases s <;> rfl

theorem read_openColor {value : String} (clear : '"' ∉ value.toList) (rest : List Char) :
    read color emphasis (openColor value ++ rest) = read (some value) emphasis rest := by
  have split : openColor value ++ rest = '<' :: ("span style=\"color:".toList ++
      value.toList ++ "\">".toList ++ rest) := rfl
  have here : sign '<' ("span style=\"color:".toList ++ value.toList ++ "\">".toList ++ rest) =
      (.color (some value), rest) := by
    rw [sign, ← split, colorSign?_append clear]
    rfl
  rw [split, read, here]

theorem read_closeColor (rest : List Char) :
    read color emphasis (closeColor ++ rest) = read none emphasis rest :=
  read_append_of_mem (s := .color none) (by decide) rest

theorem read_escapeChar (c : Char) (rest : List Char) :
    read color emphasis (escapeChar c ++ rest) =
      ⟨c, color, emphasis⟩ :: read color emphasis rest := by
  unfold escapeChar
  split
  · exact read_append_of_mem (s := .char '&') (by decide) rest
  · exact read_append_of_mem (s := .char '<') (by decide) rest
  · exact read_append_of_mem (s := .char '>') (by decide) rest
  · next entity tag _ =>
    rw [List.singleton_append, read, sign_other tag entity]

theorem read_escape (text rest : List Char) :
    read color emphasis (escape text ++ rest) =
      (text.map fun c => ⟨c, color, emphasis⟩) ++ read color emphasis rest := by
  unfold escape
  induction text with
  | nil => rfl
  | cons c text ih =>
    rw [List.flatMap_cons, List.append_assoc, read_escapeChar, ih]
    rfl

/-- What a reader sees of a fragment under a colour. -/
def Fragment.seen (color : Option String) (f : Fragment) : List Seen :=
  f.text.map fun c => ⟨c, color, f.emphasis⟩

/-- What a reader sees of a run. -/
def Run.seen (run : Run) : List Seen :=
  run.fragments.flatMap (Fragment.seen run.color)

theorem read_openTag (emphasis : Emphasis) (rest : List Char) :
    read color .unmarked (emphasis.openTag ++ rest) = read color emphasis rest := by
  cases emphasis with
  | unmarked => rfl
  | found => exact read_append_of_mem (s := .emphasis .found) (by decide) rest
  | current => exact read_append_of_mem (s := .emphasis .current) (by decide) rest

theorem read_closeTag (emphasis : Emphasis) (rest : List Char) :
    read color emphasis (emphasis.closeTag ++ rest) = read color .unmarked rest := by
  cases emphasis with
  | unmarked => rfl
  | found => exact read_append_of_mem (s := .emphasis .unmarked) (by decide) rest
  | current => exact read_append_of_mem (s := .emphasis .unmarked) (by decide) rest

/-- The colour of the run can stand in a tag, on one line. -/
def Run.Plain (run : Run) : Prop :=
  ∀ color ∈ run.color, '"' ∉ color.toList ∧ '\n' ∉ color.toList

theorem read_fragment (f : Fragment) (rest : List Char) :
    read color .unmarked (f.write ++ rest) = f.seen color ++ read color .unmarked rest := by
  unfold Fragment.write Fragment.seen
  rw [List.append_assoc, List.append_assoc, read_openTag, read_escape, read_closeTag]

theorem read_fragments (fragments : List Fragment) (rest : List Char) :
    read color .unmarked (fragments.flatMap Fragment.write ++ rest) =
      fragments.flatMap (Fragment.seen color) ++ read color .unmarked rest := by
  induction fragments with
  | nil => rfl
  | cons f fragments ih =>
    rw [List.flatMap_cons, List.append_assoc, read_fragment, ih, List.flatMap_cons,
      List.append_assoc]

theorem read_run {run : Run} (plain : run.Plain) (rest : List Char) :
    read none .unmarked (run.write ++ rest) = run.seen ++ read none .unmarked rest := by
  obtain ⟨color, fragments⟩ := run
  cases color with
  | none => exact read_fragments fragments rest
  | some color =>
    show read none .unmarked
      (openColor color ++ fragments.flatMap Fragment.write ++ closeColor ++ rest) = _
    rw [List.append_assoc, List.append_assoc, read_openColor (plain color rfl).1, read_fragments,
      read_closeColor]
    rfl

/-- Reading gives back what was written. -/
theorem read_write {runs : List Run} (plain : ∀ run ∈ runs, run.Plain) :
    read none .unmarked (write runs) = runs.flatMap Run.seen := by
  induction runs with
  | nil => rw [write, List.flatMap_nil, List.flatMap_nil, read]
  | cons run runs ih =>
    obtain ⟨here, behind⟩ := List.forall_mem_cons.mp plain
    show read none .unmarked (run.write ++ write runs) = _
    rw [read_run here, ih behind, List.flatMap_cons]

/-! ## Line feeds -/

theorem newline_mem_escape (h : '\n' ∈ escape text) : '\n' ∈ text := by
  obtain ⟨c, mem, h⟩ := List.mem_flatMap.mp h
  unfold escapeChar at h
  split at h
  · exact absurd h (by decide)
  · exact absurd h (by decide)
  · exact absurd h (by decide)
  · rwa [List.mem_singleton.mp h]

theorem newline_not_mem_tag (emphasis : Emphasis) :
    '\n' ∉ emphasis.openTag ∧ '\n' ∉ emphasis.closeTag := by
  cases emphasis <;> decide

theorem newline_mem_fragment {f : Fragment} (h : '\n' ∈ f.write) : '\n' ∈ f.text := by
  obtain ⟨opens, closes⟩ := newline_not_mem_tag f.emphasis
  rcases List.mem_append.mp h with h | h
  · rcases List.mem_append.mp h with h | h
    · exact absurd h opens
    · exact newline_mem_escape h
  · exact absurd h closes

/-- What is written without line feeds is one line of markup. -/
theorem newline_not_mem_write {runs : List Run} (plain : ∀ run ∈ runs, run.Plain)
    (chars : ∀ s ∈ runs.flatMap Run.seen, s.char ≠ '\n') : '\n' ∉ write runs := by
  intro h
  obtain ⟨⟨color, fragments⟩, mem, h⟩ := List.mem_flatMap.mp h
  have inside : '\n' ∉ fragments.flatMap Fragment.write := by
    intro h
    obtain ⟨f, mem', h⟩ := List.mem_flatMap.mp h
    refine chars ⟨'\n', color, f.emphasis⟩ (List.mem_flatMap.mpr ⟨_, mem, ?_⟩) rfl
    refine List.mem_flatMap.mpr ⟨f, mem', ?_⟩
    exact List.mem_map_of_mem (newline_mem_fragment h)
  cases color with
  | none => exact inside h
  | some color =>
    have tags : '\n' ∉ openColor color ∧ '\n' ∉ closeColor := by
      refine ⟨fun h => ?_, by decide⟩
      rcases List.mem_append.mp h with h | h
      · rcases List.mem_append.mp h with h | h
        · exact absurd h (by decide)
        · exact (plain _ mem color rfl).2 h
      · exact absurd h (by decide)
    rcases List.mem_append.mp h with h | h
    · rcases List.mem_append.mp h with h | h
      · exact tags.1 h
      · exact inside h
    · exact tags.2 h

end Glance.Markup
