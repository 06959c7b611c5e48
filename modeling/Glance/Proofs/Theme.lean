import Glance.Theme
import Mathlib

/-!
# Themes by name

A theme is found by its short name and by its display name, without regard to letter case, spaces
and dashes. Other signs between the letters and digits are passed over as well, so a theme is found
by exactly the names that are one of its own when those signs are taken out (`ofName_reads`).
-/

namespace Glance.Theme

/-- The characters that the names of themes are written with. -/
def isNameChar (c : Char) : Bool :=
  c.isAlphanum || c == ' ' || c == '-'

/-- A name without all other characters. -/
def legible (name : String) : String :=
  String.ofList (name.toList.filter isNameChar)

/-- A name without spaces and dashes, its ASCII letters small. -/
def plain (name : String) : List Char :=
  (name.toList.filter fun c => c != ' ' && c != '-').map Char.toLower

/-- The short or the display name of the theme, apart from spaces, dashes and letter case. -/
def Named (theme : Theme) (name : String) : Prop :=
  plain name = plain theme.shortName ∨ plain name = plain theme.displayName

instance (theme : Theme) (name : String) : Decidable (theme.Named name) :=
  inferInstanceAs (Decidable (_ ∨ _))

variable {theme : Theme} {name : String} {c : Char}

/-! ## Names -/

theorem mem_all (theme : Theme) : theme ∈ all := by
  cases theme <;> decide

/-- The names of different themes differ. -/
theorem nodup_names : (all.map fun theme => squash theme.shortName).Nodup := by
  decide

theorem squash_injective {theme theme' : Theme}
    (same : squash theme.shortName = squash theme'.shortName) : theme = theme' :=
  List.inj_on_of_nodup_map nodup_names (mem_all theme) (mem_all theme') same

theorem plain_names (theme : Theme) :
    plain theme.shortName = squash theme.shortName ∧
      plain theme.displayName = squash theme.shortName := by
  cases theme <;> decide

theorem named_iff : theme.Named name ↔ plain name = squash theme.shortName := by
  unfold Named
  rw [(plain_names theme).1, (plain_names theme).2, or_self]

theorem plain_legible (name : String) : plain (legible name) = squash name := by
  unfold plain legible squash
  rw [String.toList_ofList, List.filter_filter]
  refine congrArg (List.map Char.toLower) (List.filter_congr fun c _ => ?_)
  unfold isNameChar
  by_cases space : c = ' '
  · rw [space]
    rfl
  by_cases dash : c = '-'
  · rw [dash]
    rfl
  rw [bne_iff_ne.mpr space, bne_iff_ne.mpr dash, beq_eq_false_iff_ne.mpr space,
    beq_eq_false_iff_ne.mpr dash, Bool.or_false, Bool.or_false, Bool.true_and, Bool.true_and]

theorem legible_eq_iff : legible name = name ↔ ∀ c ∈ name.toList, isNameChar c := by
  unfold legible
  rw [← String.toList_inj, String.toList_ofList, List.filter_eq_self]

theorem isAlphanum_of_mem_squash (mem : c ∈ squash name) : c.isAlphanum := by
  obtain ⟨d, kept, rfl⟩ := List.mem_map.mp mem
  have here : d.isAlphanum := (List.mem_filter.mp kept).2
  by_cases upper : d.isUpper
  · have letter : d.toLower.isAlpha := by
      rw [Char.isAlpha_toLower_eq_isAlpha, Char.isAlpha, upper, Bool.true_or]
    rw [Char.isAlphanum, letter, Bool.true_or]
  · rwa [Char.toLower_eq_of_not_isUpper upper]

theorem isAlphanum_of_toLower (small : c.toLower.isAlphanum) : c.isAlphanum := by
  by_cases upper : c.isUpper
  · rw [Char.isAlphanum, Char.isAlpha, upper, Bool.true_or, Bool.true_or]
  · rwa [Char.toLower_eq_of_not_isUpper upper] at small

/-- Apart from spaces and dashes there are only letters and digits in the names of a theme. -/
theorem Named.legible_eq (named : theme.Named name) : legible name = name := by
  rw [named_iff] at named
  refine legible_eq_iff.mpr fun c mem => ?_
  unfold isNameChar
  by_cases gap : c = ' ' ∨ c = '-'
  · rcases gap with rfl | rfl <;> rfl
  · have kept : c.toLower ∈ plain name :=
      List.mem_map_of_mem (List.mem_filter.mpr ⟨mem, by simpa [not_or] using gap⟩)
    rw [named] at kept
    rw [isAlphanum_of_toLower (isAlphanum_of_mem_squash kept), Bool.true_or, Bool.true_or]

/-! ## Searching -/

theorem ofName_eq_ok_iff : ofName name = .ok theme ↔ squash theme.shortName = squash name := by
  unfold ofName
  cases found : all.find? fun theme => squash theme.shortName == squash name with
  | none =>
    have other := List.find?_eq_none.mp found theme (mem_all theme)
    exact ⟨nofun, fun same => absurd (beq_iff_eq.mpr same) other⟩
  | some first =>
    have here := List.find?_some found
    rw [beq_iff_eq] at here
    constructor
    · rintro ⟨⟩
      exact here
    · intro same
      rw [squash_injective (same.trans here.symm)]

theorem ofName_cases (name : String) :
    (∃ theme, ofName name = .ok theme) ∨ ofName name = .error (.unknownTheme name) := by
  unfold ofName
  split
  · exact .inl ⟨_, rfl⟩
  · exact .inr rfl

theorem ofName_eq_ok_iff_named : ofName name = .ok theme ↔ theme.Named (legible name) := by
  rw [ofName_eq_ok_iff, named_iff, plain_legible, eq_comm]

/-- A name is that of the theme whose own name is left when all signs but spaces and dashes are
taken out of it. -/
theorem ofName_reads (name : String) :
    (∀ theme, ofName name = .ok theme ↔ theme.Named (legible name)) ∧
      (ofName name = .error (.unknownTheme name) ↔ ∀ theme : Theme, ¬ theme.Named (legible name)) ∧
      (∀ theme : Theme, theme.Named name ↔ ofName name = .ok theme ∧ legible name = name) ∧
      (∀ theme theme' : Theme, theme.Named name → theme'.Named name → theme = theme') ∧
      ∀ theme : Theme, ofName theme.shortName = .ok theme ∧ ofName theme.displayName = .ok theme := by
  have found (theme : Theme) {name : String} (named : theme.Named name) :
      ofName name = .ok theme := by
    rwa [ofName_eq_ok_iff_named, named.legible_eq]
  refine ⟨fun theme => ofName_eq_ok_iff_named, ⟨fun unknown theme named => ?_, fun other => ?_⟩,
    fun theme => ⟨fun named => ⟨found theme named, named.legible_eq⟩, ?_⟩,
    fun theme theme' named named' => ?_,
    fun theme => ⟨found theme (.inl rfl), found theme (.inr rfl)⟩⟩
  · rw [ofName_eq_ok_iff_named.mpr named] at unknown
    cases unknown
  · obtain ⟨theme, ok⟩ | unknown := ofName_cases name
    · exact absurd (ofName_eq_ok_iff_named.mp ok) (other theme)
    · exact unknown
  · rintro ⟨ok, same⟩
    rwa [ofName_eq_ok_iff_named, same] at ok
  · rw [named_iff] at named named'
    exact squash_injective (named.symm.trans named')

/-- Underscores are passed over, though no theme is named with them. -/
theorem ofName_underscores :
    ofName "shades_of_purple" = .ok .shadesOfPurple ∧
      ∀ theme : Theme, ¬ theme.Named "shades_of_purple" := by
  refine ⟨by decide, fun theme => ?_⟩
  cases theme <;> decide

end Glance.Theme
