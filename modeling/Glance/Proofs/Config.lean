import Glance.Config
import Glance.Proofs.Text.Utf8
import Glance.Proofs.Toml.Sections

/-!
# Reading limits back

A settings file is read back as it was written, and so it is when some of its limits are taken out
of it: those have their usual values then (`Config.ofBytes_writeOnly`).
-/

namespace Glance.Config

open Toml (settingText settingsText headerText numbers IsBareName)

/-! ## Limits one by one -/

inductive Field where
  | fileBytes
  | textureBytes
  | coloredChars
  | largeBytes
  | largeLines
  deriving DecidableEq

namespace Field

instance : Fintype Field :=
  .ofList [.fileBytes, .textureBytes, .coloredChars, .largeBytes, .largeLines]
    fun f => by cases f <;> decide

def name : Field → String
  | .fileBytes => "max_file_size_bytes"
  | .textureBytes => "max_image_texture_bytes"
  | .coloredChars => "max_highlight_chars"
  | .largeBytes => "large_text_bytes"
  | .largeLines => "large_text_lines"

def of (c : Config) : Field → ℕ
  | .fileBytes => c.files.maxFileBytes
  | .textureBytes => c.files.maxTextureBytes
  | .coloredChars => c.text.maxColoredChars
  | .largeBytes => c.text.largeBytes
  | .largeLines => c.text.largeLines

/-- The line of a limit in a settings file. -/
def line (c : Config) (f : Field) : List Char :=
  f.name.toList ++ " = ".toList ++ Number.digits (f.of c)

/-- The limits under each of the two headers. -/
def ofFiles : List Field := [.fileBytes, .textureBytes]

def ofText : List Field := [.coloredChars, .largeBytes, .largeLines]

end Field

variable {c c' : Config} {f g : Field} {kept : Field → Bool} {fields : List Field}
  {files text : List (String × ℕ)}

theorem isStorable_iff : c.isStorable ↔ ∀ f : Field, f.of c ≤ 2 ^ 63 - 1 := by
  unfold isStorable
  simp only [List.all_eq_true, decide_eq_true_eq, List.forall_mem_cons, List.not_mem_nil,
    false_imp_iff, implies_true, and_true]
  constructor
  · rintro ⟨file, texture, chars, bytes, lines⟩ f
    cases f <;> assumption
  · exact fun small => ⟨small .fileBytes, small .textureBytes, small .coloredChars,
      small .largeBytes, small .largeLines⟩

/-- The line of a limit that is not kept. -/
def IsDropped (c : Config) (kept : Field → Bool) (line : List Char) : Prop :=
  ∃ f : Field, kept f = false ∧ line = f.line c

instance (c : Config) (kept : Field → Bool) (line : List Char) :
    Decidable (IsDropped c kept line) :=
  inferInstanceAs (Decidable (∃ f : Field, kept f = false ∧ line = f.line c))

/-- The text of the file without the lines of the limits that are not kept. -/
def writeOnly (c : Config) (kept : Field → Bool) : List Char :=
  ['\n'].intercalate ((c.write.splitOn '\n').filter (¬ IsDropped c kept ·))

/-- The limits with the usual ones in place of those that are not kept. -/
def keeping (c : Config) (kept : Field → Bool) : Config :=
  let limit (f : Field) : ℕ := if kept f then f.of c else f.of initial
  { files := { maxFileBytes := limit .fileBytes, maxTextureBytes := limit .textureBytes }
    text := { maxColoredChars := limit .coloredChars, largeBytes := limit .largeBytes,
              largeLines := limit .largeLines } }

/-! ## Lines -/

theorem name_injective : f.name = g.name → f = g := by
  revert f g
  decide

theorem isBareName_name (f : Field) : IsBareName f.name := by
  revert f
  decide

/-- A line begins with the name of its limit. -/
theorem takeWhile_line (c : Config) (f : Field) :
    (f.line c).takeWhile (· ≠ ' ') = f.name.toList := by
  have blankless : ∀ f : Field, f.name.toList.all (· ≠ ' ') := by decide
  unfold Field.line
  rw [List.append_assoc, List.takeWhile_append_of_pos (List.all_eq_true.mp (blankless f))]
  exact List.append_nil _

theorem line_injective (same : f.line c = g.line c') : f = g := by
  have names := congrArg (List.takeWhile fun d => decide (d ≠ ' ')) same
  rw [takeWhile_line, takeWhile_line] at names
  exact name_injective (String.toList_injective names)

theorem isDropped_line_iff : IsDropped c kept (f.line c) ↔ kept f = false := by
  constructor
  · rintro ⟨g, dropped, same⟩
    rwa [line_injective same]
  · exact fun dropped => ⟨f, dropped, rfl⟩

theorem not_isDropped {line : List Char}
    (nameless : ∀ f : Field, f.name.toList ≠ line.takeWhile (· ≠ ' ')) :
    ¬ IsDropped c kept line := by
  rintro ⟨f, -, rfl⟩
  exact nameless f (takeWhile_line c f).symm

/-- The lines of a file with some of its limits, without line breaks. -/
def linesOf (c : Config) (kept : Field → Bool) : List (List Char) :=
  "[files]".toList :: (Field.ofFiles.filter kept).map (Field.line c) ++
    [] :: "[highlight]".toList :: (Field.ofText.filter kept).map (Field.line c)

theorem intercalate_concat_nil (lines : List (List Char)) :
    ['\n'].intercalate (lines ++ [[]]) = lines.flatMap (· ++ ['\n']) := by
  induction lines with
  | nil => rfl
  | cons line lines ih =>
    rw [List.cons_append, List.intercalate_cons_of_ne_nil (by simp), ih, List.flatMap_cons]

theorem write_eq (c : Config) :
    c.write = ['\n'].intercalate (c.linesOf (fun _ => true) ++ [[]]) := by
  have first : "[files]\n".toList = "[files]".toList ++ ['\n'] := rfl
  have second : "\n[highlight]\n".toList = ['\n'] ++ "[highlight]".toList ++ ['\n'] := rfl
  rw [intercalate_concat_nil]
  unfold write writeLimit linesOf Field.ofFiles Field.ofText Field.line
  rw [first, second]
  simp only [List.filter_cons_of_pos, List.filter_nil, List.map_cons, List.map_nil,
    List.flatMap_append, List.flatMap_cons, List.flatMap_nil, List.append_assoc, List.append_nil,
    List.nil_append, Field.name, Field.of]

theorem breakless (c : Config) (kept : Field → Bool) :
    ∀ line ∈ c.linesOf kept ++ [[]], '\n' ∉ line := by
  have names : ∀ f : Field, '\n' ∉ f.name.toList := by decide
  have plain (f : Field) : '\n' ∉ f.line c := by
    unfold Field.line
    simp only [List.mem_append, not_or]
    refine ⟨⟨names f, by decide⟩, fun mem => ?_⟩
    exact absurd (Json.isDigit_of_mem_digits mem) (by decide)
  have all (fields : List Field) : ∀ line ∈ fields.map (Field.line c), '\n' ∉ line :=
    List.forall_mem_map.mpr fun f _ => plain f
  unfold linesOf
  simp only [List.forall_mem_append, List.forall_mem_cons]
  exact ⟨⟨⟨by decide, all _⟩, by decide, by decide, all _⟩, by decide, nofun⟩

theorem filter_lines (c : Config) (kept : Field → Bool) (fields : List Field) :
    (fields.map (Field.line c)).filter (¬ IsDropped c kept ·) =
      (fields.filter kept).map (Field.line c) := by
  rw [List.filter_map]
  congr 1
  refine List.filter_congr fun f _ => ?_
  show decide (¬ IsDropped c kept (f.line c)) = kept f
  simp only [isDropped_line_iff, Bool.not_eq_false, Bool.decide_eq_true]

theorem filter_cons_line {line : List Char} (own : ¬ IsDropped c kept line)
    (lines : List (List Char)) : (line :: lines).filter (¬ IsDropped c kept ·) =
      line :: lines.filter (¬ IsDropped c kept ·) :=
  List.filter_cons_of_pos (decide_eq_true own)

/-- Only lines of limits are taken out. -/
theorem writeOnly_eq (c : Config) (kept : Field → Bool) :
    c.writeOnly kept = (c.linesOf kept).flatMap (· ++ ['\n']) := by
  have files : ¬ IsDropped c kept "[files]".toList := not_isDropped (by decide)
  have text : ¬ IsDropped c kept "[highlight]".toList := not_isDropped (by decide)
  have nothing : ¬ IsDropped c kept [] := not_isDropped (by decide)
  have all (fields : List Field) : fields.filter (fun _ => true) = fields :=
    List.filter_eq_self.mpr fun _ _ => rfl
  unfold writeOnly
  rw [write_eq, List.splitOn_intercalate _ (breakless c _)
    (List.append_ne_nil_of_right_ne_nil _ (List.cons_ne_nil _ _)), ← intercalate_concat_nil]
  unfold linesOf
  rw [all, all, List.filter_append, List.filter_append, filter_cons_line files, filter_lines,
    filter_cons_line nothing, filter_cons_line text, filter_lines, filter_cons_line nothing]
  rfl

theorem writeOnly_all (c : Config) : c.writeOnly (fun _ => true) = c.write := by
  rw [writeOnly_eq, write_eq, intercalate_concat_nil]

/-! ## Two sections -/

/-- What the limits under a header stand for. -/
def settings (c : Config) (fields : List Field) : List (String × ℕ) :=
  fields.map fun f => (f.name, f.of c)

theorem settingsText_settings (c : Config) (fields : List Field) :
    settingsText (c.settings fields) = (fields.map (Field.line c)).flatMap (· ++ ['\n']) := by
  unfold settingsText settings
  rw [List.flatMap_map, List.flatMap_map]
  rfl

theorem writeOnly_sections (c : Config) (kept : Field → Bool) : c.writeOnly kept =
    headerText "files" ++ (settingsText (c.settings (Field.ofFiles.filter kept)) ++
      '\n' :: (headerText "highlight" ++
        (settingsText (c.settings (Field.ofText.filter kept)) ++ []))) := by
  rw [writeOnly_eq, settingsText_settings, settingsText_settings, List.append_nil]
  unfold linesOf headerText
  simp only [List.flatMap_append, List.flatMap_cons, List.append_assoc, List.nil_append]
  rfl

theorem length_settings_le (settings : List (String × ℕ)) :
    settings.length ≤ (settingsText settings).length := by
  induction settings with
  | nil => exact Nat.le_refl 0
  | cons s settings ih =>
    obtain ⟨name, n⟩ := s
    show settings.length + 1 ≤ (settingText name n ++ settingsText settings).length
    rw [List.length_append]
    have filled : 1 ≤ (settingText name n).length := by
      unfold settingText
      rw [List.length_append]
      exact Nat.le_add_left 1 _
    omega

section Sections

variable (bare : ∀ s ∈ files, IsBareName s.1) (small : ∀ s ∈ files, s.2 < 2 ^ 63)
  (different : (files.map Prod.fst).Nodup) (bare' : ∀ s ∈ text, IsBareName s.1)
  (small' : ∀ s ∈ text, s.2 < 2 ^ 63) (different' : (text.map Prod.fst).Nodup)

include bare small different bare' small' different'

theorem parse_sections :
    Toml.parse (headerText "files" ++ (settingsText files ++
        '\n' :: (headerText "highlight" ++ (settingsText text ++ [])))) =
      some (.table .own [("files", .table .own (numbers files)),
        ("highlight", .table .own (numbers text))]) := by
  generalize whole : headerText "files" ++ (settingsText files ++
    '\n' :: (headerText "highlight" ++ (settingsText text ++ []))) = written
  have first : written.head? = some '[' := by rw [← whole]; rfl
  -- Every line takes one character at least, so there is fuel for all of them.
  obtain ⟨fuel, enough⟩ : ∃ fuel, written.length + 1 =
      fuel + 1 + text.length + 1 + 1 + files.length + 1 := by
    have le := length_settings_le files
    have le' := length_settings_le text
    refine ⟨written.length - text.length - files.length - 3, ?_⟩
    rw [← whole]
    simp only [List.length_append, List.length_cons, headerText, List.length_nil]
    omega
  unfold Toml.parse
  dsimp only
  rw [first, if_neg (by decide), enough]
  nth_rewrite 2 [← whole]
  rw [Toml.lines_section (by decide) rfl bare small different, Toml.lines_break,
    Toml.lines_section (by decide) rfl bare' small' different', Toml.lines_nil]
  rfl

end Sections

/-! ## Limits by name -/

/-- A number is read where it is, and the usual limit where none is. -/
theorem limit_numbers (missing : ℕ) (key : String) (settings : List (String × ℕ)) :
    limit missing (Toml.Entries.get? key (numbers settings)) =
      some ((settings.lookup key).getD missing) := by
  rw [Toml.get?_numbers]
  cases settings.lookup key with
  | none => rfl
  | some n =>
    show (if (0 : ℤ) ≤ (n : ℤ) then some (n : ℤ).toNat else none) = _
    rw [if_pos (Int.natCast_nonneg n), Int.toNat_natCast]
    rfl

/-- A limit by its name, or the usual one. -/
def found (settings : List (String × ℕ)) (f : Field) : ℕ :=
  (settings.lookup f.name).getD (f.of initial)

theorem filesOfToml?_numbers (settings : List (String × ℕ)) :
    filesOfToml? (.table .own (numbers settings)) =
      some ⟨found settings .fileBytes, found settings .textureBytes⟩ := by
  show (limit _ (Toml.Entries.get? _ (numbers settings))).bind (fun file =>
    (limit _ (Toml.Entries.get? _ (numbers settings))).bind fun texture =>
      some (⟨file, texture⟩ : FileLimits)) = _
  rw [limit_numbers, limit_numbers]
  rfl

theorem textOfToml?_numbers (settings : List (String × ℕ)) :
    textOfToml? (.table .own (numbers settings)) = some ⟨found settings .coloredChars,
      found settings .largeBytes, found settings .largeLines⟩ := by
  show (limit _ (Toml.Entries.get? _ (numbers settings))).bind (fun chars =>
    (limit _ (Toml.Entries.get? _ (numbers settings))).bind fun bytes =>
      (limit _ (Toml.Entries.get? _ (numbers settings))).bind fun lines =>
        some (⟨chars, bytes, lines⟩ : TextLimits)) = _
  rw [limit_numbers, limit_numbers, limit_numbers]
  rfl

theorem ofToml?_sections (files text : List (String × ℕ)) :
    ofToml? (.table .own [("files", .table .own (numbers files)),
      ("highlight", .table .own (numbers text))]) =
      some ⟨⟨found files .fileBytes, found files .textureBytes⟩,
        ⟨found text .coloredChars, found text .largeBytes, found text .largeLines⟩⟩ := by
  show (filesOfToml? (.table .own (numbers files))).bind (fun files =>
    (textOfToml? (.table .own (numbers text))).bind fun text =>
      some (⟨files, text⟩ : Config)) = _
  rw [filesOfToml?_numbers, textOfToml?_numbers]
  rfl

/-- A limit is found under its name if it is there. -/
theorem lookup_settings (c : Config) (f : Field) (fields : List Field) :
    (c.settings fields).lookup f.name = if f ∈ fields then some (f.of c) else none := by
  induction fields with
  | nil => rfl
  | cons g fields ih =>
    show List.lookup f.name ((g.name, g.of c) :: c.settings fields) = _
    by_cases same : f = g
    · rw [same, List.lookup_cons_self, if_pos (.head _)]
    · have other : (f.name == g.name) = false :=
        beq_eq_false_iff_ne.mpr fun names => same (name_injective names)
      rw [List.lookup_cons, other]
      simp only [ih, List.mem_cons, same, false_or]

theorem found_settings (c : Config) (kept : Field → Bool) (mem : f ∈ fields) :
    found (c.settings (fields.filter kept)) f = if kept f then f.of c else f.of initial := by
  unfold found
  rw [lookup_settings]
  simp only [List.mem_filter, mem, true_and]
  cases kept f <;> rfl

/-- The limits that are kept are read back, and the others have their usual values. -/
theorem ofBytes_writeOnly (storable : c.isStorable) (kept : Field → Bool) :
    ofBytes (Text.utf8 (c.writeOnly kept)) = .ok (c.keeping kept) := by
  have small (f : Field) : f.of c < 2 ^ 63 := by
    have le := isStorable_iff.mp storable f
    omega
  have bare (fields : List Field) : ∀ s ∈ c.settings fields, IsBareName s.1 :=
    List.forall_mem_map.mpr fun f _ => isBareName_name f
  have fits (fields : List Field) : ∀ s ∈ c.settings fields, s.2 < 2 ^ 63 :=
    List.forall_mem_map.mpr fun f _ => small f
  have different {fields : List Field} (once : fields.Nodup) :
      ((c.settings (fields.filter kept)).map Prod.fst).Nodup := by
    unfold settings
    rw [List.map_map]
    exact (once.filter _).map fun f g names => name_injective names
  have parsed := parse_sections (bare _) (fits _) (different (by decide : Field.ofFiles.Nodup))
    (bare _) (fits _) (different (by decide : Field.ofText.Nodup))
  unfold ofBytes
  rw [Text.decode?_utf8, writeOnly_sections]
  dsimp only
  rw [parsed, Option.bind_some, ofToml?_sections]
  dsimp only
  rw [found_settings c kept (by decide : Field.fileBytes ∈ Field.ofFiles),
    found_settings c kept (by decide : Field.textureBytes ∈ Field.ofFiles),
    found_settings c kept (by decide : Field.coloredChars ∈ Field.ofText),
    found_settings c kept (by decide : Field.largeBytes ∈ Field.ofText),
    found_settings c kept (by decide : Field.largeLines ∈ Field.ofText)]
  rfl

end Glance.Config
