import Glance.Proofs.Markup.Tags

/-!
# A markup without its tags

Removing what stands between `<` and `>`, and after it undoing the entities, leaves what the runs
show (`plainText_write`). The entity of `&` comes last: undone first, it would complete the other
two in a text that looks escaped already.
-/

namespace Glance.Markup

/-- A text without its tags. It begins inside one or not. -/
def stripTags : (inTag : Bool) → List Char → List Char
  | _, [] => []
  | inTag, c :: rest =>
    if c = '<' then stripTags true rest
    else if c = '>' then stripTags false rest
    else if inTag then stripTags true rest
    else c :: stripTags false rest

/-- A text with `d` in place of each occurrence of a pattern, found from the left and apart from
each other. The first `wait` characters belong to the last one found. -/
def replaceAll (pattern : List Char) (d : Char) : (wait : ℕ) → List Char → List Char
  | _, [] => []
  | wait + 1, _ :: rest => replaceAll pattern d wait rest
  | 0, c :: rest =>
    if pattern.isPrefixOf (c :: rest) then d :: replaceAll pattern d (pattern.length - 1) rest
    else c :: replaceAll pattern d 0 rest

/-- The text without its entities. -/
def unescape (text : List Char) : List Char :=
  replaceAll (escapeChar '&') '&' 0
    (replaceAll (escapeChar '>') '>' 0 (replaceAll (escapeChar '<') '<' 0 text))

/-- The markup without its tags and entities. -/
def plainText (markup : List Char) : List Char :=
  unescape (stripTags false markup)

variable {theme : Theme} {text rest pattern : List Char} {c d : Char} {wait : ℕ}
  {runs : List Run} {undone : List Char} {emphasis : Emphasis}

/-! ## Through a markup -/

/-- What goes through a markup fragment by fragment and passes over the tags of colours. -/
theorem foldr_write {α : Type} {g : List Char → α} {add : Fragment → α → α}
    (fragment : ∀ f rest, g (f.write ++ rest) = add f (g rest))
    (opens : ∀ kind color, theme.color kind = some color →
      ∀ rest, g (openColor color ++ rest) = g rest)
    (closes : ∀ rest, g (closeColor ++ rest) = g rest)
    (colored : ∀ run ∈ runs, ∀ color ∈ run.color, ∃ kind, theme.color kind = some color) :
    g (write runs) = (runs.flatMap Run.fragments).foldr add (g []) := by
  have inside (fragments : List Fragment) (rest : List Char) :
      g (fragments.flatMap Fragment.write ++ rest) = fragments.foldr add (g rest) := by
    induction fragments with
    | nil => rfl
    | cons f fragments ih =>
      rw [List.flatMap_cons, List.append_assoc, fragment, ih, List.foldr_cons]
  induction runs with
  | nil => rfl
  | cons run runs ih =>
    obtain ⟨here, behind⟩ := List.forall_mem_cons.mp colored
    obtain ⟨color, fragments⟩ := run
    rw [List.flatMap_cons, List.foldr_append, ← ih behind, ← inside]
    cases color with
    | none => rfl
    | some color =>
      obtain ⟨kind, known⟩ := here color rfl
      show g (openColor color ++ fragments.flatMap Fragment.write ++ closeColor ++ write runs) = _
      rw [List.append_assoc, List.append_assoc, opens kind color known, inside, closes, inside]

/-! ## Tags -/

theorem stripTags_of_clear (less : '<' ∉ text) (greater : '>' ∉ text) (rest : List Char) :
    stripTags false (text ++ rest) = text ++ stripTags false rest := by
  induction text with
  | nil => rfl
  | cons c text ih =>
    simp only [List.mem_cons, not_or] at less greater
    rw [List.cons_append, stripTags, if_neg (Ne.symm less.1), if_neg (Ne.symm greater.1),
      if_neg (by decide), ih less.2 greater.2, List.cons_append]

theorem stripTags_inside (less : '<' ∉ text) (greater : '>' ∉ text) (rest : List Char) :
    stripTags true (text ++ '>' :: rest) = stripTags false rest := by
  induction text with
  | nil => rfl
  | cons c text ih =>
    simp only [List.mem_cons, not_or] at less greater
    rw [List.cons_append, stripTags, if_neg (Ne.symm less.1), if_neg (Ne.symm greater.1),
      if_pos rfl, ih less.2 greater.2]

theorem Bracketed.stripTags_append (bracketed : Bracketed text) (rest : List Char) :
    stripTags false (text ++ rest) = stripTags false rest := by
  obtain ⟨inside, rfl, less, greater⟩ := bracketed
  rw [List.cons_append, List.append_assoc, List.singleton_append, stripTags, if_pos rfl,
    stripTags_inside less greater]

theorem special_not_mem_escape (text : List Char) : '<' ∉ escape text ∧ '>' ∉ escape text := by
  have char (c : Char) : '<' ∉ escapeChar c ∧ '>' ∉ escapeChar c := by
    unfold escapeChar
    split
    · decide
    · decide
    · decide
    · next less greater => exact ⟨by simpa using Ne.symm less, by simpa using Ne.symm greater⟩
  constructor <;> intro mem <;> obtain ⟨c, -, here⟩ := List.mem_flatMap.mp mem
  · exact (char c).1 here
  · exact (char c).2 here

theorem escape_append (a b : List Char) : escape (a ++ b) = escape a ++ escape b :=
  List.flatMap_append

theorem bracketed_closeTag (marked : emphasis ≠ .unmarked) : Bracketed emphasis.closeTag := by
  cases emphasis with
  | unmarked => exact absurd rfl marked
  | found | current => exact ⟨"/mark".toList, rfl, by decide, by decide⟩

theorem stripTags_fragment (f : Fragment) (rest : List Char) :
    stripTags false (f.write ++ rest) = escape f.text ++ stripTags false rest := by
  obtain ⟨less, greater⟩ := special_not_mem_escape f.text
  unfold Fragment.write
  rw [List.append_assoc, List.append_assoc]
  by_cases unmarked : f.emphasis = .unmarked
  · rw [unmarked]
    exact stripTags_of_clear less greater rest
  · rw [(bracketed_openTag unmarked).stripTags_append, stripTags_of_clear less greater,
      (bracketed_closeTag unmarked).stripTags_append]

/-- What is left of a markup in colours of a theme is what its runs show, escaped. -/
theorem stripTags_write
    (colored : ∀ run ∈ runs, ∀ color ∈ run.color, ∃ kind, theme.color kind = some color) :
    stripTags false (write runs) = escape (chars runs) := by
  have opens (kind : TokenKind) (color : String) (known : theme.color kind = some color) :=
    (IsTag.openColor known).bracketed.stripTags_append
  have closes := (IsTag.closeColor : IsTag theme _).bracketed.stripTags_append
  rw [foldr_write stripTags_fragment opens closes colored, chars, ← List.flatMap_assoc]
  induction runs.flatMap Run.fragments with
  | nil => rfl
  | cons f fragments ih => rw [List.foldr_cons, ih, List.flatMap_cons, escape_append]

/-! ## Entities -/

theorem replaceAll_wait (length : wait = text.length) (rest : List Char) :
    replaceAll pattern d wait (text ++ rest) = replaceAll pattern d 0 rest := by
  induction text generalizing wait with
  | nil => rw [length]; rfl
  | cons c text ih =>
    rw [length, List.length_cons, List.cons_append, replaceAll]
    exact ih rfl

theorem replaceAll_hit (filled : pattern ≠ []) (rest : List Char) :
    replaceAll pattern d 0 (pattern ++ rest) = d :: replaceAll pattern d 0 rest := by
  obtain ⟨c, name, rfl⟩ := List.exists_cons_of_ne_nil filled
  have here : (c :: name).isPrefixOf (c :: (name ++ rest)) :=
    List.isPrefixOf_iff_prefix.mpr (List.prefix_append (c :: name) rest)
  rw [List.cons_append, replaceAll, if_pos here, replaceAll_wait (by simp)]

theorem replaceAll_miss (miss : ¬ pattern <+: c :: rest) :
    replaceAll pattern d 0 (c :: rest) = c :: replaceAll pattern d 0 rest := by
  rw [replaceAll, if_neg (by rwa [List.isPrefixOf_iff_prefix])]

/-- Entities begin with `&`. -/
theorem replaceAll_of_clear (mem : pattern ∈ entities) (clear : '&' ∉ text) (rest : List Char) :
    replaceAll pattern d 0 (text ++ rest) = text ++ replaceAll pattern d 0 rest := by
  obtain ⟨name, rfl, -⟩ := entity_begins mem
  induction text with
  | nil => rfl
  | cons c text ih =>
    simp only [List.mem_cons, not_or] at clear
    rw [List.cons_append, replaceAll_miss fun here => clear.1 (List.cons_prefix_cons.mp here).1,
      ih clear.2, List.cons_append]

/-- No entity is found in another one, whatever follows it. -/
theorem replaceAll_entity (mem : pattern ∈ entities) (mem' : text ∈ entities)
    (other : pattern ≠ text) (rest : List Char) :
    replaceAll pattern d 0 (text ++ rest) = text ++ replaceAll pattern d 0 rest := by
  have apart : ∀ a ∈ entities, ∀ b ∈ entities, a <+: b → a = b := by decide
  obtain ⟨name, rfl, clear⟩ := entity_begins mem'
  have miss : ¬ pattern <+: '&' :: (name ++ rest) := by
    intro here
    rcases List.prefix_or_prefix_of_prefix here (List.prefix_append ('&' :: name) rest) with h | h
    · exact other (apart _ mem _ mem' h)
    · exact other (apart _ mem' _ mem h).symm
  rw [List.cons_append, replaceAll_miss miss, replaceAll_of_clear mem (clear '&' (by decide)),
    List.cons_append]

/-- A character escaped, unless its entity is undone already. -/
def escapeOthers (undone : List Char) (c : Char) : List Char :=
  if c ∈ undone then [c] else escapeChar c

theorem escapeChar_of_plain (plain : c ∉ special) : escapeChar c = [c] := by
  unfold escapeChar
  split
  · exact absurd (by decide) plain
  · exact absurd (by decide) plain
  · exact absurd (by decide) plain
  · rfl

theorem escapeChar_mem_entities : ∀ c ∈ special, escapeChar c ∈ entities :=
  forall_special.mpr (by decide)

theorem escapeChar_injOn : ∀ c ∈ special, ∀ d ∈ special, escapeChar c = escapeChar d → c = d :=
  forall_special.mpr ⟨forall_special.mpr (by decide), forall_special.mpr (by decide),
    forall_special.mpr (by decide)⟩

/-- Undoing one more entity, as long as every `&` is still escaped. -/
theorem replaceAll_escapeOthers (mem : d ∈ special) (fresh : d ∉ undone) (amp : '&' ∉ undone)
    (text : List Char) :
    replaceAll (escapeChar d) d 0 (text.flatMap (escapeOthers undone)) =
      text.flatMap (escapeOthers (d :: undone)) := by
  have entity := escapeChar_mem_entities d mem
  have char (c : Char) (rest : List Char) :
      replaceAll (escapeChar d) d 0 (escapeOthers undone c ++ rest) =
        escapeOthers (d :: undone) c ++ replaceAll (escapeChar d) d 0 rest := by
    unfold escapeOthers
    by_cases same : c = d
    · obtain ⟨name, begins, -⟩ := entity_begins entity
      rw [same, if_neg fresh, if_pos List.mem_cons_self, replaceAll_hit (by simp [begins])]
      rfl
    simp only [List.mem_cons, same, false_or]
    by_cases done : c ∈ undone
    · have clear : '&' ∉ [c] := fun mem => amp (List.mem_singleton.mp mem ▸ done)
      rw [if_pos done, replaceAll_of_clear entity clear]
    · rw [if_neg done]
      by_cases plain : c ∈ special
      · exact replaceAll_entity entity (escapeChar_mem_entities c plain)
          (fun eq => same (escapeChar_injOn d mem c plain eq).symm) rest
      · have clear : '&' ∉ [c] := fun mem => plain (List.mem_singleton.mp mem ▸ by decide)
        rw [escapeChar_of_plain plain, replaceAll_of_clear entity clear]
  induction text with
  | nil => rfl
  | cons c text ih => rw [List.flatMap_cons, char, ih, List.flatMap_cons]

theorem unescape_escape (text : List Char) : unescape (escape text) = text := by
  have first : escape text = text.flatMap (escapeOthers []) := rfl
  have last : escapeOthers ['&', '>', '<'] = fun c => [c] := by
    funext c
    unfold escapeOthers
    split_ifs with mem
    · rfl
    · refine escapeChar_of_plain fun mem' => mem ?_
      simp only [special, List.mem_cons] at mem' ⊢
      tauto
  rw [unescape, first, replaceAll_escapeOthers (by decide) (by decide) (by decide),
    replaceAll_escapeOthers (by decide) (by decide) (by decide),
    replaceAll_escapeOthers (by decide) (by decide) (by decide), last, List.flatMap_singleton']

/-- What is left of a markup is what its runs show. -/
theorem plainText_write
    (colored : ∀ run ∈ runs, ∀ color ∈ run.color, ∃ kind, theme.color kind = some color) :
    plainText (write runs) = chars runs := by
  rw [plainText, stripTags_write colored, unescape_escape]

end Glance.Markup
