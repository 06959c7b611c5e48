import Glance.Proofs.Json.Sound
import Glance.Proofs.Json.Strings
import Glance.Proofs.Text.Utf8

/-!
# Stored values are read back

A sound value is read back from its text, and so from the bytes of its text, with its floats as they
are read back, if not too many containers are nested in it; otherwise nothing is read
(`ofBytes?_encoded`). So a value without floats is read back as itself (`ofBytes?_pretty`). What
stands behind a value must not go on with a number, and blanks may stand before it; the rest follows
the shape of the value.
-/

namespace Glance.Json

variable {most depth indent outer fuel : ℕ} {v : Json} {vs : List Json} {ms seen : Members}
  {m : String × Json} {text rest : List Char} {item : Reader Json}

/-! ## Blanks -/

theorem skipBlank_cons {c : Char} (h : ¬ isBlank c) (text : List Char) :
    skipBlank (c :: text) = c :: text :=
  List.dropWhile_cons_of_neg h

theorem skipBlank_lineBreak (indent : ℕ) (text : List Char) :
    skipBlank (lineBreak indent ++ text) = skipBlank text := by
  have blank : ∀ c ∈ lineBreak indent, isBlank c := by
    intro c mem
    rcases List.mem_cons.mp mem with rfl | mem
    · rfl
    · rw [List.eq_of_mem_replicate mem]
      rfl
  exact List.dropWhile_append_of_pos blank

theorem not_isDigit_of_isBlank {c : Char} (blank : isBlank c) : ¬ c.isDigit := by
  simp only [isBlank, Bool.or_eq_true, beq_iff_eq] at blank
  rcases blank with ((rfl | rfl) | rfl) | rfl <;> decide

theorem begins_number (begins : ∃ c tail, text = c :: tail ∧ (c = '-' ∨ c.isDigit)) :
    ∃ c tail, text = c :: tail ∧ ¬ isBlank c ∧ c ≠ ']' ∧ c ≠ '}' := by
  obtain ⟨c, tail, eq, rfl | digit⟩ := begins
  · exact ⟨'-', tail, eq, by decide⟩
  · refine ⟨c, tail, eq, ?_, ?_, ?_⟩
    · exact fun blank => absurd digit (not_isDigit_of_isBlank blank)
    · rintro rfl
      exact absurd digit (by decide)
    · rintro rfl
      exact absurd digit (by decide)

/-- A value begins with no blank and with no closing bracket. -/
theorem write_begins (sound : Sound v) (indent : ℕ) :
    ∃ c tail, write indent v = c :: tail ∧ ¬ isBlank c ∧ c ≠ ']' ∧ c ≠ '}' := by
  cases sound with
  | null => exact ⟨'n', _, rfl, by decide⟩
  | @bool b => cases b <;> exact ⟨_, _, rfl, by decide⟩
  | @int i fits => exact begins_number (writeInt_begins i)
  | float finite => exact begins_number (shortest_begins finite)
  | str => exact ⟨'"', _, rfl, by decide⟩
  | @arr items _ => cases items <;> exact ⟨'[', _, rfl, by decide⟩
  | @obj members _ _ => cases members <;> exact ⟨'{', _, rfl, by decide⟩

theorem skipBlank_write (sound : Sound v) (indent : ℕ) (rest : List Char) :
    skipBlank (write indent v ++ rest) = write indent v ++ rest := by
  obtain ⟨c, tail, eq, blank, -⟩ := write_begins sound indent
  rw [eq, List.cons_append, skipBlank_cons blank]

theorem endsNumber_cons {c : Char} (h : ¬ c.isDigit ∧ c ≠ '.' ∧ c ≠ 'e' ∧ c ≠ 'E')
    (rest : List Char) : EndsNumber (c :: rest) := by
  intro d mem
  rw [List.head?_cons, Option.mem_some_iff] at mem
  rwa [← mem]

/-! ## Arrays -/

/-- The reader reads the value back wherever it stands, if no more than `depth` containers are
nested in it. -/
def ReadsBack (item : Reader Json) (depth indent : ℕ) (v : Json) : Prop :=
  ∀ rest, EndsNumber rest →
    item (write indent v ++ rest) = if v.nesting ≤ depth then some (v.reread, rest) else none

theorem endsNumber_items (indent outer : ℕ) (vs : List Json) (rest : List Char) :
    EndsNumber (writeItems indent vs ++ (lineBreak outer ++ ']' :: rest)) := by
  cases vs with
  | nil => exact endsNumber_cons (by decide) _
  | cons v vs =>
    rw [writeItems]
    exact endsNumber_cons (by decide) _

theorem items_write {seen : List Json} (sound : ∀ v' ∈ v :: vs, Sound v')
    (reads : ∀ v' ∈ v :: vs, ReadsBack item depth indent v') (le : vs.length < fuel) :
    items item seen fuel (lineBreak indent ++ (write indent v ++ (writeItems indent vs ++
      (lineBreak outer ++ ']' :: rest)))) =
        if ∀ v' ∈ v :: vs, v'.nesting ≤ depth then
          some (seen.reverse ++ (v :: vs).map reread, rest) else none := by
  -- Induction over the items behind the first; if the first is too deep, nothing is read.
  induction vs generalizing v seen fuel with
  | nil =>
    obtain ⟨fuel, rfl⟩ := Nat.exists_eq_add_one.mpr (Nat.zero_lt_of_lt le)
    have read := reads v (.head _) _ (endsNumber_items indent outer [] rest)
    rw [items, skipBlank_lineBreak, skipBlank_write (sound v (.head _)), read]
    simp only [List.forall_mem_singleton]
    split_ifs with fits
    · dsimp only
      rw [writeItems, List.nil_append, skipBlank_lineBreak, skipBlank_cons (by decide)]
      simp
    · rfl
  | cons next vs ih =>
    obtain ⟨fuel, rfl⟩ := Nat.exists_eq_add_one.mpr (Nat.zero_lt_of_lt le)
    have read := reads v (.head _) _ (endsNumber_items indent outer (next :: vs) rest)
    have onward := @ih fuel next (v.reread :: seen) (List.forall_mem_cons.mp sound).2
      (List.forall_mem_cons.mp reads).2 (Nat.lt_of_succ_lt_succ le)
    rw [items, skipBlank_lineBreak, skipBlank_write (sound v (.head _)), read]
    by_cases fits : v.nesting ≤ depth
    · simp only [List.forall_mem_cons (a := v), fits, true_and, if_true]
      rw [writeItems, List.cons_append, skipBlank_cons (by decide), List.append_assoc,
        List.append_assoc]
      show items item (v.reread :: seen) fuel _ = _
      rw [onward, List.reverse_cons, List.append_assoc]
      rfl
    · simp only [List.forall_mem_cons (a := v), fits, false_and, if_false]

/-- There is place for every item in the text of them all, and for a separator in front of it. -/
theorem length_writeItems (indent : ℕ) (vs : List Json) :
    vs.length ≤ (writeItems indent vs).length ∧
      ∀ v ∈ vs, (write indent v).length ≤ (writeItems indent vs).length := by
  induction vs with
  | nil => exact ⟨Nat.zero_le _, fun v mem => by cases mem⟩
  | cons first vs ih =>
    obtain ⟨count, each⟩ := ih
    rw [writeItems]
    simp only [List.length_cons, List.length_append]
    refine ⟨by omega, fun v mem => ?_⟩
    rcases List.mem_cons.mp mem with rfl | mem
    · omega
    · have := each v mem
      omega

theorem write_arr (indent : ℕ) (v : Json) (vs : List Json) (rest : List Char) :
    write indent (.arr (v :: vs)) ++ rest =
      '[' :: (lineBreak (indent + 1) ++ (write (indent + 1) v ++ (writeItems (indent + 1) vs ++
        (lineBreak indent ++ ']' :: rest)))) := by
  rw [write]
  simp

/-! ## Objects -/

/-- One member as it is written, on a line of its own. -/
def writeMember (indent : ℕ) (m : String × Json) (rest : List Char) : List Char :=
  lineBreak indent ++ (quote m.1.toList ++ ':' :: ' ' :: (write indent m.2 ++ rest))

theorem writeMembers_cons (indent : ℕ) (m : String × Json) (ms : Members) (rest : List Char) :
    writeMembers indent (m :: ms) ++ rest =
      ',' :: writeMember indent m (writeMembers indent ms ++ rest) := by
  rw [writeMembers]
  simp [writeMember]

theorem member_write (sound : Sound m.2) (reads : ReadsBack item depth indent m.2)
    (ends : EndsNumber rest) : member item (writeMember indent m rest) =
      if m.2.nesting ≤ depth then some (m.map id reread, rest) else none := by
  have colon (text : List Char) : skipBlank (':' :: text) = ':' :: text :=
    skipBlank_cons (by decide) text
  have blank (text : List Char) : skipBlank (' ' :: text) = skipBlank text :=
    List.dropWhile_cons_of_pos rfl
  unfold member writeMember quote
  rw [skipBlank_lineBreak, List.cons_append, skipBlank_cons (by decide), List.append_assoc,
    List.singleton_append]
  simp only [string_text, colon, blank, skipBlank_write sound, reads rest ends]
  split_ifs <;> rfl

theorem endsNumber_members (indent outer : ℕ) (ms : Members) (rest : List Char) :
    EndsNumber (writeMembers indent ms ++ (lineBreak outer ++ '}' :: rest)) := by
  cases ms with
  | nil => exact endsNumber_cons (by decide) _
  | cons m ms =>
    rw [writeMembers_cons]
    exact endsNumber_cons (by decide) _

theorem members_write (sound : ∀ m' ∈ m :: ms, Sound m'.2)
    (reads : ∀ m' ∈ m :: ms, ReadsBack item depth indent m'.2) (le : ms.length < fuel) :
    members item seen fuel (writeMember indent m (writeMembers indent ms ++
      (lineBreak outer ++ '}' :: rest))) =
        if ∀ m' ∈ m :: ms, m'.2.nesting ≤ depth then
          some (seen.reverse ++ (m :: ms).map (Prod.map id reread), rest) else none := by
  induction ms generalizing m seen fuel with
  | nil =>
    obtain ⟨fuel, rfl⟩ := Nat.exists_eq_add_one.mpr (Nat.zero_lt_of_lt le)
    have ends := endsNumber_members indent outer [] rest
    rw [members, member_write (sound m (.head _)) (reads m (.head _)) ends]
    simp only [List.forall_mem_singleton]
    split_ifs with fits
    · dsimp only
      rw [writeMembers, List.nil_append, skipBlank_lineBreak, skipBlank_cons (by decide)]
      simp
    · rfl
  | cons next ms ih =>
    obtain ⟨fuel, rfl⟩ := Nat.exists_eq_add_one.mpr (Nat.zero_lt_of_lt le)
    have ends := endsNumber_members indent outer (next :: ms) rest
    have onward := @ih fuel (m.map id reread :: seen) next (List.forall_mem_cons.mp sound).2
      (List.forall_mem_cons.mp reads).2 (Nat.lt_of_succ_lt_succ le)
    rw [members, member_write (sound m (.head _)) (reads m (.head _)) ends, writeMembers_cons]
    by_cases fits : m.2.nesting ≤ depth
    · simp only [List.forall_mem_cons (a := m), fits, true_and, if_true]
      rw [skipBlank_cons (by decide)]
      show members item (m.map id reread :: seen) fuel _ = _
      rw [onward, List.reverse_cons, List.append_assoc]
      rfl
    · simp only [List.forall_mem_cons (a := m), fits, false_and, if_false]

/-- There is place for every member in the text of them all, and for a separator in front of it. -/
theorem length_writeMembers (indent : ℕ) (ms : Members) :
    ms.length ≤ (writeMembers indent ms).length ∧
      ∀ m ∈ ms, (write indent m.2).length ≤ (writeMembers indent ms).length := by
  induction ms with
  | nil => exact ⟨Nat.zero_le _, fun m mem => by cases mem⟩
  | cons first ms ih =>
    obtain ⟨count, each⟩ := ih
    rw [writeMembers]
    simp only [List.length_cons, List.length_append]
    refine ⟨by omega, fun m mem => ?_⟩
    rcases List.mem_cons.mp mem with rfl | mem
    · omega
    · have := each m mem
      omega

theorem write_obj (indent : ℕ) (m : String × Json) (ms : Members) (rest : List Char) :
    write indent (.obj (m :: ms)) ++ rest =
      '{' :: writeMember (indent + 1) m (writeMembers (indent + 1) ms ++
        (lineBreak indent ++ '}' :: rest)) := by
  rw [write]
  simp [writeMember]

/-! ## Values -/

theorem value_number {c : Char} (begins : c = '-' ∨ c.isDigit) (text : List Char) :
    value most depth (c :: text) = number (c :: text) := by
  have other : ∀ d ∈ ['n', 't', 'f', '"', '[', '{'], c ≠ d := by
    rintro d mem rfl
    rcases begins with rfl | digit
    · revert mem
      decide
    · have letters : ['n', 't', 'f', '"', '[', '{'].all fun c => !c.isDigit := by decide
      simpa [digit] using List.all_eq_true.mp letters c mem
  unfold value
  split
  case h_7 => rfl
  all_goals
    next first =>
    exact absurd (List.cons.inj first).1 (other _ (by decide))

theorem word_append (spelling : String) (v : Json) (rest : List Char) :
    word spelling v (spelling.toList ++ rest) = some (v, rest) := by
  unfold word
  rw [if_pos (List.isPrefixOf_iff_prefix.mpr (List.prefix_append _ _)), ← String.length_toList,
    List.drop_append_length]

theorem value_arr {c : Char} {tail : List Char} (begins : skipBlank text = c :: tail)
    (filled : c ≠ ']') : value most (depth + 1) ('[' :: text) =
      (items (value most depth) [] most text).map fun (vs, rest) => (.arr vs, rest) := by
  rw [value]
  dsimp only
  rw [begins]
  split
  · next first => exact absurd (List.cons.inj first).1 filled
  · rfl

theorem value_obj {c : Char} {tail : List Char} (begins : skipBlank text = c :: tail)
    (filled : c ≠ '}') : value most (depth + 1) ('{' :: text) =
      (members (value most depth) [] most text).map fun (ms, rest) => (object ms, rest) := by
  rw [value]
  dsimp only
  rw [begins]
  split
  · next first => exact absurd (List.cons.inj first).1 filled
  · rfl

theorem readsBack_arr (sound : ∀ v ∈ vs, Sound v)
    (reads : ∀ v ∈ vs, ∀ indent, (write indent v).length ≤ most →
      ReadsBack (value most depth) depth indent v)
    (indent : ℕ) (le : (write indent (.arr vs)).length ≤ most) :
    ReadsBack (value most (depth + 1)) (depth + 1) indent (.arr vs) := by
  intro rest ends
  simp only [nesting_arr_le_iff, reread, rereadItems_eq]
  cases vs with
  | nil =>
    show value most _ ('[' :: ']' :: rest) = _
    rw [value]
    dsimp only
    rw [skipBlank_cons (by decide)]
    rfl
  | cons v vs =>
    obtain ⟨count, each⟩ := length_writeItems (indent + 1) vs
    have length := congrArg List.length (write_arr indent v vs [])
    simp only [List.append_nil, List.length_cons, List.length_append] at length
    have back : ∀ v' ∈ v :: vs, ReadsBack (value most depth) depth (indent + 1) v' := by
      refine fun v' mem => reads v' mem _ ?_
      rcases List.mem_cons.mp mem with rfl | mem
      · omega
      · have := each v' mem
        omega
    have here := sound v (.head _)
    obtain ⟨c, tail, eq, -, filled, -⟩ := write_begins here (indent + 1)
    have begins (text : List Char) :
        skipBlank (lineBreak (indent + 1) ++ (write (indent + 1) v ++ text)) =
          c :: (tail ++ text) := by
      rw [skipBlank_lineBreak, skipBlank_write here, eq]
      rfl
    rw [write_arr, value_arr (begins _) filled, items_write sound back (by omega)]
    split_ifs <;> rfl

theorem readsBack_obj (sorted : ms.Sorted) (sound : ∀ m ∈ ms, Sound m.2)
    (reads : ∀ m ∈ ms, ∀ indent, (write indent m.2).length ≤ most →
      ReadsBack (value most depth) depth indent m.2)
    (indent : ℕ) (le : (write indent (.obj ms)).length ≤ most) :
    ReadsBack (value most (depth + 1)) (depth + 1) indent (.obj ms) := by
  intro rest ends
  simp only [nesting_obj_le_iff, reread]
  cases ms with
  | nil =>
    show value most _ ('{' :: '}' :: rest) = _
    rw [value]
    dsimp only
    rw [skipBlank_cons (by decide)]
    rfl
  | cons m ms =>
    obtain ⟨count, each⟩ := length_writeMembers (indent + 1) ms
    have length := congrArg List.length (write_obj indent m ms [])
    simp only [List.append_nil, List.length_cons, List.length_append, writeMember] at length
    have back : ∀ m' ∈ m :: ms, ReadsBack (value most depth) depth (indent + 1) m'.2 := by
      refine fun m' mem => reads m' mem _ ?_
      rcases List.mem_cons.mp mem with rfl | mem
      · omega
      · have := each m' mem
        omega
    have begins (text : List Char) : ∃ tail,
        skipBlank (writeMember (indent + 1) m text) = '"' :: tail := by
      unfold writeMember quote
      rw [skipBlank_lineBreak, List.cons_append, skipBlank_cons (by decide)]
      exact ⟨_, rfl⟩
    have sorted' := Members.ofList_eq (sorted_rereadMembers sorted)
    rw [write_obj, value_obj (begins _).choose_spec (by decide),
      members_write sound back (by omega), ← rereadMembers_eq]
    split_ifs
    · show some (object (rereadMembers (m :: ms)), rest) = _
      rw [object, sorted']
    · rfl

theorem readsBack_number {c : Char} {tail : List Char} (eq : write indent v = c :: tail)
    (begins : c = '-' ∨ c.isDigit) (flat : v.nesting = 0)
    (read : ∀ rest, EndsNumber rest → number (write indent v ++ rest) = some (v.reread, rest)) :
    ReadsBack (value most depth) depth indent v := by
  intro rest ends
  rw [flat, if_pos (Nat.zero_le _), ← read rest ends, eq, List.cons_append, value_number begins]

/-- A value is read back where as many containers may be nested as are nested in it, and nowhere
else. -/
theorem readsBack_value (sound : Sound v) (depth indent : ℕ)
    (le : (write indent v).length ≤ most) : ReadsBack (value most depth) depth indent v := by
  induction sound generalizing depth indent with
  | null =>
    intro rest ends
    show value most _ ('n' :: _) = _
    unfold value
    exact word_append "null" .null rest
  | @bool b =>
    intro rest ends
    cases b with
    | false =>
      show value most _ ('f' :: _) = _
      unfold value
      exact word_append "false" (.bool false) rest
    | true =>
      show value most _ ('t' :: _) = _
      unfold value
      exact word_append "true" (.bool true) rest
  | @int i fits =>
    obtain ⟨c, tail, eq, begins⟩ := writeInt_begins i
    exact readsBack_number eq begins rfl fun rest ends => number_writeInt fits ends
  | @float x finite =>
    obtain ⟨c, tail, eq, begins⟩ := shortest_begins finite
    exact readsBack_number eq begins rfl fun rest ends => number_shortest finite ends
  | @str s =>
    intro rest ends
    show value most _ ('"' :: (s.toList.flatMap escapeChar ++ ['"']) ++ rest) = _
    rw [List.cons_append, List.append_assoc, List.singleton_append]
    unfold value
    simp only [string_text, Option.map_some]
    rfl
  | @arr items sound ih =>
    cases depth with
    | zero =>
      intro rest ends
      cases items <;> rfl
    | succ depth => exact readsBack_arr sound (fun v mem => ih v mem depth) indent le
  | @obj members sorted sound ih =>
    cases depth with
    | zero =>
      intro rest ends
      cases members <;> rfl
    | succ depth => exact readsBack_obj sorted sound (fun m mem => ih m mem depth) indent le

theorem parse_pretty (sound : Sound v) (depth : ℕ) :
    parse depth (pretty v) = if v.nesting ≤ depth then some v.reread else none := by
  have blank := skipBlank_write sound 0 []
  rw [List.append_nil] at blank
  have read := readsBack_value sound depth 0 le_rfl [] (fun c mem => by cases mem)
  rw [List.append_nil] at read
  unfold parse pretty
  rw [blank, read]
  split_ifs <;> rfl

/-- A sound value is read back from its bytes unless it is nested too deep. -/
theorem ofBytes?_encoded (sound : Sound v) : ofBytes? (Text.utf8 (pretty v)) =
    if v.nesting ≤ nestingLimit then some v.reread else none := by
  unfold ofBytes?
  rw [Text.decode?_utf8, Option.bind_some, parse_pretty sound]

/-! ## Values without floats -/

/-- A value of whole numbers with at most `depth` containers nested in it, as it is kept: every
whole number fits its word and all members are sorted. -/
inductive Storable : (depth : ℕ) → Json → Prop
  | null {depth : ℕ} : Storable depth .null
  | bool {depth : ℕ} {b : Bool} : Storable depth (.bool b)
  | int {depth : ℕ} {i : ℤ} : FitsWord i → Storable depth (.int i)
  | str {depth : ℕ} {s : String} : Storable depth (.str s)
  | arr {depth : ℕ} {items : List Json} :
    (∀ v ∈ items, Storable depth v) → Storable (depth + 1) (.arr items)
  | obj {depth : ℕ} {members : Members} :
    members.Sorted → (∀ m ∈ members, Storable depth m.2) → Storable (depth + 1) (.obj members)

namespace Storable

theorem object {members : List (String × Json)} (each : ∀ m ∈ members, Storable depth m.2) :
    Storable (depth + 1) (Json.object members) :=
  .obj (Members.sorted_ofList members) fun m mem => each m (Members.mem_of_mem_ofList mem)

theorem sound (storable : Storable depth v) : Sound v := by
  induction storable with
  | null => exact .null
  | bool => exact .bool
  | int fits => exact .int fits
  | str => exact .str
  | arr _ ih => exact .arr ih
  | obj sorted _ ih => exact .obj sorted ih

theorem nesting_le (storable : Storable depth v) : v.nesting ≤ depth := by
  induction storable with
  | null | bool | int | str => exact Nat.zero_le _
  | arr _ ih => exact nesting_arr_le_iff.mpr ih
  | obj _ _ ih => exact nesting_obj_le_iff.mpr ih

theorem brief (storable : Storable depth v) : Brief v := by
  induction storable with
  | null => exact .null
  | bool => exact .bool
  | int => exact .int
  | str => exact .str
  | arr _ ih => exact .arr ih
  | obj _ _ ih => exact .obj ih

end Storable

/-- A stored value is read back from its bytes. -/
theorem ofBytes?_pretty (storable : Storable nestingLimit v) :
    ofBytes? (Text.utf8 (pretty v)) = some v := by
  rw [ofBytes?_encoded storable.sound, if_pos storable.nesting_le, storable.brief.reread_eq]

end Glance.Json
