import Glance.Proofs.Json.RoundTrip

/-!
# What can be read can be stored

Whatever was read from a stored text can be written and read back again: its whole numbers fit, its
floats are finite, its members are sorted, and no more containers are nested in it than are read
(`sound_of_ofBytes?`). If there are no floats in it, it is read back as itself
(`storable_of_ofBytes?`).
-/

namespace Glance.Json

variable {most depth fuel : ℕ} {v : Json} {vs : List Json} {ms seen : Members} {m : String × Json}
  {text rest : List Char} {item : Reader Json}

/-! ## What can be read at all -/

/-- Every item that is read was read by the reader of items. -/
theorem mem_of_items {seen : List Json} (h : items item seen fuel text = some (vs, rest)) :
    ∀ v ∈ vs, v ∈ seen ∨ ∃ text rest, item text = some (v, rest) := by
  induction fuel generalizing seen text with
  | zero => cases h
  | succ fuel ih =>
    unfold items at h
    split at h
    · cases h
    · next first behind read =>
      have old : ∀ v ∈ first :: seen, v ∈ seen ∨ ∃ text rest, item text = some (v, rest) := by
        intro v mem
        rcases List.mem_cons.mp mem with rfl | mem
        · exact .inr ⟨_, _, read⟩
        · exact .inl mem
      split at h
      · cases h
        exact fun v mem => old v (List.mem_reverse.mp mem)
      · exact fun v mem => (ih h v mem).elim (old v) .inr
      · cases h

theorem value_of_member (h : member item text = some (m, rest)) :
    ∃ text rest, item text = some (m.2, rest) := by
  unfold member at h
  split at h
  · split at h
    · cases h
    · split at h
      · obtain ⟨⟨v, behind⟩, read, eq⟩ := Option.map_eq_some_iff.mp h
        cases eq
        exact ⟨_, _, read⟩
      · cases h
  · cases h

/-- Every value of a member that is read was read by the reader of values. -/
theorem mem_of_members (h : members item seen fuel text = some (ms, rest)) :
    ∀ m ∈ ms, m ∈ seen ∨ ∃ text rest, item text = some (m.2, rest) := by
  induction fuel generalizing seen text with
  | zero => cases h
  | succ fuel ih =>
    unfold members at h
    split at h
    · cases h
    · next first behind read =>
      have old : ∀ m ∈ first :: seen, m ∈ seen ∨ ∃ text rest, item text = some (m.2, rest) := by
        intro m mem
        rcases List.mem_cons.mp mem with rfl | mem
        · exact .inr (value_of_member read)
        · exact .inl mem
      split at h
      · cases h
        exact fun m mem => old m (List.mem_reverse.mp mem)
      · exact fun m mem => (ih h m mem).elim (old m) .inr
      · cases h

theorem eq_of_word {spelling : String} {w : Json} (h : word spelling w text = some (v, rest)) :
    v = w := by
  unfold word at h
  split_ifs at h
  cases h
  rfl

/-- What is read is sound, and nested no deeper than it is followed. -/
theorem sound_of_value (h : value most depth text = some (v, rest)) :
    Sound v ∧ v.nesting ≤ depth := by
  -- Induction on the depth, as the reader of a container reads what is in it one level deeper.
  induction depth using Nat.strong_induction_on generalizing text v rest with
  | _ depth ih =>
    unfold value at h
    split at h
    · rw [eq_of_word h]
      exact ⟨.null, Nat.zero_le _⟩
    · rw [eq_of_word h]
      exact ⟨.bool, Nat.zero_le _⟩
    · rw [eq_of_word h]
      exact ⟨.bool, Nat.zero_le _⟩
    · obtain ⟨s, -, eq⟩ := Option.map_eq_some_iff.mp h
      cases eq
      exact ⟨.str, Nat.zero_le _⟩
    · split at h
      · cases h
      · next inner =>
        suffices parts : ∃ vs, v = .arr vs ∧ ∀ v ∈ vs, Sound v ∧ v.nesting ≤ inner by
          obtain ⟨vs, rfl, parts⟩ := parts
          exact ⟨.arr fun v mem => (parts v mem).1,
            nesting_arr_le_iff.mpr fun v mem => (parts v mem).2⟩
        split at h
        · cases h
          exact ⟨[], rfl, fun v mem => by cases mem⟩
        · obtain ⟨⟨vs, behind⟩, read, eq⟩ := Option.map_eq_some_iff.mp h
          cases eq
          refine ⟨vs, rfl, fun v mem => ?_⟩
          obtain ⟨text, rest, read⟩ := (mem_of_items read v mem).resolve_left List.not_mem_nil
          exact ih inner (Nat.lt_succ_self _) read
    · split at h
      · cases h
      · next inner =>
        suffices parts : ∃ ms : Members, v = .obj ms ∧ ms.Sorted ∧
            ∀ m ∈ ms, Sound m.2 ∧ m.2.nesting ≤ inner by
          obtain ⟨ms, rfl, sorted, parts⟩ := parts
          exact ⟨.obj sorted fun m mem => (parts m mem).1,
            nesting_obj_le_iff.mpr fun m mem => (parts m mem).2⟩
        split at h
        · cases h
          exact ⟨[], rfl, List.Pairwise.nil, fun m mem => by cases mem⟩
        · obtain ⟨⟨ms, behind⟩, read, eq⟩ := Option.map_eq_some_iff.mp h
          cases eq
          refine ⟨_, rfl, Members.sorted_ofList ms, fun m mem => ?_⟩
          obtain ⟨text, rest, read⟩ := (mem_of_members read m
            (Members.mem_of_mem_ofList mem)).resolve_left List.not_mem_nil
          exact ih inner (Nat.lt_succ_self _) read
    · obtain ⟨i, rfl, fits⟩ | ⟨x, finite, rfl⟩ := number_cases h
      · exact ⟨.int fits, Nat.zero_le _⟩
      · exact ⟨.float finite, Nat.zero_le _⟩

theorem sound_of_ofBytes? {bytes : List UInt8} (h : ofBytes? bytes = some v) :
    Sound v ∧ v.nesting ≤ nestingLimit := by
  obtain ⟨text, -, h⟩ := Option.bind_eq_some_iff.mp h
  unfold parse at h
  split at h
  · next read =>
    split_ifs at h
    cases h
    exact sound_of_value read
  · cases h

/-! ## Values without floats -/

theorem storable_of_sound (sound : Sound v) (whole : Whole v) (le : v.nesting ≤ depth) :
    Storable depth v := by
  induction sound generalizing depth with
  | null => exact .null
  | bool => exact .bool
  | int fits => exact .int fits
  | float => cases whole
  | str => exact .str
  | arr _ ih =>
    cases whole with
    | arr whole =>
      obtain ⟨depth, rfl⟩ := Nat.exists_eq_add_one.mpr (Nat.zero_lt_of_lt le)
      rw [nesting_arr_le_iff] at le
      exact .arr fun v mem => ih v mem (whole v mem) (le v mem)
  | obj sorted _ ih =>
    cases whole with
    | obj whole =>
      obtain ⟨depth, rfl⟩ := Nat.exists_eq_add_one.mpr (Nat.zero_lt_of_lt le)
      rw [nesting_obj_le_iff] at le
      exact .obj sorted fun m mem => ih m mem (whole m mem) (le m mem)

theorem storable_of_ofBytes? {bytes : List UInt8} (h : ofBytes? bytes = some v)
    (whole : Whole v) : Storable nestingLimit v :=
  storable_of_sound (sound_of_ofBytes? h).1 whole (sound_of_ofBytes? h).2

end Glance.Json
