import Glance.Proofs.Store

/-!
# What puts keep

A put that is done writes the file anew, with everything that could be read of it. So what is kept
is kept as it is read back (`FileStore.load_behind_put`), and a float of many digits may come to be
another one at any put. The writer follows a value to any depth, the reader does not: a value that
is nested too deep is put without an error, but nothing of the file can be read behind it, and the
next put begins with nothing (`FileStore.puts_keep`).
-/

namespace Glance

namespace FileStore

open Json (Members)

variable {s s' : FileStore} {key : String} {value : Json} {members : Members}
  {puts : List (String × Json)}

/-! ## One put -/

theorem sound_of_load (load : s.load = .ok members) :
    Json.Sound (.obj members) ∧ (Json.obj members).nesting ≤ Json.nestingLimit := by
  unfold FileStore.load at load
  split at load
  · split at load
    · cases load
    · split at load
      · cases load
      · next object =>
        cases load
        exact Json.sound_of_ofBytes? object
      · cases load
  · cases load
    exact ⟨storable_nil.sound, storable_nil.nesting_le⟩

theorem sound_readable (s : FileStore) :
    Json.Sound (.obj s.readable) ∧ (Json.obj s.readable).nesting ≤ Json.nestingLimit := by
  cases load : s.load with
  | error cause =>
    rw [readable_of_error load]
    exact ⟨storable_nil.sound, storable_nil.nesting_le⟩
  | ok members =>
    rw [readable_of_load load]
    exact sound_of_load load

theorem sound_insert (sound : Json.Sound (.obj members)) (value' : value.Sound) (key : String) :
    Json.Sound (.obj (members.insert key value)) := by
  cases sound with
  | obj sorted each =>
    refine .obj (sorted.insert key value) fun m mem => ?_
    rcases Members.mem_of_mem_insert mem with rfl | mem
    · exact value'
    · exact each m mem

/-- The value can be read as a member: fewer containers are nested in it than are read. -/
def Shallow (value : Json) : Prop :=
  value.nesting < Json.nestingLimit

instance (value : Json) : Decidable (Shallow value) :=
  inferInstanceAs (Decidable (_ < _))

theorem nesting_insert_le_iff (le : (Json.obj members).nesting ≤ Json.nestingLimit) :
    (Json.obj (members.insert key value)).nesting ≤ Json.nestingLimit ↔ Shallow value := by
  have limit : Json.nestingLimit = 126 + 1 := rfl
  unfold Shallow
  rw [limit, Json.nesting_obj_le_iff] at le ⊢
  rw [Nat.lt_succ_iff]
  refine ⟨fun all => all (key, value) Members.mem_insert, fun here m mem => ?_⟩
  rcases Members.mem_of_mem_insert mem with rfl | mem
  · exact here
  · exact le m mem

theorem path_put (s : FileStore) (key : String) (value : Json) :
    (Store.put s key value).2.path = s.path := by
  obtain ⟨result, -, eq⟩ := save_ended s (s.readable.insert key value)
  show (s.save (s.readable.insert key value)).2.path = _
  rw [eq]

theorem load_of_notJson {bytes : List UInt8} (read : s.disk.read s.path = .ok bytes)
    (other : Json.ofBytes? bytes = none) : s.load = .error .notJson := by
  unfold load
  rw [if_pos (Disk.contains_of_read read), read]
  dsimp only
  rw [other]

/-- Behind a put the file holds what could be read of it, with the one key changed and all floats
as they are read back; but it cannot be read when the value is nested too deep. -/
theorem load_behind_put (sound : value.Sound) (done : (Store.put s key value).1 = .ok ()) :
    (Store.put s key value).2.load =
      if Shallow value then .ok (Json.rereadMembers (s.readable.insert key value))
      else .error .notJson := by
  obtain ⟨sound', le⟩ := sound_readable s
  have object := Json.ofBytes?_encoded (sound_insert sound' sound key)
  have fits := @nesting_insert_le_iff key value _ le
  rcases save_cases s (s.readable.insert key value) with ⟨cause, failed⟩ | ⟨-, read⟩
  · have failed' : (Store.put s key value).1 = _ := failed
    rw [failed'] at done
    cases done
  · have read' : (Store.put s key value).2.disk.read (Store.put s key value).2.path =
        .ok (encode (s.readable.insert key value)) := by
      rw [path_put]
      exact read
    by_cases shallow : Shallow value
    · rw [if_pos shallow]
      rw [if_pos (fits.mpr shallow)] at object
      exact load_of_object read' object
    · rw [if_neg shallow]
      rw [if_neg fun le => shallow (fits.mp le)] at object
      exact load_of_notJson read' object

/-! ## Puts in turn -/

/-- The store behind puts in turn, if all of them are done. -/
def putAll : FileStore → List (String × Json) → Except StoreError FileStore
  | s, [] => .ok s
  | s, (key, value) :: puts =>
    match Store.put s key value with
    | (.ok (), s) => putAll s puts
    | (.error cause, _) => .error cause

/-- What can be read behind a put, from what could be read before it. -/
def behindPut (load : Except StoreError Members) (m : String × Json) : Except StoreError Members :=
  if Shallow m.2 then .ok (Json.rereadMembers ((load.toOption.getD []).insert m.1 m.2))
  else .error .notJson

theorem load_putAll (sound : ∀ m ∈ puts, m.2.Sound) (done : s.putAll puts = .ok s') :
    s'.load = puts.foldl behindPut s.load := by
  induction puts generalizing s with
  | nil =>
    cases done
    rfl
  | cons m puts ih =>
    obtain ⟨key, value⟩ := m
    obtain ⟨here, behind⟩ := List.forall_mem_cons.mp sound
    unfold putAll at done
    split at done
    · next next put =>
      have load := @load_behind_put s key value here (by rw [put])
      rw [put] at load
      rw [ih behind done, load]
      rfl
    · cases done

theorem foldl_behindPut (shallow : ∀ m ∈ puts, Shallow m.2) (apart : ∀ m ∈ puts, m.1 ≠ key)
    (members : Members) :
    (puts.foldl behindPut (.ok members)).map (Members.get? key) =
      .ok ((members.get? key).map (Json.reread^[puts.length])) := by
  induction puts generalizing members with
  | nil =>
    show Except.ok (members.get? key) = _
    simp
  | cons m puts ih =>
    obtain ⟨here, behind⟩ := List.forall_mem_cons.mp shallow
    obtain ⟨ne, apart'⟩ := List.forall_mem_cons.mp apart
    have step : behindPut (.ok members) m =
        .ok (Json.rereadMembers (members.insert m.1 m.2)) := if_pos here
    rw [List.foldl_cons, step, ih behind apart', Json.get?_rereadMembers, Members.get?_insert,
      if_neg ne, Option.map_map]
    rfl

/-- From the first put on, a file that cannot be read is as good as empty. -/
theorem foldl_behindPut_error (some : puts ≠ []) (cause : StoreError) :
    puts.foldl behindPut (.error cause) = puts.foldl behindPut (.ok []) := by
  cases puts with
  | nil => exact absurd rfl some
  | cons m puts => rfl

/-- What is put last under a key is there, its floats read back once for every put since. -/
theorem get_latest {before after : List (String × Json)}
    (sound : ∀ m ∈ before ++ (key, value) :: after, m.2.Sound)
    (done : s.putAll (before ++ (key, value) :: after) = .ok s')
    (shallow : ∀ m ∈ (key, value) :: after, Shallow m.2) (apart : ∀ m ∈ after, m.1 ≠ key) :
    Store.get s' key = .ok (some (Json.reread^[after.length + 1] value)) := by
  obtain ⟨here, behind⟩ := List.forall_mem_cons.mp shallow
  rw [get_eq, load_putAll sound done, List.foldl_append, List.foldl_cons]
  generalize List.foldl behindPut s.load before = load
  have step : behindPut load (key, value) = .ok _ := if_pos here
  rw [step, foldl_behindPut behind apart, Json.get?_rereadMembers, Members.get?_insert, if_pos rfl]
  rfl

/-- What puts that were all done have made of a file. -/
structure Kept (s s' : FileStore) (puts : List (String × Json)) : Prop where
  /-- The value put last under a key is there, its floats read back once for every put since; with
  few digits it is just the value. -/
  latest : ∀ before key value after, puts = before ++ (key, value) :: after →
    (∀ m ∈ (key, value) :: after, Shallow m.2) → (∀ m ∈ after, m.1 ≠ key) →
    Store.get s' key = .ok (some (Json.reread^[after.length + 1] value)) ∧
      (value.Brief → Store.get s' key = .ok (some value))
  /-- All other keys have what they had, with floats read back as often. -/
  others : (∀ m ∈ puts, Shallow m.2) → ∀ key, (∀ m ∈ puts, m.1 ≠ key) →
    Store.get s' key = (Store.get s key).map (Option.map Json.reread^[puts.length])
  /-- With few digits they have exactly what they had. -/
  exact : (∀ m ∈ puts, Shallow m.2) → ∀ key, (∀ m ∈ puts, m.1 ≠ key) →
    (∀ value, Store.get s key = .ok (some value) → value.Brief) → Store.get s' key = Store.get s key
  /-- Behind a value that is nested too deep, nothing can be read. -/
  unreadable : ∀ before deep, puts = before ++ [deep] → ¬ Shallow deep.2 →
    ∀ key, Store.get s' key = .error .notJson
  /-- The next put can be read again, and everything before it is lost. -/
  lost : ∀ before deep after, puts = before ++ deep :: after → ¬ Shallow deep.2 → after ≠ [] →
    (∀ m ∈ after, Shallow m.2) → ∀ key, (∀ m ∈ after, m.1 ≠ key) → Store.get s' key = .ok none

/-- Puts into a file that can be read keep what is in it, floats of many digits apart, until a value
is put that is nested too deep. -/
theorem puts_keep (load : s.load = .ok members) (sound : ∀ m ∈ puts, m.2.Sound)
    (done : s.putAll puts = .ok s') : Kept s s' puts := by
  have found (key : String) : Store.get s' key =
      (puts.foldl behindPut (.ok members)).map (Members.get? key) := by
    rw [get_eq, load_putAll sound done, load]
  have others (shallow : ∀ m ∈ puts, Shallow m.2) (key : String) (apart : ∀ m ∈ puts, m.1 ≠ key) :
      Store.get s' key = (Store.get s key).map (Option.map Json.reread^[puts.length]) := by
    rw [found, foldl_behindPut shallow apart, get_eq, load]
    rfl
  refine
    { latest := fun before key value after split shallow apart => ?_
      others := others
      exact := fun shallow key apart brief => ?_
      unreadable := fun before deep split nested key => ?_
      lost := fun before deep after split nested some shallow key apart => ?_ }
  · subst split
    have got := get_latest sound done shallow apart
    refine ⟨got, fun brief => ?_⟩
    rw [got, Function.iterate_fixed brief.reread_eq]
  · rw [others shallow key apart]
    cases got : Store.get s key with
    | error cause => rfl
    | ok value =>
      cases value with
      | none => rfl
      | some value =>
        show Except.ok (some (Json.reread^[puts.length] value)) = _
        rw [Function.iterate_fixed (brief value got).reread_eq]
  · rw [found, split, List.foldl_append, List.foldl_cons]
    generalize List.foldl behindPut (.ok members) before = load
    have step : behindPut load deep = .error .notJson := if_neg nested
    rw [step]
    rfl
  · rw [found, split, List.foldl_append, List.foldl_cons]
    generalize List.foldl behindPut (.ok members) before = load
    have step : behindPut load deep = .error .notJson := if_neg nested
    rw [step, foldl_behindPut_error some, foldl_behindPut shallow apart]
    rfl

/-- Arrays nested in each other, `n` of them around an empty one. -/
def nested : (n : ℕ) → Json
  | 0 => .arr []
  | n + 1 => .arr [nested n]

theorem sound_nested (n : ℕ) : (nested n).Sound := by
  induction n with
  | zero => exact .arr fun v mem => by cases mem
  | succ n ih => exact .arr (List.forall_mem_singleton.mpr ih)

theorem nesting_nested (n : ℕ) : (nested n).nesting = n + 1 := by
  induction n with
  | zero => rfl
  | succ n ih => rw [nested, Json.nesting, Json.nestingItems, Json.nestingItems, ih, Nat.max_zero]

/-- A store in the only file there is. -/
def alone (bytes : List UInt8) : FileStore :=
  ⟨⟨#[], [(#["state"], .file bytes)]⟩, ⟨"state"⟩⟩

theorem load_alone {bytes : List UInt8} (object : Json.ofBytes? bytes = some (.obj members)) :
    (alone bytes).load = .ok members := by
  have read : (⟨#[], [(#["state"], .file bytes)]⟩ : Disk).read ⟨"state"⟩ = .ok bytes := rfl
  exact load_of_object read object

/-- A shallow value leaves the other key as it was. One that is nested too deep is put as well, but
then no key can be read, and the next put loses them both. -/
theorem puts_keep_nested :
    let s := alone (encode [("a", .int 1)])
    s.load = .ok [("a", .int 1)] ∧
      (∃ s', s.putAll [("b", .null)] = .ok s' ∧ Store.get s' "a" = .ok (some (.int 1)) ∧
        Store.get s' "b" = .ok (some .null)) ∧
      (∃ s', s.putAll [("b", nested 126)] = .ok s' ∧ ∀ key, Store.get s' key = .error .notJson) ∧
      ∃ s', s.putAll [("b", nested 126), ("c", .null)] = .ok s' ∧ Store.get s' "a" = .ok none ∧
        Store.get s' "b" = .ok none := by
  intro s
  have stored : Json.Storable Json.nestingLimit (.obj [("a", .int 1)]) :=
    .obj (List.pairwise_singleton _ _) (List.forall_mem_singleton.mpr (.int (by decide)))
  have load : s.load = .ok [("a", .int 1)] := load_alone (Json.ofBytes?_pretty stored)
  have got : Store.get s "a" = .ok (some (.int 1)) := by
    rw [get_eq, load]
    rfl
  have done (puts : List (String × Json)) (ok : (s.putAll puts).isOk) :
      ∃ s', s.putAll puts = .ok s' := by
    cases put : s.putAll puts with
    | error cause =>
      rw [put] at ok
      cases ok
    | ok s' => exact ⟨s', rfl⟩
  have deep : ¬ Shallow (nested 126) := by
    unfold Shallow
    rw [nesting_nested]
    decide
  refine ⟨load, ?_, ?_, ?_⟩
  · have flat : ∀ m ∈ [("b", Json.null)], Shallow m.2 := List.forall_mem_singleton.mpr (by decide)
    obtain ⟨s', put⟩ := done [("b", .null)] (by decide +kernel)
    have kept := puts_keep load (List.forall_mem_singleton.mpr .null) put
    refine ⟨s', put, ?_, (kept.latest [] "b" .null [] rfl flat (fun m mem => by cases mem)).1⟩
    rw [kept.exact flat "a" (by decide) fun value held => ?_, got]
    rw [got] at held
    cases held
    exact .int
  · obtain ⟨s', put⟩ := done [("b", nested 126)] (by decide +kernel)
    have kept := puts_keep load (List.forall_mem_singleton.mpr (sound_nested 126)) put
    exact ⟨s', put, kept.unreadable [] _ rfl deep⟩
  · have flat : ∀ m ∈ [("c", Json.null)], Shallow m.2 := List.forall_mem_singleton.mpr (by decide)
    obtain ⟨s', put⟩ := done [("b", nested 126), ("c", .null)] (by decide +kernel)
    have kept := puts_keep load (List.forall_mem_cons.mpr
      ⟨sound_nested 126, List.forall_mem_singleton.mpr .null⟩) put
    have lost := kept.lost [] _ _ rfl deep (List.cons_ne_nil _ _) flat
    exact ⟨s', put, lost "a" (by decide), lost "b" (by decide)⟩

/-- A put of one key changes the float under another. -/
theorem put_changes_float :
    let s := alone (Text.utf8 "\x7b\"a\":39e-23\x7d".toList)
    Store.get s "a" = .ok (some (.float ⟨0x3b7d77b27616c954⟩)) ∧
      (Store.put s "b" (.int 1)).1 = .ok () ∧
      Store.get (Store.put s "b" (.int 1)).2 "a" = .ok (some (.float ⟨0x3b7d77b27616c953⟩)) := by
  intro s
  have object : Json.ofBytes? (Text.utf8 "\x7b\"a\":39e-23\x7d".toList) =
      some (.obj [("a", .float ⟨0x3b7d77b27616c954⟩)]) := by
    unfold Json.ofBytes?
    rw [Text.decode?_utf8]
    rfl
  have load : s.load = .ok [("a", .float ⟨0x3b7d77b27616c954⟩)] := load_alone object
  have put : (Store.put s "b" (.int 1)).1 = .ok () := by decide +kernel
  have behind := load_behind_put (.int (by decide)) put
  refine ⟨?_, put, ?_⟩
  · rw [get_eq, load]
    rfl
  · rw [get_eq, behind, readable_of_load load]
    rfl

end FileStore

end Glance
