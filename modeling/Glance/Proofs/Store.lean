import Glance.Proofs.Disk
import Glance.Proofs.Json.Readable
import Glance.Store

/-!
# A file shared as a store

Several handles on one file, used in any order, answer as one store in memory would that begins with
what the file holds (`FileStore.shared_refines_memory`). A file that is there and holds no object
answers nothing until the first put, which replaces it.

Behind every put that did not fail, the file holds what was read before it with the one key changed;
that is because an object is read back as it was written.
-/

namespace Glance

/-! ## Accesses -/

namespace Store

/-- One access to a store. -/
inductive Access where
  | get (key : String)
  | put (key : String) (value : Json)

def Access.isGet : Access → Bool
  | .get _ => true
  | .put _ _ => false

/-- What a store answers: a value if it was asked for one, and nothing to a put. -/
abbrev Answer := Except StoreError (Option Json)

variable {σ : Type} [Store σ]

/-- The answer to an access, and the store behind it. -/
def access (s : σ) : Access → Answer × σ
  | .get key => (Store.get s key, s)
  | .put key value => ((Store.put s key value).1.map fun () => none, (Store.put s key value).2)

/-- The answers of one store to accesses in turn. -/
def answers : σ → List Access → List Answer
  | _, [] => []
  | s, a :: rest => (access s a).1 :: answers (access s a).2 rest

end Store

namespace FileStore

open Store (Access Answer access answers)

variable {ι : Type}

/-- The answers to accesses in turn, each through one of several handles on the files of a disk. -/
def shared (handles : ι → Path) : Disk → List (ι × Access) → List Answer
  | _, [] => []
  | d, (i, a) :: rest =>
    let (answer, s) := access (⟨d, handles i⟩ : FileStore) a
    answer :: shared handles s.disk rest

/-- The disk behind such accesses. -/
def diskBehind (handles : ι → Path) : Disk → List (ι × Access) → Disk
  | d, [] => d
  | d, (i, a) :: rest => diskBehind handles (access (⟨d, handles i⟩ : FileStore) a).2.disk rest

/-- Several handles on the file at a path are one store in memory, which begins with what the file
holds. -/
structure Refines (handles : ι → Path) (path : Path) (d : Disk) (accesses : List (ι × Access)) :
    Prop where
  absent : d.contains path = false →
    shared handles d accesses = answers MemoryStore.empty (accesses.map Prod.snd)
  object : ∀ bytes members, d.read path = .ok bytes →
    Json.ofBytes? bytes = some (.obj members) →
    shared handles d accesses = answers (⟨members⟩ : MemoryStore) (accesses.map Prod.snd)
  /-- A file that holds no object is as good as empty from the first put on. -/
  other : d.contains path →
    (∀ bytes members, d.read path = .ok bytes → Json.ofBytes? bytes ≠ some (.obj members)) →
    ∃ cause, shared handles d accesses =
      (accesses.takeWhile (·.2.isGet)).map (fun _ => .error cause) ++
        answers MemoryStore.empty ((accesses.dropWhile (·.2.isGet)).map Prod.snd)
  /-- A put is seen through every handle and leaves every other key as it was. -/
  put : ∀ before i key value after, accesses = before ++ (i, .put key value) :: after →
    ∀ j other, Store.get
        (⟨diskBehind handles d (before ++ [(i, .put key value)]), handles j⟩ : FileStore) other =
      .ok (if key = other then some value
        else (Store.get (⟨diskBehind handles d before, handles i⟩ : FileStore) other).toOption.getD
          none)

variable {handles : ι → Path} {path : Path} {d : Disk} {s : FileStore} {key other : String}
  {value : Json} {members : Json.Members} {bytes : List UInt8} {accesses : List (ι × Access)}
  {cause : StoreError}

/-! ## What a file holds -/

theorem get_eq (s : FileStore) (key : String) :
    Store.get s key = s.load.map (Json.Members.get? key) := rfl

theorem load_of_absent (absent : s.disk.contains s.path = false) : s.load = .ok [] := by
  unfold load
  rw [if_neg (by simp [absent])]

theorem load_of_object (read : s.disk.read s.path = .ok bytes)
    (object : Json.ofBytes? bytes = some (.obj members)) : s.load = .ok members := by
  unfold load
  rw [if_pos (Disk.contains_of_read read), read]
  dsimp only
  rw [object]

theorem load_of_other (contains : s.disk.contains s.path)
    (other : ∀ bytes members, s.disk.read s.path = .ok bytes →
      Json.ofBytes? bytes ≠ some (.obj members)) : ∃ cause, s.load = .error cause := by
  unfold load
  rw [if_pos contains]
  split
  · exact ⟨_, rfl⟩
  · next bytes read =>
    split
    · exact ⟨_, rfl⟩
    · next members object => exact absurd object (other bytes members read)
    · exact ⟨_, rfl⟩

/-! ## Putting -/

/-- How writing a file by way of the temporary one can end: with nothing written, with the new
contents beside the file, or with the new contents in it. -/
inductive Ended (d : Disk) (path : Path) (bytes : List UInt8) : Except DiskError Unit × Disk → Prop
  | unwritten (cause : DiskError) : Ended d path bytes (.error cause, d)
  | aside {written : Disk} (cause : DiskError)
      (write : d.write (temporary path) bytes = .ok written) :
      Ended d path bytes (.error cause, written)
  | done {written moved : Disk} (write : d.write (temporary path) bytes = .ok written)
      (rename : written.rename (temporary path) path = .ok moved) :
      Ended d path bytes (.ok (), moved)

theorem ended_replace (d : Disk) (path : Path) (bytes : List UInt8) :
    Ended d path bytes (replace d path bytes) := by
  unfold replace
  cases write : d.write (temporary path) bytes with
  | error cause => exact .unwritten cause
  | ok written =>
    dsimp only
    cases rename : written.rename (temporary path) path with
    | error cause => exact .aside cause write
    | ok moved => exact .done write rename

/-- The disk when the folder of the file has been made, as far as it could be. -/
def prepared (s : FileStore) : Disk :=
  match s.path.parent with
  | some folder => (s.disk.makeFolders folder).2
  | none => s.disk

/-- The folder of the file is made, or the disk failed, or there is none to make; then the file is
written. -/
theorem save_ended (s : FileStore) (members : Json.Members) :
    ∃ result, Ended s.prepared s.path (encode members) result ∧
      s.save members = (result.1.mapError .disk, { s with disk := result.2 }) := by
  unfold save prepared
  cases s.path.parent with
  | none => exact ⟨_, ended_replace _ _ _, rfl⟩
  | some folder =>
    dsimp only
    obtain ⟨made, d⟩ := s.disk.makeFolders folder
    cases made with
    | error cause => exact ⟨_, .unwritten cause, rfl⟩
    | ok _ => exact ⟨_, ended_replace _ _ _, rfl⟩

theorem save_cases (s : FileStore) (members : Json.Members) :
    (∃ cause, (s.save members).1 = .error (.disk cause)) ∨
      ((s.save members).1 = .ok () ∧
        (s.save members).2.disk.read s.path = .ok (encode members)) := by
  obtain ⟨result, ended, eq⟩ := save_ended s members
  rw [eq]
  cases ended with
  | unwritten cause => exact .inl ⟨cause, rfl⟩
  | aside cause write => exact .inl ⟨cause, rfl⟩
  | done write rename => exact .inr ⟨rfl, Disk.read_of_write_rename write rename⟩

/-- What can be read of a file: nothing if it is no object. -/
def readable (s : FileStore) : Json.Members :=
  s.load.toOption.getD []

/-- Everything that can be read of the file can be stored. -/
def Keepable (s : FileStore) : Prop :=
  ∀ members, s.load = .ok members → Json.Storable Json.nestingLimit (.obj members)

theorem storable_nil : Json.Storable Json.nestingLimit (.obj []) :=
  .obj List.Pairwise.nil fun m mem => by cases mem

theorem storable_insert (storable : Json.Storable Json.nestingLimit (.obj members))
    (value' : Json.Storable 126 value) (key : String) :
    Json.Storable Json.nestingLimit (.obj (members.insert key value)) := by
  cases storable with
  | obj sorted each =>
    refine .obj (sorted.insert key value) fun m mem => ?_
    rcases Json.Members.mem_of_mem_insert mem with rfl | mem
    · exact value'
    · exact each m mem

theorem Keepable.readable (keepable : s.Keepable) :
    Json.Storable Json.nestingLimit (.obj s.readable) := by
  unfold FileStore.readable
  cases load : s.load with
  | error cause => exact storable_nil
  | ok members => exact keepable members load

/-- A put fails, or the file then holds what was readable with the one key changed. -/
theorem put_cases (keepable : s.Keepable) (storable : Json.Storable 126 value) (key : String) :
    (∃ cause, (Store.put s key value).1 = .error (.disk cause)) ∨
      ((Store.put s key value).1 = .ok () ∧ ∀ s' : FileStore,
        s'.disk = (Store.put s key value).2.disk → s'.path = s.path →
        s'.load = .ok (s.readable.insert key value)) := by
  rcases save_cases s (s.readable.insert key value) with failed | ⟨done, read⟩
  · exact .inl failed
  · refine .inr ⟨done, fun s' disk path => load_of_object ?_
      (Json.ofBytes?_pretty (storable_insert keepable.readable storable key))⟩
    rw [disk, path]
    exact read

/-! ## Runs -/

/-- No answer tells of a failure of the disk. -/
def Undisturbed (given : List Answer) : Prop :=
  ∀ answer ∈ given, ∀ cause, answer ≠ .error (.disk cause)

/-- The values that are put can be stored as members of an object. -/
def InLimits (accesses : List (ι × Access)) : Prop :=
  ∀ i key value, (i, Access.put key value) ∈ accesses → Json.Storable 126 value

theorem InLimits.tail {x : ι × Access} (limits : InLimits (x :: accesses)) : InLimits accesses :=
  fun i key value mem => limits i key value (.tail _ mem)

theorem shared_append (handles : ι → Path) (d : Disk) (before after : List (ι × Access)) :
    shared handles d (before ++ after) =
      shared handles d before ++ shared handles (diskBehind handles d before) after := by
  induction before generalizing d with
  | nil => rfl
  | cons x before ih =>
    show _ :: shared handles _ (before ++ after) = _ :: _
    rw [ih]
    rfl

theorem diskBehind_append (handles : ι → Path) (d : Disk) (before after : List (ι × Access)) :
    diskBehind handles d (before ++ after) =
      diskBehind handles (diskBehind handles d before) after := by
  induction before generalizing d with
  | nil => rfl
  | cons x before ih => exact ih _

/-- A put that the disk did not disturb changes one key of what was readable. -/
theorem load_put (keepable : Keepable ⟨d, path⟩) (storable : Json.Storable 126 value)
    (calm : ∀ cause, (access (⟨d, path⟩ : FileStore) (.put key value)).1 ≠ .error (.disk cause)) :
    (access (⟨d, path⟩ : FileStore) (.put key value)).1 = .ok none ∧
      load ⟨(access (⟨d, path⟩ : FileStore) (.put key value)).2.disk, path⟩ =
        .ok ((readable ⟨d, path⟩).insert key value) := by
  unfold access at calm ⊢
  dsimp only at calm ⊢
  rcases put_cases keepable storable key with ⟨cause, failed⟩ | ⟨done, loads⟩
  · rw [failed] at calm
    exact absurd rfl (calm cause)
  · rw [done]
    exact ⟨rfl, loads ⟨_, path⟩ rfl rfl⟩

theorem readable_of_load (load : s.load = .ok members) : s.readable = members := by
  unfold readable
  rw [load]
  rfl

theorem readable_of_error (load : s.load = .error cause) : s.readable = [] := by
  unfold readable
  rw [load]
  rfl

theorem keepable_of_load (load : s.load = .ok members)
    (storable : Json.Storable Json.nestingLimit (.obj members)) : s.Keepable := by
  intro members' load'
  rw [load] at load'
  cases load'
  exact storable

/-- From a file that holds an object, all answers are those of the store in memory. -/
theorem shared_of_load (limits : InLimits accesses)
    (calm : Undisturbed (shared (fun _ => path) d accesses)) (load : load ⟨d, path⟩ = .ok members)
    (storable : Json.Storable Json.nestingLimit (.obj members)) :
    shared (fun _ => path) d accesses =
      answers (⟨members⟩ : MemoryStore) (accesses.map Prod.snd) := by
  -- Induction over the accesses; a put is what changes the disk and the members.
  induction accesses generalizing d members with
  | nil => rfl
  | cons x accesses ih =>
    obtain ⟨i, a⟩ := x
    obtain ⟨here, behind⟩ := List.forall_mem_cons.mp calm
    cases a with
    | get key =>
      show Store.get (⟨d, path⟩ : FileStore) key :: shared (fun _ => path) d accesses = _
      rw [get_eq, load, ih limits.tail behind load storable]
      rfl
    | put key value =>
      have value' := limits i key value (.head _)
      obtain ⟨done, load'⟩ := load_put (keepable_of_load load storable) value' here
      rw [readable_of_load load] at load'
      have onward := ih limits.tail behind load' (storable_insert storable value' key)
      show (access (⟨d, path⟩ : FileStore) (.put key value)).1 ::
        shared (fun _ => path) _ accesses = _
      rw [done, onward]
      rfl

/-- From a file that holds no object, all answers fail until the first put, and from there on they
are those of the empty store. -/
theorem shared_of_error (limits : InLimits accesses)
    (calm : Undisturbed (shared (fun _ => path) d accesses))
    (load : load ⟨d, path⟩ = .error cause) :
    shared (fun _ => path) d accesses =
      (accesses.takeWhile (·.2.isGet)).map (fun _ => .error cause) ++
        answers MemoryStore.empty ((accesses.dropWhile (·.2.isGet)).map Prod.snd) := by
  induction accesses with
  | nil => rfl
  | cons x accesses ih =>
    obtain ⟨i, a⟩ := x
    obtain ⟨here, behind⟩ := List.forall_mem_cons.mp calm
    cases a with
    | get key =>
      show Store.get (⟨d, path⟩ : FileStore) key :: shared (fun _ => path) d accesses = _
      rw [get_eq, load, ih limits.tail behind]
      rfl
    | put key value =>
      have value' := limits i key value (.head _)
      have keepable : Keepable ⟨d, path⟩ := by
        intro members load'
        rw [load] at load'
        cases load'
      obtain ⟨done, load'⟩ := load_put keepable value' here
      rw [readable_of_error load] at load'
      have onward := shared_of_load limits.tail behind load'
        (storable_insert storable_nil value' key)
      show (access (⟨d, path⟩ : FileStore) (.put key value)).1 ::
        shared (fun _ => path) _ accesses = _
      rw [done, onward]
      rfl

theorem keepable_diskBehind (limits : InLimits accesses)
    (calm : Undisturbed (shared (fun _ => path) d accesses)) (keepable : Keepable ⟨d, path⟩) :
    Keepable ⟨diskBehind (fun _ => path) d accesses, path⟩ := by
  induction accesses generalizing d with
  | nil => exact keepable
  | cons x accesses ih =>
    obtain ⟨i, a⟩ := x
    obtain ⟨here, behind⟩ := List.forall_mem_cons.mp calm
    cases a with
    | get key => exact ih limits.tail behind keepable
    | put key value =>
      have value' := limits i key value (.head _)
      obtain ⟨-, load'⟩ := load_put keepable value' here
      exact ih limits.tail behind
        (keepable_of_load load' (storable_insert keepable.readable value' key))

theorem keepable_of_whole (whole : ∀ bytes members, s.disk.read s.path = .ok bytes →
    Json.ofBytes? bytes = some (.obj members) → Json.Whole (.obj members)) : s.Keepable := by
  intro members load
  by_cases contains : s.disk.contains s.path
  · by_cases holds : ∃ bytes members, s.disk.read s.path = .ok bytes ∧
        Json.ofBytes? bytes = some (.obj members)
    · obtain ⟨bytes, members', read, object⟩ := holds
      rw [load_of_object read object] at load
      cases load
      exact Json.storable_of_ofBytes? object (whole bytes members read object)
    · obtain ⟨cause, failed⟩ := load_of_other contains fun bytes members' read object =>
        holds ⟨bytes, members', read, object⟩
      rw [failed] at load
      cases load
  · rw [load_of_absent (Bool.eq_false_iff.mpr contains)] at load
    cases load
    exact storable_nil

theorem toOption_get (s : FileStore) (key : String) :
    (Store.get s key).toOption.getD none = s.readable.get? key := by
  rw [get_eq]
  unfold readable
  cases s.load <;> rfl

/-- Any number of handles on one file, used in any order, refine one store in memory. -/
theorem shared_refines_memory (same : ∀ i, handles i = path)
    (whole : ∀ bytes members, d.read path = .ok bytes →
      Json.ofBytes? bytes = some (.obj members) → Json.Whole (.obj members))
    (limits : InLimits accesses) (calm : Undisturbed (shared handles d accesses)) :
    Refines handles path d accesses := by
  obtain rfl : handles = fun _ => path := funext same
  have keepable : Keepable ⟨d, path⟩ := keepable_of_whole whole
  refine ⟨fun absent => ?_, fun bytes members read object => ?_, fun contains other => ?_, ?_⟩
  · exact shared_of_load limits calm (load_of_absent absent) (keepable _ (load_of_absent absent))
  · have load := load_of_object (s := ⟨d, path⟩) read object
    exact shared_of_load limits calm load (keepable members load)
  · obtain ⟨cause, load⟩ := load_of_other (s := ⟨d, path⟩) contains other
    exact ⟨cause, shared_of_error limits calm load⟩
  · rintro before i key value after rfl j other
    rw [shared_append] at calm
    have earlier : Undisturbed (shared (fun _ => path) d before) := fun answer mem =>
      calm answer (List.mem_append_left _ mem)
    have limits' : InLimits before := fun i key value mem =>
      limits i key value (List.mem_append_left _ mem)
    have there := keepable_diskBehind limits' earlier keepable
    have value' := limits i key value (List.mem_append_right _ (.head _))
    obtain ⟨-, load⟩ := load_put there value' (calm _ (List.mem_append_right _ (.head _)))
    rw [diskBehind_append, toOption_get, ← Json.Members.get?_insert, get_eq]
    show (FileStore.load ⟨(access (⟨diskBehind (fun _ => path) d before, path⟩ : FileStore)
      (.put key value)).2.disk, path⟩).map (Json.Members.get? other) = _
    rw [load]
    rfl

/-- Two handles on a file that holds one member: one puts a second, the other still gets the first.
-/
theorem shared_refines_memory_two :
    let members : Json.Members := [("a", .int 1)]
    let d : Disk := ⟨#[], [(#["state"], .file (encode members))]⟩
    let handles : Bool → Path := fun _ => ⟨"state"⟩
    let accesses : List (Bool × Access) := [(true, .put "b" .null), (false, .get "a")]
    Undisturbed (shared handles d accesses) ∧ InLimits accesses ∧
      shared handles d accesses = [.ok none, .ok (some (.int 1))] := by
  intro members d handles accesses
  have stored : Json.Storable Json.nestingLimit (.obj members) :=
    .obj (List.pairwise_singleton _ _) fun m mem => by
      rw [List.mem_singleton.mp mem]
      exact .int (by decide)
  have object : Json.ofBytes? (encode members) = some (.obj members) :=
    Json.ofBytes?_pretty stored
  have read : d.read ⟨"state"⟩ = .ok (encode members) := rfl
  have whole : ∀ bytes members, d.read ⟨"state"⟩ = .ok bytes →
      Json.ofBytes? bytes = some (.obj members) → Json.Whole (.obj members) := by
    intro bytes members' read' object'
    rw [read] at read'
    cases read'
    rw [object] at object'
    cases object'
    exact .obj fun m mem => by
      rw [List.mem_singleton.mp mem]
      exact .int
  have limits : InLimits accesses := by
    intro i key value mem
    simp only [accesses, List.mem_cons, List.not_mem_nil, or_false] at mem
    rcases mem with mem | mem
    · cases mem
      exact .null
    · cases mem
  have load : FileStore.load ⟨d, ⟨"state"⟩⟩ = .ok members :=
    load_of_object (s := ⟨d, ⟨"state"⟩⟩) read object
  have done : (access (⟨d, ⟨"state"⟩⟩ : FileStore) (.put "b" .null)).1.isOk = true := by
    decide +kernel
  obtain ⟨answer, load'⟩ := load_put (keepable_of_load load stored) .null fun cause failed => by
    rw [failed] at done
    cases done
  have given : shared handles d accesses = [.ok none, .ok (some (.int 1))] := by
    show [(access (⟨d, ⟨"state"⟩⟩ : FileStore) (.put "b" .null)).1,
      (FileStore.load ⟨(access (⟨d, ⟨"state"⟩⟩ : FileStore) (.put "b" .null)).2.disk,
        ⟨"state"⟩⟩).map (Json.Members.get? "a")] = _
    rw [answer, load']
    unfold readable
    rw [load]
    rfl
  have calm : Undisturbed (shared handles d accesses) := by
    rw [given]
    intro answer mem cause
    simp only [List.mem_cons, List.not_mem_nil, or_false] at mem
    rcases mem with rfl | rfl <;> simp
  exact ⟨calm, limits,
    (shared_refines_memory (fun _ => rfl) whole limits calm).object _ _ read object⟩

end FileStore

end Glance
