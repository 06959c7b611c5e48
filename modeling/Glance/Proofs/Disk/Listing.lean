import Glance.Proofs.Disk
import Glance.Proofs.Neighbor
import Glance.Proofs.Path

/-!
# Listing a folder

The paths that a listing gives are those that lead to a file right below the folder
(`mem_siblings_iff`), in the order of their names. A disk has to be one that can be there: each
place is in it once, and names are names. What writing, moving and making folders leave behind is
one.
-/

namespace Glance

namespace Disk

variable {d d' : Disk} {p folder path source target : Path} {place next other : Place}
  {node : Node} {bytes : List UInt8} {name : String} {names : List String} {kind : FileKind}
  {segment : List Char}

/-- What is on the disk can be there. -/
structure Sound (d : Disk) : Prop where
  current : ∀ name ∈ d.current, IsFileName name
  once : (d.nodes.map Prod.fst).Nodup
  names : ∀ place ∈ d.nodes.map Prod.fst, ∀ name ∈ place, IsFileName name

/-! ## Following a name -/

theorem enter_eq_ok (entered : d.enter place segment = .ok next) :
    d.node? place = some .folder ∧
      (((segment = [] ∨ segment = ['.']) ∧ next = place) ∨
        (segment = ['.', '.'] ∧ next = place.pop) ∨
        (segment ≠ [] ∧ segment ≠ ['.'] ∧ segment ≠ ['.', '.'] ∧
          next = place.push (String.ofList segment))) := by
  unfold enter at entered
  split at entered
  · cases entered
  · cases entered
  · next isFolder =>
    refine ⟨isFolder, ?_⟩
    split_ifs at entered with stays up long
    · exact .inl ⟨stays, (Except.ok.inj entered).symm⟩
    · exact .inr (.inl ⟨up, (Except.ok.inj entered).symm⟩)
    · rw [not_or] at stays
      exact .inr (.inr ⟨stays.1, stays.2, up, (Except.ok.inj entered).symm⟩)

theorem enter_name (isName : Path.IsName segment) (entered : d.enter place segment = .ok next) :
    next = place.push (String.ofList segment) := by
  rcases (enter_eq_ok entered).2 with ⟨same | same, -⟩ | ⟨same, -⟩ | ⟨-, -, -, pushed⟩
  · exact absurd same isName.filled
  · exact absurd same isName.ne_here
  · exact absurd same isName.ne_up
  · exact pushed

theorem follow_of_locate (located : d.locate p = .ok place) :
    p.segments.foldlM d.enter (d.origin p) = .ok place := by
  unfold locate at located
  split_ifs at located
  exact located

theorem resolve_eq_ok (resolved : d.resolve p = .ok (place, node)) :
    d.locate p = .ok place ∧ d.node? place = some node := by
  unfold resolve at resolved
  cases located : d.locate p with
  | error cause =>
    rw [located] at resolved
    cases resolved
  | ok here =>
    rw [located] at resolved
    dsimp only [bind, Except.bind] at resolved
    split at resolved
    · next holds =>
      cases resolved
      exact ⟨rfl, holds⟩
    · cases resolved

theorem follow_cons {segments : List (List Char)}
    (followed : (segment :: segments).foldlM d.enter place = .ok next) :
    ∃ middle, d.enter place segment = .ok middle ∧ segments.foldlM d.enter middle = .ok next := by
  rw [List.foldlM_cons] at followed
  cases entered : d.enter place segment with
  | error cause =>
    rw [entered] at followed
    cases followed
  | ok middle =>
    rw [entered] at followed
    exact ⟨middle, rfl, followed⟩

theorem follow_append {segments rest : List (List Char)}
    (followed : (segments ++ rest).foldlM d.enter place = .ok next) :
    ∃ middle, segments.foldlM d.enter place = .ok middle ∧
      rest.foldlM d.enter middle = .ok next := by
  rw [List.foldlM_append] at followed
  cases before : segments.foldlM d.enter place with
  | error cause =>
    rw [before] at followed
    cases followed
  | ok middle =>
    rw [before] at followed
    exact ⟨middle, rfl, followed⟩

theorem follow_concat {segments : List (List Char)}
    (followed : (segments ++ [segment]).foldlM d.enter place = .ok next) :
    ∃ middle, segments.foldlM d.enter place = .ok middle ∧ d.enter middle segment = .ok next := by
  obtain ⟨middle, before, followed⟩ := follow_append followed
  obtain ⟨_, entered, done⟩ := follow_cons followed
  cases done
  exact ⟨middle, before, entered⟩

/-- A name in a folder leads right below the folder, if it leads anywhere. -/
theorem locate_child (legal : IsFileName name) (filled : folder.text ≠ "")
    (here : d.locate folder = .ok place) (located : d.locate (folder.child name) = .ok next) :
    next = place.push name := by
  obtain ⟨front, segments, own⟩ := Path.segments_child legal.separate filled
  have onward := follow_of_locate located
  have start : d.origin (folder.child name) = d.origin folder := by
    unfold origin
    rw [Path.isAbsolute_child legal.separate filled]
  have reached : front.foldlM d.enter (d.origin folder) = .ok place := by
    have reached := follow_of_locate here
    rcases own with own | own <;> rw [own] at reached
    · exact reached
    · -- The separator at the end of the folder's path leads nowhere else.
      obtain ⟨middle, before, entered⟩ := follow_concat reached
      rcases (enter_eq_ok entered).2 with ⟨-, same⟩ | ⟨dots, -⟩ | ⟨filled, -⟩
      · rwa [same]
      · cases dots
      · exact absurd rfl filled
  rw [segments, start] at onward
  obtain ⟨middle, before, entered⟩ := follow_concat onward
  obtain rfl := Except.ok.inj (before.symm.trans reached)
  have pushed := enter_name (.of_isFileName legal) entered
  rwa [String.ofList_toList] at pushed

/-! ## Names in a folder -/

theorem nameIn_eq_some_iff : nameIn place other = some name ↔ other = place.push name := by
  unfold nameIn
  constructor
  · intro found
    split at found
    · next last =>
      obtain ⟨front, rfl⟩ := Array.back?_eq_some_iff.mp last
      split_ifs at found with inside
      rw [← Option.some.inj found, ← inside, Array.pop_push]
    · cases found
  · rintro rfl
    rw [Array.back?_push]
    simp

theorem mem_places_of_node? (filled : place ≠ #[]) (holds : d.node? place = some node) :
    place ∈ d.nodes.map Prod.fst := by
  unfold node? at holds
  rw [if_neg (by simpa using filled)] at holds
  obtain ⟨entry, found, -⟩ := Option.map_eq_some_iff.mp holds
  have here : entry.1 = place := by simpa using List.find?_some found
  exact List.mem_map.mpr ⟨entry, List.mem_of_find?_eq_some found, here⟩

/-- The names in a folder. -/
def namesIn (d : Disk) (place : Place) : List String :=
  (d.nodes.map Prod.fst).filterMap (nameIn place)

theorem list_of_resolve (resolved : d.resolve p = .ok (place, .folder)) :
    d.list p = .ok (d.namesIn place) := by
  unfold list namesIn
  rw [resolved, List.filterMap_map]
  rfl

theorem resolve_of_list (listed : d.list p = .ok names) :
    ∃ place, d.resolve p = .ok (place, .folder) := by
  unfold list at listed
  cases resolved : d.resolve p with
  | error cause =>
    rw [resolved] at listed
    cases listed
  | ok found =>
    rw [resolved] at listed
    obtain ⟨place, _ | _⟩ := found
    · cases listed
    · exact ⟨place, rfl⟩

theorem mem_namesIn_iff : name ∈ d.namesIn place ↔ place.push name ∈ d.nodes.map Prod.fst := by
  unfold namesIn
  rw [List.mem_filterMap]
  simp only [nameIn_eq_some_iff, exists_eq_right]

theorem Sound.legal (sound : d.Sound) (mem : place.push name ∈ d.nodes.map Prod.fst) :
    IsFileName name :=
  sound.names _ mem name (by simp)

theorem Sound.nodup_namesIn (sound : d.Sound) (place : Place) : (d.namesIn place).Nodup := by
  refine sound.once.filterMap fun a b name first second => ?_
  rw [nameIn_eq_some_iff.mp first, nameIn_eq_some_iff.mp second]

/-! ## Siblings -/

/-- The names of a folder in order. -/
theorem pairwise_mergeSort_names (once : names.Nodup) :
    (names.mergeSort nameLe).Pairwise (· < ·) := by
  have sorted : (names.mergeSort nameLe).Pairwise fun a b => nameLe a b := by
    refine List.pairwise_mergeSort ?_ ?_ names
    · intro a b c le le'
      simp only [nameLe, decide_eq_true_iff] at *
      exact le_trans le le'
    · intro a b
      simp only [nameLe, Bool.or_eq_true, decide_eq_true_iff]
      exact le_total a b
  have distinct : (names.mergeSort nameLe).Nodup := (List.mergeSort_perm _ _).nodup_iff.mpr once
  refine (sorted.and distinct).imp fun {a b} ⟨le, ne⟩ => ?_
  simp only [nameLe, decide_eq_true_iff] at le
  exact lt_of_le_of_ne le ne

theorem isFile_iff : d.isFile p ↔ ∃ place bytes, d.resolve p = .ok (place, .file bytes) := by
  unfold isFile
  cases resolved : d.resolve p with
  | error cause => simp
  | ok found => obtain ⟨place, _ | _⟩ := found <;> simp

theorem siblings_eq (resolved : d.resolve path.folder = .ok (place, .folder)) :
    d.siblings path kind =
      (((d.namesIn place).mergeSort nameLe).map path.folder.child).filter fun other =>
        d.isFile other && FileKind.ofPath? other == some kind := by
  unfold siblings
  rw [list_of_resolve resolved]
  rfl

theorem siblings_eq_nil (unread : ∀ place, d.resolve path.folder ≠ .ok (place, .folder)) :
    d.siblings path kind = [] := by
  unfold siblings
  cases listed : d.list path.folder with
  | error cause => simp [Except.toOption]
  | ok names =>
    obtain ⟨place, resolved⟩ := resolve_of_list listed
    exact absurd resolved (unread place)

theorem kind_of_mem_siblings (mem : p ∈ d.siblings path kind) : FileKind.ofPath? p = some kind := by
  unfold siblings at mem
  have kept := (List.mem_filter.mp mem).2
  rw [Bool.and_eq_true, beq_iff_eq] at kept
  exact kept.2

/-- Exactly the paths are listed that lead through a name in the folder to a file of the kind. -/
theorem mem_siblings_iff (sound : d.Sound) : p ∈ d.siblings path kind ↔
    ∃ place name bytes, d.resolve path.folder = .ok (place, .folder) ∧
      p = path.folder.child name ∧ d.resolve p = .ok (place.push name, .file bytes) ∧
      FileKind.ofPath? p = some kind := by
  have filled := path.folder_text_ne
  constructor
  · intro mem
    by_cases read : ∃ place, d.resolve path.folder = .ok (place, .folder)
    · obtain ⟨place, resolved⟩ := read
      rw [siblings_eq resolved, List.mem_filter, Bool.and_eq_true, beq_iff_eq, isFile_iff] at mem
      obtain ⟨mem, ⟨there, bytes, leads⟩, kinds⟩ := mem
      obtain ⟨name, named, rfl⟩ := List.mem_map.mp mem
      rw [(List.mergeSort_perm _ _).mem_iff, mem_namesIn_iff] at named
      obtain rfl := locate_child (sound.legal named) filled (resolve_eq_ok resolved).1
        (resolve_eq_ok leads).1
      exact ⟨place, name, bytes, resolved, rfl, leads, kinds⟩
    · rw [siblings_eq_nil (not_exists.mp read)] at mem
      cases mem
  · rintro ⟨place, name, bytes, resolved, rfl, leads, kinds⟩
    have there : place.push name ∈ d.nodes.map Prod.fst :=
      mem_places_of_node? (by simp) (resolve_eq_ok leads).2
    rw [siblings_eq resolved, List.mem_filter, Bool.and_eq_true, beq_iff_eq, isFile_iff]
    refine ⟨List.mem_map.mpr ⟨name, ?_, rfl⟩, ⟨_, bytes, leads⟩, kinds⟩
    rwa [(List.mergeSort_perm _ _).mem_iff, mem_namesIn_iff]

/-- The names of siblings ascend. -/
theorem pairwise_siblings (sound : d.Sound) (path : Path) (kind : FileKind) :
    (d.siblings path kind).Pairwise Neighbor.ByteBefore := by
  by_cases read : ∃ place, d.resolve path.folder = .ok (place, .folder)
  · obtain ⟨place, resolved⟩ := read
    rw [siblings_eq resolved]
    refine List.Pairwise.filter _ (List.pairwise_map.mpr ?_)
    refine (pairwise_mergeSort_names (sound.nodup_namesIn place)).imp_of_mem
      fun {a b} mem mem' lt => ?_
    rw [(List.mergeSort_perm _ _).mem_iff, mem_namesIn_iff] at mem mem'
    refine ⟨a, b, Path.fileName_child (sound.legal mem) path.folder_text_ne,
      Path.fileName_child (sound.legal mem') path.folder_text_ne, ?_⟩
    rwa [Text.utf8_lt_iff, ← String.lt_iff_toList_lt]
  · rw [siblings_eq_nil (not_exists.mp read)]
    exact .nil

/-- The folder of a path without separators is the current one. -/
theorem place_of_bare (separate : '/' ∉ path.text.toList)
    (resolved : d.resolve path.folder = .ok (place, node)) : place = d.current := by
  rw [Path.folder_bare separate] at resolved
  have followed : ([] ++ [['.']]).foldlM d.enter d.current = .ok place :=
    follow_of_locate (resolve_eq_ok resolved).1
  obtain ⟨middle, here, entered⟩ := follow_concat followed
  obtain rfl := Except.ok.inj here
  rcases (enter_eq_ok entered).2 with ⟨-, same⟩ | ⟨up, -⟩ | ⟨-, ne, -⟩
  · exact same
  · cases up
  · exact absurd rfl ne

/-! ## Disks that can be there -/

theorem sound_empty : Sound .empty :=
  ⟨by simp [empty], by simp [empty], by simp [empty]⟩

theorem Sound.remove (sound : d.Sound) (place : Place) : (d.remove place).Sound := by
  have kept : ((d.remove place).nodes.map Prod.fst).Sublist (d.nodes.map Prod.fst) :=
    List.filter_sublist.map _
  exact ⟨sound.current, sound.once.sublist kept, fun other mem => sound.names other (kept.mem mem)⟩

theorem Sound.put (sound : d.Sound) (legal : ∀ name ∈ place, IsFileName name) (node : Node) :
    (d.put place node).Sound := by
  have rest := sound.remove place
  have absent : place ∉ (d.remove place).nodes.map Prod.fst := by
    intro mem
    obtain ⟨entry, mem, same⟩ := List.mem_map.mp mem
    exact absurd same (by simpa using (List.mem_filter.mp mem).2)
  exact ⟨sound.current, List.nodup_cons.mpr ⟨absent, rest.once⟩,
    List.forall_mem_cons.mpr ⟨legal, rest.names⟩⟩

theorem legal_enter (legal : ∀ name ∈ place, IsFileName name) (separate : '/' ∉ segment)
    (entered : d.enter place segment = .ok next) : ∀ name ∈ next, IsFileName name := by
  rcases (enter_eq_ok entered).2 with ⟨-, rfl⟩ | ⟨-, rfl⟩ | ⟨filled, here, up, rfl⟩
  · exact legal
  · intro name mem
    rw [← Array.mem_toList_iff, Array.toList_pop] at mem
    exact legal name (Array.mem_toList_iff.mp (List.dropLast_subset _ mem))
  · intro name mem
    rcases Array.mem_push.mp mem with mem | rfl
    · exact legal name mem
    · exact ⟨by simpa using separate, by simpa using filled, by simpa using here,
        by simpa using up⟩

theorem legal_follow {segments : List (List Char)} (legal : ∀ name ∈ place, IsFileName name)
    (separate : ∀ segment ∈ segments, '/' ∉ segment)
    (followed : segments.foldlM d.enter place = .ok next) : ∀ name ∈ next, IsFileName name := by
  induction segments using List.reverseRecOn generalizing next with
  | nil =>
    obtain rfl := Except.ok.inj followed
    exact legal
  | append_singleton segments segment ih =>
    obtain ⟨middle, before, entered⟩ := follow_concat followed
    obtain ⟨separate, last⟩ := List.forall_mem_append.mp separate
    exact legal_enter (ih separate before) (last segment (.head _)) entered

theorem Sound.legal_origin (sound : d.Sound) (p : Path) : ∀ name ∈ d.origin p, IsFileName name := by
  unfold origin
  split_ifs
  · simp
  · exact sound.current

/-- Paths lead to places with names that folders can hold. -/
theorem Sound.locate (sound : d.Sound) (located : d.locate p = .ok place) :
    ∀ name ∈ place, IsFileName name :=
  legal_follow (sound.legal_origin p) p.separator_not_mem_segments (follow_of_locate located)

theorem Sound.write (sound : d.Sound) (written : d.write p bytes = .ok d') : d'.Sound := by
  obtain ⟨place, located, -, rfl⟩ := write_cases written
  exact sound.put (sound.locate located) _

theorem Sound.rename (sound : d.Sound) (moved : d.rename source target = .ok d') : d'.Sound := by
  obtain ⟨place, node, goal, -, located, -, rfl⟩ := rename_cases moved
  exact (sound.remove place).put (sound.locate located) node

/-- Making folders has left a disk that can be there, and has reached a place that can be. -/
structure Progress.Legal (made : Progress) : Prop where
  sound : made.disk.Sound
  place : ∀ place, made.place = .ok place → ∀ name ∈ place, IsFileName name

theorem Progress.Legal.through {made : Progress} (legal : made.Legal) (separate : '/' ∉ segment) :
    (made.through segment).Legal := by
  unfold Progress.through
  split
  · exact legal
  · next place here =>
    cases entered : made.disk.enter place segment with
    | error cause => exact ⟨legal.sound, nofun⟩
    | ok next =>
      have reached := legal_enter (legal.place place here) separate entered
      dsimp only
      split
      · exact ⟨legal.sound, fun place eq => Except.ok.inj eq ▸ reached⟩
      · exact ⟨legal.sound, nofun⟩
      · exact ⟨legal.sound.put reached _, fun place eq => Except.ok.inj eq ▸ reached⟩

theorem Progress.Legal.foldl {segments : List (List Char)} {made : Progress} (legal : made.Legal)
    (separate : ∀ segment ∈ segments, '/' ∉ segment) :
    (segments.foldl Progress.through made).Legal := by
  induction segments generalizing made with
  | nil => exact legal
  | cons segment segments ih =>
    obtain ⟨first, separate⟩ := List.forall_mem_cons.mp separate
    exact ih (legal.through first) separate

theorem Sound.makeFolders (sound : d.Sound) (p : Path) : (d.makeFolders p).2.Sound := by
  have start : (Progress.mk d (.ok (d.origin p))).Legal :=
    ⟨sound, fun place eq => Except.ok.inj eq ▸ sound.legal_origin p⟩
  have made := (start.foldl p.separator_not_mem_segments).sound
  unfold Disk.makeFolders
  split_ifs
  · exact sound
  · split
    · exact made
    · exact made
    · exact sound

end Disk

end Glance
