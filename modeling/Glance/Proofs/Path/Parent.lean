import Glance.Proofs.Path

/-!
# The last name of a path and what stands before it

A path is its segments (`text_eq_join`), and joining segments loses none (`segments_join`). Around a
name that is the last component of a path stand only segments that lead nowhere else, and the parent
consists of the segments up to the component before it (`parent_way`). Another extension changes the
last name alone (`segments_withExtension`).
-/

namespace Glance.Path

variable {p folder : Path} {segment text name : List Char} {segments front after : List (List Char)}
  {absolute : Bool} {part : Component} {i : ℕ}

/-! ## Segments and text -/

theorem join_cons (segment : List Char) (filled : segments ≠ []) :
    join (segment :: segments) = segment ++ '/' :: join segments := by
  obtain ⟨next, segments, rfl⟩ := List.exists_cons_of_ne_nil filled
  rfl

theorem join_singleton (segment : List Char) : join [segment] = segment :=
  List.append_nil segment

theorem join_cons_char (c : Char) (segment : List Char) (segments : List (List Char)) :
    join ((c :: segment) :: segments) = c :: join (segment :: segments) := by
  cases segments <;> rfl

/-- A path is its segments. -/
theorem text_eq_join (p : Path) : p.text.toList = join p.segments := by
  rw [segments_eq]
  induction p.text.toList with
  | nil => rfl
  | cons c text ih =>
    show c :: text = join ((consSegment c (segmentsBefore text ([], []))).1 ::
      (consSegment c (segmentsBefore text ([], []))).2)
    unfold consSegment
    split_ifs with separator
    · rw [join_cons _ (by simp), ← ih, separator]
      rfl
    · rw [join_cons_char, ← ih]

theorem segments_cons (separate : '/' ∉ segment) (text : List Char) :
    (Path.mk (String.ofList (segment ++ '/' :: text))).segments =
      segment :: (Path.mk (String.ofList text)).segments := by
  rw [segments_eq, segments_eq, String.toList_ofList, String.toList_ofList, segmentsBefore_append]
  show (segmentsBefore segment ([], _)).1 :: (segmentsBefore segment ([], _)).2 = _
  rw [segmentsBefore_of_not_mem separate, List.append_nil]
  rfl

/-- Joined segments are cut again where they were joined. -/
theorem segments_join (filled : segments ≠ []) (separate : ∀ segment ∈ segments, '/' ∉ segment) :
    (Path.mk (String.ofList (join segments))).segments = segments := by
  induction segments with
  | nil => exact absurd rfl filled
  | cons segment segments ih =>
    obtain ⟨here, separate⟩ := List.forall_mem_cons.mp separate
    by_cases last : segments = []
    · rw [last, join_singleton, segments_bare (by simpa using here), String.toList_ofList]
    · rw [join_cons _ last, segments_cons here, ih last separate]

/-- A path is absolute if an empty segment stands before the others. -/
theorem isAbsolute_iff : p.isAbsolute ↔ ∃ next rest, p.segments = [] :: next :: rest := by
  have separate := p.separator_not_mem_segments
  unfold isAbsolute
  rw [text_eq_join, beq_iff_eq]
  rcases split : p.segments with _ | ⟨_ | ⟨c, segment⟩, _ | ⟨next, rest⟩⟩
  · simp [segments_eq] at split
  · simp [join]
  · simp [join_cons]
  all_goals
    have ne : c ≠ '/' := by
      rintro rfl
      rw [split] at separate
      exact (List.forall_mem_cons.mp separate).1 List.mem_cons_self
    simpa [join] using ne

/-- What stands behind a filled segment does not matter for that. -/
theorem isAbsolute_congr {q : Path} {segment' : List Char} {after' : List (List Char)}
    (split : p.segments = front ++ segment :: after) (filled : segment ≠ [])
    (split' : q.segments = front ++ segment' :: after') (filled' : segment' ≠ []) :
    q.isAbsolute = p.isAbsolute := by
  rw [Bool.eq_iff_iff, isAbsolute_iff, isAbsolute_iff, split, split']
  rcases front with _ | ⟨first, _ | ⟨second, front⟩⟩ <;> simp [filled, filled']

/-! ## Components -/

/-- A segment that leads nowhere else. -/
def IsIdle (segment : List Char) : Prop :=
  segment = [] ∨ segment = ['.']

theorem component?_name_iff :
    component? absolute i segment = some (.name text) ↔ IsName segment ∧ segment = text := by
  unfold component?
  constructor
  · intro found
    by_cases idle : segment = [] ∨ segment = ['.'] ∨ segment = ['.', '.']
    · rcases idle with rfl | rfl | rfl <;> simp at found
    · simp only [not_or] at idle
      obtain ⟨filled, ne_here, ne_up⟩ := idle
      rw [if_neg filled, if_neg ne_here, if_neg ne_up] at found
      cases found
      exact ⟨⟨filled, ne_here, ne_up⟩, rfl⟩
  · rintro ⟨⟨filled, here, up⟩, rfl⟩
    rw [if_neg filled, if_neg here, if_neg up]

theorem component?_root_iff :
    component? absolute i segment = some .root ↔ segment = [] ∧ i = 0 ∧ absolute := by
  unfold component?
  split_ifs <;> simp_all

theorem isIdle_of_component? (found : component? absolute i segment = none) : IsIdle segment := by
  unfold component? at found
  split_ifs at found with empty _ dot
  · exact .inl empty
  · exact .inr dot

/-- The components of some segments, numbered from the first. -/
def locatedIn (absolute : Bool) (segments : List (List Char)) : List (ℕ × Component) :=
  segments.zipIdx.filterMap fun (segment, i) => (component? absolute i segment).map (i, ·)

theorem located_eq (p : Path) : p.located = locatedIn p.isAbsolute p.segments := rfl

theorem locatedIn_concat (absolute : Bool) (segments : List (List Char)) (segment : List Char) :
    locatedIn absolute (segments ++ [segment]) = locatedIn absolute segments ++
      ((component? absolute segments.length segment).map (segments.length, ·)).toList := by
  unfold locatedIn
  rw [List.zipIdx_append, List.filterMap_append, Nat.zero_add, List.zipIdx_singleton]
  cases meaning : component? absolute segments.length segment <;> simp [meaning]

/-- Behind the segment of the last component, all are idle. -/
theorem split_of_locatedIn {others : List (ℕ × Component)}
    (located : locatedIn absolute segments = others ++ [(i, part)]) :
    ∃ front segment after, segments = front ++ segment :: after ∧ i = front.length ∧
      component? absolute i segment = some part ∧ locatedIn absolute front = others ∧
      ∀ segment ∈ after, IsIdle segment := by
  induction segments using List.reverseRecOn with
  | nil => simp [locatedIn] at located
  | append_singleton segments segment ih =>
    rw [locatedIn_concat] at located
    cases meaning : component? absolute segments.length segment with
    | none =>
      rw [meaning, Option.map_none, Option.toList_none, List.append_nil] at located
      obtain ⟨front, last, after, rfl, place, found, before, idle⟩ := ih located
      refine ⟨front, last, after ++ [segment], by simp, place, found, before, ?_⟩
      exact List.forall_mem_append.mpr
        ⟨idle, List.forall_mem_singleton.mpr (isIdle_of_component? meaning)⟩
    | some last =>
      rw [meaning, Option.map_some, Option.toList_some] at located
      obtain ⟨before, same⟩ := List.append_inj' located rfl
      cases same
      exact ⟨segments, segment, [], rfl, rfl, meaning, before, nofun⟩

theorem idle_of_locatedIn (located : locatedIn absolute segments = []) :
    ∀ segment ∈ segments, IsIdle segment := by
  induction segments using List.reverseRecOn with
  | nil => nofun
  | append_singleton segments segment ih =>
    rw [locatedIn_concat, List.append_eq_nil_iff] at located
    refine List.forall_mem_append.mpr ⟨ih located.1, List.forall_mem_singleton.mpr ?_⟩
    exact isIdle_of_component? (by simpa using located.2)

/-! ## The last name -/

/-- The last component of a path is a name, `front` stands before it and `after` behind it. -/
structure EndsIn (p : Path) (front : List (List Char)) (name : List Char)
    (after : List (List Char)) : Prop where
  segments : p.segments = front ++ name :: after
  isName : IsName name
  idle : ∀ segment ∈ after, IsIdle segment
  located : p.located = locatedIn p.isAbsolute front ++ [(front.length, .name name)]

theorem exists_endsIn {i : ℕ} (last : p.located.getLast? = some (i, .name text)) :
    ∃ front after, p.EndsIn front text after ∧ i = front.length := by
  obtain ⟨others, located⟩ := List.getLast?_eq_some_iff.mp last
  obtain ⟨front, name, after, split, place, meaning, before, idle⟩ :=
    split_of_locatedIn ((located_eq p).symm.trans located)
  obtain ⟨isName, rfl⟩ := component?_name_iff.mp meaning
  exact ⟨front, after, ⟨split, isName, idle, by rw [located, before, place]⟩, place⟩

theorem endsIn_of_fileName (named : p.fileName ≠ none) :
    ∃ front name after, p.EndsIn front name after := by
  unfold fileName at named
  split at named
  · next i text last =>
    obtain ⟨front, after, ends, -⟩ := exists_endsIn last
    exact ⟨front, text, after, ends⟩
  · exact absurd rfl named

theorem endsIn_of_segments (split : p.segments = front ++ [name]) (isName : IsName name) :
    p.EndsIn front name [] := by
  refine ⟨split, isName, nofun, ?_⟩
  rw [located_eq, split, locatedIn_concat, component?_name_iff.mpr ⟨isName, rfl⟩]
  rfl

/-- A path and its parent, by the segments of the first that the second leads through. -/
inductive IsParent (p : Path) : Path → List (List Char) → Prop
  | bare : IsParent p ⟨""⟩ []
  | root (absolute : p.isAbsolute) : IsParent p ⟨"/"⟩ [[]]
  | folder {folder : Path} (filled : folder.text ≠ "")
      (absolute : folder.isAbsolute = p.isAbsolute) : IsParent p folder folder.segments

/-- The parent of a path is made of the segments before its last name, the idle ones in front of the
name left out. -/
theorem parent_way (ends : p.EndsIn front name after) :
    ∃ way between folder, front = way ++ between ∧ (∀ segment ∈ between, IsIdle segment) ∧
      p.parent = some folder ∧ IsParent p folder way := by
  have reversed : p.located.reverse =
      (front.length, .name name) :: (locatedIn p.isAbsolute front).reverse := by
    rw [ends.located, List.reverse_append]
    rfl
  unfold parent
  rw [reversed]
  rcases List.eq_nil_or_concat' (locatedIn p.isAbsolute front) with
    before | ⟨others, ⟨i, part⟩, before⟩
  · rw [before]
    exact ⟨[], front, ⟨""⟩, rfl, idle_of_locatedIn before, rfl, .bare⟩
  · obtain ⟨first, segment, between, split, place, meaning, -, idle⟩ := split_of_locatedIn before
    have front_eq : front = (first ++ [segment]) ++ between := by
      rw [split, List.append_assoc, List.singleton_append]
    refine ⟨first ++ [segment], between, ?_⟩
    rw [before, List.reverse_append, List.reverse_singleton, List.singleton_append]
    by_cases isRoot : part = .root
    · rw [isRoot] at meaning ⊢
      obtain ⟨rfl, first_place, absolute⟩ := component?_root_iff.mp meaning
      obtain rfl : first = [] := List.length_eq_zero_iff.mp (place.symm.trans first_place)
      exact ⟨⟨"/"⟩, front_eq, idle, rfl, .root absolute⟩
    · have filled : segment ≠ [] := by
        rintro rfl
        unfold component? at meaning
        rw [if_pos rfl] at meaning
        split_ifs at meaning
        exact isRoot (Option.some.inj meaning).symm
      have taken : p.segments.take (i + 1) = first ++ [segment] := by
        rw [ends.segments, front_eq, place, List.append_assoc]
        exact List.take_left' (by simp)
      have separate : ∀ other ∈ first ++ [segment], '/' ∉ other := fun other mem =>
        p.separator_not_mem_segments other (List.mem_of_mem_take (taken ▸ mem))
      have own := segments_join (by simp) separate
      refine ⟨⟨String.ofList (join (first ++ [segment]))⟩, front_eq, idle, ?_, ?_⟩
      · cases part with
        | root => exact absurd rfl isRoot
        | _ => simp only [taken]
      · have split' : p.segments = first ++ segment :: (between ++ name :: after) := by
          rw [ends.segments, front_eq]
          simp
        have written : String.ofList (join (first ++ [segment])) ≠ "" := by
          intro empty
          rw [empty] at own
          have last := congrArg List.getLast? own
          rw [List.getLast?_concat] at last
          exact filled (Option.some.inj last).symm
        have parent : IsParent p ⟨String.ofList (join (first ++ [segment]))⟩ _ :=
          .folder written (isAbsolute_congr split' filled own filled)
        rwa [own] at parent

theorem parent_bare (separate : '/' ∉ p.text.toList) (isName : IsName p.text.toList) :
    p.parent = some ⟨""⟩ := by
  have single : p.located = [(0, .name p.text.toList)] := by
    have split : p.segments = [] ++ [p.text.toList] := segments_bare separate
    exact (endsIn_of_segments split isName).located
  unfold parent
  rw [single]
  rfl

/-! ## Another extension -/

theorem mem_of_mem_cutName {c : Char} (mem : c ∈ (cutName name).1) : c ∈ name := by
  unfold cutName at mem
  dsimp only at mem
  rcases cut : (name.reverse.dropWhile (· != '.')).drop 1 with _ | ⟨d, stem⟩ <;> rw [cut] at mem
  · exact mem
  · have inside : c ∈ name.reverse.dropWhile (· != '.') :=
      List.mem_of_mem_drop (cut ▸ List.mem_reverse.mp mem)
    exact List.mem_reverse.mp ((List.dropWhile_suffix _).mem inside)

theorem withExtension_of_nameless (nameless : p.fileName = none) (extension : String) :
    p.withExtension extension = p := by
  unfold fileName at nameless
  unfold withExtension
  split
  · next last =>
    rw [last] at nameless
    cases nameless
  · rfl

/-- Only the last name changes, and it ends in the new extension or leads up. -/
theorem withExtension_eq (ends : p.EndsIn front name after) (extension : String) :
    ∃ changed, p.withExtension extension = ⟨String.ofList (join (front ++ [changed]))⟩ ∧
      (changed = ['.', '.'] ∨
        ∃ stem, changed = stem ++ '.' :: extension.toList ∧ ∀ c ∈ stem, c ∈ name) := by
  have last : p.located.getLast? = some (front.length, .name name) := by
    rw [ends.located, List.getLast?_concat]
  have taken : p.segments.take front.length = front := by
    rw [ends.segments, List.take_left]
  unfold withExtension
  rw [last]
  dsimp only
  rw [taken]
  refine ⟨_, rfl, ?_⟩
  split_ifs
  · exact .inl rfl
  · exact .inr ⟨_, rfl, fun c => mem_of_mem_cutName⟩

end Glance.Path
