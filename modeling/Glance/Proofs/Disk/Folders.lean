import Glance.Proofs.Disk.Listing
import Glance.Proofs.Path.Parent

/-!
# Making the folders on the way to a file

Folders are made only where nothing was, so where a path led it still leads (`keepsFolders_foldl`).
A path that led nowhere still leads nowhere when the folder of its last name has been made: below a
folder that is made there is nothing (`resolve_makeFolders`). That needs a disk on which everything
lies in a folder, and a path that does not go up again from a folder that was missing, since such a
path comes to lead to what was there before.
-/

namespace Glance.Disk

variable {d d' : Disk} {p folder : Path} {place next goal : Place} {node : Node} {name : String}
  {segment : List Char} {segments way ending : List (List Char)} {cause : DiskError}

/-! ## Following segments -/

/-- What segments lead to from a place. -/
def reach (d : Disk) (place : Place) (segments : List (List Char)) : Option (Place × Node) :=
  match segments.foldlM d.enter place with
  | .ok goal => (d.node? goal).map (goal, ·)
  | .error _ => none

theorem reach_nil (d : Disk) (place : Place) :
    d.reach place [] = (d.node? place).map (place, ·) := rfl

theorem reach_cons (entered : d.enter place segment = .ok next) (segments : List (List Char)) :
    d.reach place (segment :: segments) = d.reach next segments := by
  unfold reach
  rw [List.foldlM_cons, entered]
  rfl

theorem reach_cons_error (failed : d.enter place segment = .error cause)
    (segments : List (List Char)) : d.reach place (segment :: segments) = none := by
  unfold reach
  rw [List.foldlM_cons, failed]
  rfl

theorem enter_missing (missing : d.node? place = none) (segment : List Char) :
    d.enter place segment = .error .notFound := by
  unfold enter
  rw [missing]

/-- A text that can be a path at all. -/
def IsPathText (p : Path) : Prop :=
  p.text.toList.contains '\x00' = false ∧ p.text ≠ "" ∧ p.text.utf8ByteSize ≤ pathLimit

theorem locate_eq (isPath : IsPathText p) :
    d.locate p = p.segments.foldlM d.enter (d.origin p) := by
  obtain ⟨clean, filled, short⟩ := isPath
  unfold locate
  rw [if_neg (by rw [clean]; decide), if_neg (by simpa using filled), if_neg (by omega)]

theorem locate_of_not (isPath : ¬ IsPathText p) :
    ∃ cause, d.locate p = .error cause ∧ (cause = .notFound → p.text = "") := by
  unfold locate
  split_ifs with nul empty long
  · exact ⟨_, rfl, nofun⟩
  · exact ⟨_, rfl, fun _ => by simpa using empty⟩
  · exact ⟨_, rfl, nofun⟩
  · exact absurd ⟨by simpa using nul, by simpa using empty, by omega⟩ isPath

/-- What is at a path. -/
theorem toOption_resolve (d : Disk) (isPath : IsPathText p) :
    (d.resolve p).toOption = d.reach (d.origin p) p.segments := by
  unfold resolve reach
  rw [locate_eq isPath]
  cases p.segments.foldlM d.enter (d.origin p) with
  | error cause => rfl
  | ok goal =>
    dsimp only [bind, Except.bind]
    cases d.node? goal <;> rfl

theorem toOption_resolve_of_not (d : Disk) (isPath : ¬ IsPathText p) :
    (d.resolve p).toOption = none := by
  obtain ⟨cause, failed, -⟩ := @locate_of_not d p isPath
  unfold resolve
  rw [failed]
  rfl

/-! ## Disks in which everything lies in a folder -/

/-- The current place is a folder, and everything lies in one. -/
structure Rooted (d : Disk) : Prop where
  current : d.node? d.current = some .folder
  parent : ∀ place name, d.node? (place.push name) ≠ none → d.node? place = some .folder

/-- Nothing lies below a place. -/
def Bare (d : Disk) (place : Place) : Prop :=
  ∀ names : List String, names ≠ [] → d.node? (names.foldl Array.push place) = none

theorem Rooted.bare (rooted : d.Rooted) (missing : d.node? place = none) : d.Bare place := by
  intro names filled
  induction names generalizing place with
  | nil => exact absurd rfl filled
  | cons name names ih =>
    have below : d.node? (place.push name) = none := by
      by_contra there
      rw [rooted.parent place name there] at missing
      cases missing
    by_cases last : names = []
    · rw [last]
      exact below
    · exact ih below last

theorem Bare.push (bare : d.Bare place) (name : String) : d.node? (place.push name) = none :=
  bare [name] (List.cons_ne_nil _ _)

theorem size_foldl_push (names : List String) (place : Place) :
    (names.foldl Array.push place).size = place.size + names.length := by
  induction names generalizing place with
  | nil => rfl
  | cons name names ih =>
    rw [List.foldl_cons, ih, Array.size_push, List.length_cons]
    omega

theorem Bare.below (bare : d.Bare place) (name : String) : d.Bare (place.push name) :=
  fun names _ => bare (name :: names) (List.cons_ne_nil _ _)

/-- What is put in a bare place leaves it bare. -/
theorem Bare.put (bare : d.Bare place) (node : Node) : (d.put place node).Bare place := by
  intro names filled
  have ne : names.foldl Array.push place ≠ place := by
    intro same
    have size := congrArg Array.size same
    rw [size_foldl_push] at size
    exact filled (List.length_eq_zero_iff.mp (by omega))
  rw [node?_put_of_ne ne]
  exact bare names filled

theorem Rooted.pop (rooted : d.Rooted) (isFolder : d.node? place = some .folder) :
    d.node? place.pop = some .folder := by
  cases last : place.back? with
  | none =>
    obtain rfl := Array.back?_eq_none_iff.mp last
    rfl
  | some name =>
    obtain ⟨front, rfl⟩ := Array.back?_eq_some_iff.mp last
    rw [Array.pop_push]
    exact rooted.parent front name (by rw [isFolder]; nofun)

theorem Rooted.put (rooted : d.Rooted) (isFolder : d.node? place = some .folder)
    (free : d.node? (place.push name) ≠ some .folder) (node : Node) :
    (d.put (place.push name) node).Rooted := by
  have keeps := keepsFolders_put free node
  refine ⟨?_, fun other inner there => keeps.folder _ ?_⟩
  · rw [keeps.current]
    exact keeps.folder _ rooted.current
  · by_cases same : other.push inner = place.push name
    · rw [(Array.push_eq_push.mp same).2]
      exact isFolder
    · rw [node?_put_of_ne same] at there
      exact rooted.parent other inner there

theorem rooted_empty : empty.Rooted :=
  ⟨rfl, fun place name there => absurd (by unfold node?; simp [empty]) there⟩

/-! ## Making folders -/

theorem foldl_through_error (d : Disk) (cause : DiskError) (way : List (List Char)) :
    way.foldl Progress.through ⟨d, .error cause⟩ = ⟨d, .error cause⟩ := by
  induction way with
  | nil => rfl
  | cons segment way ih => exact ih

section Through

variable (entered : d.enter place segment = .ok next)

theorem through_error (failed : d.enter place segment = .error cause) :
    Progress.through ⟨d, .ok place⟩ segment = ⟨d, .error cause⟩ := by
  unfold Progress.through
  dsimp only
  rw [failed]

include entered

theorem through_file {bytes : List UInt8} (file : d.node? next = some (.file bytes)) :
    Progress.through ⟨d, .ok place⟩ segment = ⟨d, .error .exists⟩ := by
  unfold Progress.through
  dsimp only
  rw [entered]
  dsimp only
  rw [file]

theorem through_folder (isFolder : d.node? next = some .folder) :
    Progress.through ⟨d, .ok place⟩ segment = ⟨d, .ok next⟩ := by
  unfold Progress.through
  dsimp only
  rw [entered]
  dsimp only
  rw [isFolder]

theorem through_missing (missing : d.node? next = none) :
    Progress.through ⟨d, .ok place⟩ segment = ⟨d.put next .folder, .ok next⟩ := by
  unfold Progress.through
  dsimp only
  rw [entered]
  dsimp only
  rw [missing]

end Through

/-- The outcomes of going through one segment. -/
theorem through_cases (d : Disk) (place : Place) (segment : List Char) :
    (∃ cause, Progress.through ⟨d, .ok place⟩ segment = ⟨d, .error cause⟩) ∨
    ∃ next, d.enter place segment = .ok next ∧
      (d.node? next = some .folder ∧ Progress.through ⟨d, .ok place⟩ segment = ⟨d, .ok next⟩ ∨
        d.node? next = none ∧
          Progress.through ⟨d, .ok place⟩ segment = ⟨d.put next .folder, .ok next⟩) := by
  cases entered : d.enter place segment with
  | error cause => exact .inl ⟨cause, through_error entered⟩
  | ok next =>
    cases holds : d.node? next with
    | none => exact .inr ⟨next, rfl, .inr ⟨holds, through_missing entered holds⟩⟩
    | some node =>
      cases node with
      | file bytes => exact .inl ⟨_, through_file entered holds⟩
      | folder => exact .inr ⟨next, rfl, .inl ⟨holds, through_folder entered holds⟩⟩

theorem KeepsFolders.refl (d : Disk) : KeepsFolders d d :=
  ⟨rfl, fun _ => id⟩

theorem KeepsFolders.origin (keeps : KeepsFolders d d') (p : Path) : d'.origin p = d.origin p := by
  unfold Disk.origin
  rw [keeps.current]

theorem keepsFolders_foldl (d : Disk) (place : Place) (way : List (List Char)) :
    KeepsFolders d (way.foldl Progress.through ⟨d, .ok place⟩).disk := by
  induction way generalizing d place with
  | nil => exact .refl d
  | cons segment way ih =>
    rw [List.foldl_cons]
    rcases through_cases d place segment with
      ⟨cause, eq⟩ | ⟨next, -, ⟨-, eq⟩ | ⟨missing, eq⟩⟩ <;> rw [eq]
    · rw [foldl_through_error]
      exact .refl d
    · exact ih d next
    · exact (keepsFolders_put (by rw [missing]; nofun) _).trans (ih _ next)

/-- No segment goes up from a folder that is missing. -/
def GroundedFrom (d : Disk) (place : Place) (segments : List (List Char)) : Prop :=
  ∀ front rest, segments = front ++ ['.', '.'] :: rest →
    (front ++ [['.', '.']]).foldlM d.enter place ≠ .error .notFound

theorem GroundedFrom.tail (grounded : d.GroundedFrom place (segment :: segments))
    (entered : d.enter place segment = .ok next) : d.GroundedFrom next segments := by
  intro front rest split lost
  refine grounded (segment :: front) rest (by rw [split]; rfl) ?_
  rw [List.cons_append, List.foldlM_cons, entered]
  exact lost

theorem GroundedFrom.descends (grounded : d.GroundedFrom place segments)
    (missing : d.node? place = none) : ['.', '.'] ∉ segments := by
  intro mem
  obtain ⟨front, rest, split⟩ := List.append_of_mem mem
  refine grounded front rest split ?_
  cases front with
  | nil => rw [List.nil_append, List.foldlM_cons, enter_missing missing]; rfl
  | cons first front => rw [List.cons_append, List.foldlM_cons, enter_missing missing]; rfl

/-- Segments with a name lead nowhere from a bare place. -/
theorem reach_of_bare (bare : d.Bare place) (descends : ['.', '.'] ∉ segments)
    (named : ∃ segment ∈ segments, Path.IsName segment) : d.reach place segments = none := by
  induction segments with
  | nil => obtain ⟨_, mem, -⟩ := named; cases mem
  | cons segment segments ih =>
    rw [List.mem_cons, not_or] at descends
    cases entered : d.enter place segment with
    | error cause => exact reach_cons_error entered segments
    | ok next =>
      rw [reach_cons entered]
      rcases (enter_eq_ok entered).2 with ⟨idle, rfl⟩ | ⟨up, -⟩ | ⟨-, -, -, rfl⟩
      · refine ih descends.2 ?_
        obtain ⟨other, mem, isName⟩ := named
        rcases List.mem_cons.mp mem with rfl | mem
        · exact (idle.elim isName.filled isName.ne_here).elim
        · exact ⟨other, mem, isName⟩
      · exact absurd up.symm descends.1
      · -- Nothing is where the name leads, so nothing follows it either.
        have nothing := bare.push (String.ofList segment)
        cases segments with
        | nil => rw [reach_nil, nothing]; rfl
        | cons other segments => exact reach_cons_error (enter_missing nothing other) segments

/-- Making folders from a bare one on leads to nothing but folders. -/
theorem reach_foldl_of_bare (isFolder : d.node? place = some .folder) (bare : d.Bare place)
    (descends : ['.', '.'] ∉ way ++ ending) (named : ∃ segment ∈ ending, Path.IsName segment) :
    (way.foldl Progress.through ⟨d, .ok place⟩).disk.reach place (way ++ ending) = none := by
  induction way generalizing d place with
  | nil => exact reach_of_bare bare descends named
  | cons segment way ih =>
    rw [List.cons_append, List.mem_cons, not_or] at descends
    have keeps := keepsFolders_foldl d place (segment :: way)
    rw [List.foldl_cons] at keeps ⊢
    rw [List.cons_append]
    cases entered : d.enter place segment with
    | error cause =>
      rw [through_error entered, foldl_through_error]
      exact reach_cons_error entered _
    | ok next =>
      rw [reach_cons (keeps.enter entered)]
      rcases (enter_eq_ok entered).2 with ⟨-, rfl⟩ | ⟨up, -⟩ | ⟨-, -, -, rfl⟩
      · rw [through_folder entered isFolder]
        exact ih isFolder bare descends.2
      · exact absurd up.symm descends.1
      · rw [through_missing entered (bare.push _)]
        exact ih (node?_put_self (by simp) _) ((bare.below _).put _) descends.2

/-- What is made on the way to a name changes nothing about what the segments lead to. -/
theorem reach_foldl (rooted : d.Rooted) (grounded : d.GroundedFrom place (way ++ ending))
    (named : ∃ segment ∈ ending, Path.IsName segment) :
    (way.foldl Progress.through ⟨d, .ok place⟩).disk.reach place (way ++ ending) =
      d.reach place (way ++ ending) := by
  induction way generalizing place with
  | nil => rfl
  | cons segment way ih =>
    have keeps := keepsFolders_foldl d place (segment :: way)
    rw [List.foldl_cons] at keeps ⊢
    rw [List.cons_append] at grounded ⊢
    rcases through_cases d place segment with
      ⟨cause, eq⟩ | ⟨next, entered, ⟨-, eq⟩ | ⟨missing, eq⟩⟩ <;> rw [eq] at keeps ⊢
    · rw [foldl_through_error]
    · rw [reach_cons (keeps.enter entered), reach_cons entered]
      exact ih (grounded.tail entered)
    · -- From here on all folders were missing, and the path led nowhere.
      have onward := grounded.tail entered
      have descends := onward.descends missing
      have bare := rooted.bare missing
      have named' : ∃ segment ∈ way ++ ending, Path.IsName segment :=
        named.imp fun _ ⟨mem, isName⟩ => ⟨List.mem_append_right _ mem, isName⟩
      rw [reach_cons (keeps.enter entered), reach_cons entered, reach_of_bare bare descends named']
      exact reach_foldl_of_bare (node?_put_self (filled_of_missing missing) _) (bare.put _) descends
        named

/-! ## What making folders leaves -/

/-- A place where there is no folder lies right below the folder it was reached from. -/
theorem Rooted.enter_free (rooted : d.Rooted) (entered : d.enter place segment = .ok next)
    (free : d.node? next ≠ some .folder) : Path.IsName segment ∧
      d.node? place = some .folder ∧ next = place.push (String.ofList segment) := by
  obtain ⟨isFolder, ⟨-, rfl⟩ | ⟨-, rfl⟩ | ⟨filled, ne_here, ne_up, rfl⟩⟩ := enter_eq_ok entered
  · exact absurd isFolder free
  · exact absurd (rooted.pop isFolder) free
  · exact ⟨⟨filled, ne_here, ne_up⟩, isFolder, rfl⟩

theorem rooted_foldl (rooted : d.Rooted) (place : Place) (way : List (List Char)) :
    (way.foldl Progress.through ⟨d, .ok place⟩).disk.Rooted := by
  induction way generalizing d place with
  | nil => exact rooted
  | cons segment way ih =>
    rw [List.foldl_cons]
    rcases through_cases d place segment with
      ⟨cause, eq⟩ | ⟨next, entered, ⟨-, eq⟩ | ⟨missing, eq⟩⟩ <;> rw [eq]
    · rw [foldl_through_error]
      exact rooted
    · exact ih rooted next
    · have free : d.node? next ≠ some .folder := by rw [missing]; nofun
      obtain ⟨-, isFolder, rfl⟩ := rooted.enter_free entered free
      exact ih (rooted.put isFolder free .folder) _

theorem Rooted.makeFolders (rooted : d.Rooted) (p : Path) : (d.makeFolders p).2.Rooted := by
  have made := rooted_foldl rooted (d.origin p) p.segments
  unfold Disk.makeFolders
  split_ifs
  · exact rooted
  · split
    · exact made
    · exact made
    · exact rooted

/-- Where segments lead to a folder, there is nothing to make. -/
theorem foldl_through_folder (followed : way.foldlM d.enter place = .ok goal)
    (isFolder : d.node? goal = some .folder) :
    way.foldl Progress.through ⟨d, .ok place⟩ = ⟨d, .ok goal⟩ := by
  induction way using List.reverseRecOn generalizing goal with
  | nil =>
    cases followed
    rfl
  | append_singleton way segment ih =>
    obtain ⟨middle, before, entered⟩ := follow_concat followed
    rw [List.foldl_append, ih before (enter_eq_ok entered).1]
    exact through_folder entered isFolder

/-- Where segments lead on, there is nothing to make in front of the last. -/
theorem foldl_through_of_follow {rest : List (List Char)}
    (followed : (way ++ segment :: rest).foldlM d.enter place = .ok goal) :
    ∃ middle, way.foldl Progress.through ⟨d, .ok place⟩ = ⟨d, .ok middle⟩ := by
  obtain ⟨middle, before, followed⟩ := follow_append followed
  obtain ⟨next, entered, -⟩ := follow_cons followed
  exact ⟨middle, foldl_through_folder before (enter_eq_ok entered).1⟩

/-! ## Making the parent of a path -/

/-- The folders on the way of a path are made, or the parent's text is none that a path can have. -/
theorem makeFolders_parent (d : Disk) (isParent : p.IsParent folder way) :
    (∃ cause, d.makeFolders folder = (.error cause, d)) ∨
      d.makeFolders folder =
        ((way.foldl Progress.through ⟨d, .ok (d.origin p)⟩).place.map fun _ => (),
          (way.foldl Progress.through ⟨d, .ok (d.origin p)⟩).disk) := by
  cases isParent with
  | bare => exact .inr rfl
  | root absolute =>
    right
    have stays : Progress.through ⟨d, .ok #[]⟩ [] = ⟨d, .ok #[]⟩ := rfl
    have origin : d.origin p = #[] := if_pos absolute
    show ((([[], []] : List (List Char)).foldl Progress.through ⟨d, .ok #[]⟩).place.map fun _ => (),
      (([[], []] : List (List Char)).foldl Progress.through ⟨d, .ok #[]⟩).disk) = _
    rw [origin, List.foldl_cons, List.foldl_cons, stays, stays]
    rfl
  | folder filled absolute =>
    have origin : d.origin folder = d.origin p := by
      unfold Disk.origin
      rw [absolute]
    unfold makeFolders
    rw [if_neg (by simpa using filled), origin]
    split
    · exact .inr rfl
    · exact .inr rfl
    · exact .inl ⟨_, rfl⟩

section Parent

variable {front after : List (List Char)} {text : List Char}

/-- No `..` of a path stands behind a folder that is missing. -/
def Grounded (d : Disk) (p : Path) : Prop :=
  d.GroundedFrom (d.origin p) p.segments

variable (ends : p.EndsIn front text after) (parent : p.parent = some folder)

include ends parent

theorem isParent_of_parent : ∃ way between, front = way ++ between ∧
    (∀ segment ∈ between, Path.IsIdle segment) ∧ p.IsParent folder way := by
  obtain ⟨way, between, folder', split, idle, parent', isParent⟩ := Path.parent_way ends
  obtain rfl := Option.some.inj (parent.symm.trans parent')
  exact ⟨way, between, split, idle, isParent⟩

/-- A path that leads somewhere has its folders already. -/
theorem makeFolders_of_locate (located : d.locate p = .ok place) :
    (d.makeFolders folder).2 = d := by
  obtain ⟨way, between, split, -, isParent⟩ := isParent_of_parent ends parent
  rcases makeFolders_parent d isParent with ⟨cause, eq⟩ | eq <;> rw [eq]
  have followed := follow_of_locate located
  rw [ends.segments, split, List.append_assoc] at followed
  obtain ⟨segment, rest, behind⟩ := List.exists_cons_of_ne_nil
    (List.append_ne_nil_of_right_ne_nil between (List.cons_ne_nil text after))
  rw [behind] at followed
  obtain ⟨middle, through⟩ := foldl_through_of_follow followed
  rw [through]

/-- Making the folder of a path changes nothing about what the path leads to. -/
theorem resolve_makeFolders (rooted : d.Rooted) (grounded : d.Grounded p) :
    ((d.makeFolders folder).2.resolve p).toOption = (d.resolve p).toOption := by
  obtain ⟨way, between, split, -, isParent⟩ := isParent_of_parent ends parent
  by_cases isPath : IsPathText p
  · rcases makeFolders_parent d isParent with ⟨cause, eq⟩ | eq <;> rw [eq]
    have keeps := keepsFolders_foldl d (d.origin p) way
    have segments : p.segments = way ++ (between ++ text :: after) := by
      rw [ends.segments, split, List.append_assoc]
    unfold Grounded at grounded
    rw [toOption_resolve _ isPath, toOption_resolve _ isPath, keeps.origin]
    rw [segments] at grounded ⊢
    exact reach_foldl rooted grounded ⟨text, by simp, ends.isName⟩
  · rw [toOption_resolve_of_not _ isPath, toOption_resolve_of_not _ isPath]

end Parent

/-! ## What has been made -/

theorem enter_idle (isFolder : d.node? place = some .folder) (idle : Path.IsIdle segment) :
    d.enter place segment = .ok place := by
  unfold enter
  rw [isFolder]
  exact if_pos idle

theorem enter_short (isFolder : d.node? place = some .folder) (isName : Path.IsName segment)
    (short : (Text.utf8 segment).length ≤ nameLimit) :
    d.enter place segment = .ok (place.push (String.ofList segment)) := by
  unfold enter
  rw [isFolder]
  dsimp only
  rw [if_neg (not_or.mpr ⟨isName.filled, isName.ne_here⟩), if_neg isName.ne_up, if_neg (by omega)]

theorem follow_of_idle (isFolder : d.node? place = some .folder)
    (idle : ∀ segment ∈ segments, Path.IsIdle segment) :
    segments.foldlM d.enter place = .ok place := by
  induction segments with
  | nil => rfl
  | cons segment segments ih =>
    obtain ⟨first, idle⟩ := List.forall_mem_cons.mp idle
    rw [List.foldlM_cons, enter_idle isFolder first]
    exact ih idle

theorem follow_on {rest : List (List Char)} (followed : segments.foldlM d.enter place = .ok goal) :
    (segments ++ rest).foldlM d.enter place = rest.foldlM d.enter goal := by
  rw [List.foldlM_append, followed]
  rfl

/-- The folders that have been made lead to the place that was reached, which is a folder. -/
theorem follow_foldl (isFolder : d.node? place = some .folder)
    (reached : (way.foldl Progress.through ⟨d, .ok place⟩).place = .ok goal) :
    way.foldlM (way.foldl Progress.through ⟨d, .ok place⟩).disk.enter place = .ok goal ∧
      (way.foldl Progress.through ⟨d, .ok place⟩).disk.node? goal = some .folder := by
  induction way generalizing d place with
  | nil =>
    cases reached
    exact ⟨rfl, isFolder⟩
  | cons segment way ih =>
    have keeps := keepsFolders_foldl d place (segment :: way)
    rw [List.foldl_cons] at reached keeps ⊢
    rw [List.foldlM_cons]
    rcases through_cases d place segment with
      ⟨cause, eq⟩ | ⟨next, entered, ⟨isFolder', eq⟩ | ⟨missing, eq⟩⟩ <;>
      rw [eq] at reached keeps ⊢
    · rw [foldl_through_error] at reached
      cases reached
    · rw [keeps.enter entered]
      exact ih isFolder' reached
    · rw [keeps.enter entered]
      exact ih (node?_put_self (filled_of_missing missing) _) reached

/-- No file comes or goes when folders are made. -/
theorem file_foldl_iff (place goal : Place) (way : List (List Char)) (bytes : List UInt8) :
    (way.foldl Progress.through ⟨d, .ok place⟩).disk.node? goal = some (.file bytes) ↔
      d.node? goal = some (.file bytes) := by
  induction way generalizing d place with
  | nil => exact .rfl
  | cons segment way ih =>
    rw [List.foldl_cons]
    rcases through_cases d place segment with
      ⟨cause, eq⟩ | ⟨next, -, ⟨-, eq⟩ | ⟨missing, eq⟩⟩ <;> rw [eq]
    · rw [foldl_through_error]
    · exact ih next
    · rw [ih next]
      by_cases same : goal = next
      · rw [same, node?_put_self (filled_of_missing missing), missing]
        simp
      · rw [node?_put_of_ne same]

theorem file_makeFolders_iff (isParent : p.IsParent folder way) (goal : Place)
    (bytes : List UInt8) :
    (d.makeFolders folder).2.node? goal = some (.file bytes) ↔
      d.node? goal = some (.file bytes) := by
  rcases makeFolders_parent d isParent with ⟨cause, eq⟩ | eq <;> rw [eq]
  exact file_foldl_iff _ goal way bytes

theorem Rooted.origin (rooted : d.Rooted) (p : Path) : d.node? (d.origin p) = some .folder := by
  unfold Disk.origin
  split_ifs
  · rfl
  · exact rooted.current

theorem exists_place {made : Progress} (done : (made.place.map fun _ => ()) = .ok ()) :
    ∃ place, made.place = .ok place := by
  cases reached : made.place with
  | error cause =>
    rw [reached] at done
    cases done
  | ok place => exact ⟨place, rfl⟩

/-- A path whose folders could be made has led through all of them. -/
theorem makeFolders_done (filled : p.text ≠ "") (done : (d.makeFolders p).1 = .ok ()) :
    IsPathText p ∧ ∃ place, p.segments.foldl Progress.through ⟨d, .ok (d.origin p)⟩ =
      ⟨(d.makeFolders p).2, .ok place⟩ := by
  unfold makeFolders at done ⊢
  rw [if_neg (by simpa using filled)] at done ⊢
  constructor
  · by_contra isPath
    obtain ⟨cause, failed, missing⟩ := @locate_of_not d p isPath
    rw [failed] at done
    cases cause with
    | notFound => exact filled (missing rfl)
    | _ => cases done
  · split at done
    · exact (exists_place done).imp fun place reached => by rw [← reached]
    · exact (exists_place done).imp fun place reached => by rw [← reached]
    · cases done

/-- A lone name that is too long leads nowhere. -/
theorem locate_long (rooted : d.Rooted) (clean : '\x00' ∉ p.text.toList)
    (separate : '/' ∉ p.text.toList) (isName : Path.IsName p.text.toList)
    (long : nameLimit < (Text.utf8 p.text.toList).length) :
    d.locate p = .error .nameTooLong := by
  have filled : p.text ≠ "" := fun empty => isName.filled (by rw [empty]; rfl)
  have failed : d.enter (d.origin p) p.text.toList = .error .nameTooLong := by
    unfold enter
    rw [rooted.origin p]
    dsimp only
    rw [if_neg (not_or.mpr ⟨isName.filled, isName.ne_here⟩), if_neg isName.ne_up, if_pos long]
  unfold locate
  rw [if_neg (by simpa using clean), if_neg (by simpa using filled), Path.segments_bare separate,
    List.foldlM_cons, failed]
  split_ifs <;> rfl

/-- A path that a file can have: short enough, and its last segment is a name that a folder can
hold. -/
structure IsFilePath (p : Path) : Prop where
  isPath : IsPathText p
  last : ∃ front text, p.segments = front ++ [text] ∧ Path.IsName text ∧
    (Text.utf8 text).length ≤ nameLimit

/-- When its folder has been made, a file's path leads right below a folder. -/
theorem locate_makeFolders (rooted : d.Rooted) (file : IsFilePath p)
    (parent : p.parent = some folder) (made : (d.makeFolders folder).1 = .ok ()) :
    ∃ place name, (d.makeFolders folder).2.locate p = .ok (Array.push place name) ∧
      (d.makeFolders folder).2.node? place = some .folder := by
  obtain ⟨isPath, front, text, segments, isName, short⟩ := file
  have ends := Path.endsIn_of_segments segments isName
  obtain ⟨way, between, split, idle, isParent⟩ := isParent_of_parent ends parent
  rcases makeFolders_parent d isParent with ⟨cause, eq⟩ | eq <;> rw [eq] at made ⊢
  · cases made
  · have keeps := keepsFolders_foldl d (d.origin p) way
    obtain ⟨place, reached⟩ := exists_place made
    obtain ⟨followed, isFolder⟩ := follow_foldl (rooted.origin p) reached
    refine ⟨place, String.ofList text, ?_, isFolder⟩
    -- The way leads to the folder, the segments behind it stay there, and the name is entered last.
    rw [locate_eq isPath, keeps.origin, segments, split, List.append_assoc, follow_on followed,
      follow_on (follow_of_idle isFolder idle), List.foldlM_cons,
      enter_short isFolder isName short]
    rfl

end Glance.Disk
