import Glance.Proofs.Recents.History
import Glance.Proofs.Viewer.Remembers
import Glance.Proofs.Viewer.Unstored

/-!
# Viewers side by side

Viewers that are started on one store take turns. Each reads the store once, when it starts, and
from then on puts into it what it has itself: whatever the others do, it goes its way as if it was
alone (`viewer_run`). So the recent files that are stored when a viewer has opened a file are those
that it found when it started and those that it has opened since, in memory (`stored_files`) as in a
file that accepts puts (`stored_in_file`). What another viewer has opened meanwhile is overwritten,
though it may be among the newest (`forgets_other_viewer`).
-/

namespace Glance

open Recents (Operation perform newest sinceClear)

/-! ## Recent files of one viewer -/

namespace Viewer

variable {σ : Type} {v : Viewer σ} {request : Request} {file : OpenedFile}

/-- The file that a request comes upon. -/
def found? (v : Viewer σ) : Request → Option OpenedFile
  | .openPicked r => r.pick
  | .openPath r path => some (r.resolve path)
  | .openRecent r slot =>
    ((v.recents.inSlot slot).filter (·.kind = .path)).map fun entry => r.resolve ⟨entry.identifier⟩
  | .openNeighbor r dir => do
    let content ← v.content
    let next ← neighbor (r.siblings ⟨content.path⟩ content.kind) ⟨content.path⟩ dir
    return r.resolve next
  | _ => none

theorem found?_eq_some_iff : v.found? request = some file ↔ Finds v request file := by
  constructor
  · intro found
    cases request with
    | openPicked r => exact .picked found
    | openPath r path =>
      obtain rfl := Option.some.inj found
      exact .atPath r path
    | openRecent r slot =>
      obtain ⟨entry, known, rfl⟩ := Option.map_eq_some_iff.mp found
      obtain ⟨known, path⟩ := Option.filter_eq_some_iff.mp known
      exact .recent r known (of_decide_eq_true path)
    | openNeighbor r dir =>
      obtain ⟨content, shown, found⟩ := Option.bind_eq_some_iff.mp found
      obtain ⟨next, beside, found⟩ := Option.bind_eq_some_iff.mp found
      obtain rfl := Option.some.inj found
      exact .neighbor r shown beside
    | _ => cases found
  · intro finds
    cases finds with
    | picked pick => exact pick
    | atPath r path => rfl
    | recent r known path => simp [found?, known, path]
    | neighbor r shown beside => simp [found?, shown, beside]

/-- What a request does to the recent files. -/
def operation? (v : Viewer σ) (request : Request) : Option Operation :=
  match request with
  | .clearRecents => some .clear
  | _ => ((v.found? request).bind OpenedFile.entry?).map .push

theorem operation?_of_finds (finds : Finds v request file) :
    v.operation? request = file.entry?.map .push := by
  unfold operation?
  split
  · cases finds
  · rw [found?_eq_some_iff.mpr finds]
    rfl

theorem operation?_eq_none (finds : ∀ file, ¬ Finds v request file)
    (clears : request ≠ .clearRecents) : v.operation? request = none := by
  have none : v.found? request = none :=
    Option.eq_none_iff_forall_ne_some.mpr fun file found => finds file (found?_eq_some_iff.mp found)
  unfold operation?
  split
  · exact absurd rfl clears
  · rw [none]
    rfl

theorem recents_showFile [Store σ] (v : Viewer σ) (file : OpenedFile) :
    (v.showFile file).2.recents =
      (file.entry?.map Operation.push).elim v.recents (perform v.recents) := by
  cases file with
  | failed path message => rfl
  | _ path content token? => cases token? <;> rfl

theorem recents_respond [Store σ] (v : Viewer σ) (request : Request) :
    (v.respond request).2.recents =
      (v.operation? request).elim v.recents (perform v.recents) := by
  have effect := effect_respond v request
  generalize (v.respond request).2 = w at effect ⊢
  cases effect with
  | shows finds => rw [recents_showFile, operation?_of_finds finds]
  | prefers a => rfl
  | clears => rfl
  | leaves finds clears _ recents _ =>
    rw [recents, operation?_eq_none finds clears]
    rfl

/-- What the requests of a run do to the recent files, one after the other. -/
def operations [Store σ] (v : Viewer σ) : List Request → List Operation
  | [] => []
  | request :: rest => (v.operation? request).toList ++ (v.respond request).2.operations rest

theorem recents_run [Store σ] (v : Viewer σ) (requests : List Request) :
    (v.run requests).recents = (v.operations requests).foldl perform v.recents := by
  induction requests generalizing v with
  | nil => rfl
  | cons request rest ih =>
    rw [run_cons, ih, recents_respond, operations, List.foldl_append]
    cases v.operation? request <;> rfl

/-- The files that a viewer knows of behind a run, the newest first: those that it opened, and then
those that it found in its store at the start, but none from before it cleared them. -/
def known [Store σ] (store : σ) (config : Config) (requests : List Request) : List Recent :=
  sinceClear (((start store config).operations requests).reverse ++
    (Recents.load store).entries.map .push)

/-- The recent files of a viewer are the newest ten that it knows of. -/
theorem entries_run [Store σ] (store : σ) (config : Config) (requests : List Request) :
    ((start store config).run requests).recents.entries =
      (newest (known store config requests)).take 10 := by
  have found : ((Recents.load store).entries.reverse.map Operation.push).foldl perform .empty =
      Recents.load store := by
    rw [List.foldl_map]
    exact (Recents.proper_load store).foldl_push_reverse
  have run : ((start store config).run requests).recents =
      ((Recents.load store).entries.reverse.map Operation.push ++
        (start store config).operations requests).foldl perform .empty := by
    rw [List.foldl_append, found]
    exact recents_run _ requests
  rw [run, Recents.entries_foldl_perform, List.reverse_append, List.map_reverse,
    List.reverse_reverse]
  rfl

end Viewer

/-! ## Taking turns -/

/-- One of several viewers starts or is asked something. -/
inductive Turn (ι : Type) where
  | start (i : ι) (config : Config)
  | request (i : ι) (request : Viewer.Request)

/-- Viewers on one store, those that have been started. -/
structure SideBySide (ι σ : Type) where
  store : σ
  viewers : ι → Option (Viewer σ)

namespace SideBySide

open Viewer (Request known)

variable {ι σ : Type} {w : SideBySide ι σ} {i : ι}

/-- A viewer at its turn, when it has the store as the last turn left it. -/
def viewer? (w : SideBySide ι σ) (i : ι) : Option (Viewer σ) :=
  (w.viewers i).map fun v => { v with store := w.store }

theorem viewer?_eq {v : Viewer σ} (here : w.viewers i = some v) :
    ∃ v', w.viewer? i = some v' ∧ v'.unstored = v.unstored ∧ v'.store = w.store :=
  ⟨_, congrArg (Option.map _) here, rfl, rfl⟩

variable [DecidableEq ι] [Store σ]

/-- A viewer starts, for the first time or anew. -/
def begin (w : SideBySide ι σ) (i : ι) (config : Config) : SideBySide ι σ :=
  { w with viewers := Function.update w.viewers i (some (.start w.store config)) }

/-- A viewer is asked something; nobody answers for one that has not been started. -/
def ask (w : SideBySide ι σ) (i : ι) (request : Request) : SideBySide ι σ :=
  match w.viewer? i with
  | none => w
  | some v =>
    let v := (v.respond request).2
    ⟨v.store, Function.update w.viewers i (some v)⟩

def turn (w : SideBySide ι σ) : Turn ι → SideBySide ι σ
  | .start i config => w.begin i config
  | .request i request => w.ask i request

def run (w : SideBySide ι σ) (turns : List (Turn ι)) : SideBySide ι σ :=
  turns.foldl turn w

/-- What one of the viewers is asked. -/
def own (i : ι) (turns : List (Turn ι)) : List Request :=
  turns.filterMap fun
    | .request j request => if j = i then some request else none
    | .start .. => none

theorem own_cons_self (i : ι) (request : Request) (rest : List (Turn ι)) :
    own i (.request i request :: rest) = request :: own i rest :=
  List.filterMap_cons_some (if_pos rfl)

theorem own_cons_of_ne {j : ι} (ne : j ≠ i) (request : Request) (rest : List (Turn ι)) :
    own i (.request j request :: rest) = own i rest :=
  List.filterMap_cons_none (if_neg ne)

theorem viewers_begin_of_ne {j : ι} (ne : j ≠ i) (config : Config) :
    (w.begin j config).viewers i = w.viewers i :=
  Function.update_of_ne ne.symm _ _

theorem viewers_ask_of_ne {j : ι} (ne : j ≠ i) (request : Request) :
    (w.ask j request).viewers i = w.viewers i := by
  unfold ask
  cases w.viewer? j with
  | none => rfl
  | some v => exact Function.update_of_ne ne.symm _ _

theorem ask_eq {v : Viewer σ} (here : w.viewer? i = some v) (request : Request) :
    w.ask i request =
      ⟨(v.respond request).2.store, Function.update w.viewers i (some (v.respond request).2)⟩ := by
  unfold ask
  rw [here]

/-- A viewer that is not started anew goes its own way: but for the store, it is what it would be if
it had been asked the same with any store and nobody beside it. -/
theorem viewer_run {τ : Type} [Store τ] {u : Viewer τ} {v : Viewer σ} (here : w.viewers i = some v)
    (same : v.unstored = u.unstored) {turns : List (Turn ι)}
    (once : ∀ config, Turn.start i config ∉ turns) :
    ∃ v', (w.run turns).viewers i = some v' ∧ v'.unstored = (u.run (own i turns)).unstored := by
  induction turns generalizing w v u with
  | nil => exact ⟨v, here, same⟩
  | cons t rest ih =>
    have once' (config : Config) : Turn.start i config ∉ rest :=
      fun mem => once config (.tail _ mem)
    cases t with
    | start j config =>
      have ne : j ≠ i := by
        rintro rfl
        exact once config (.head _)
      exact ih ((viewers_begin_of_ne ne config).trans here) same once'
    | request j request =>
      by_cases turned : j = i
      · subst turned
        obtain ⟨v', here', same', -⟩ := viewer?_eq here
        rw [own_cons_self, Viewer.run_cons]
        refine ih ?_ (Viewer.respond_eq_of_unstored (same'.trans same) request).2 once'
        show (w.ask j request).viewers j = _
        rw [ask_eq here']
        exact Function.update_self _ _ _
      · rw [own_cons_of_ne turned]
        exact ih ((viewers_ask_of_ne turned request).trans here) same once'

/-! ## What is stored -/

/-- What turns change in the store, they change by puts. -/
theorem store_run {P : σ → Prop} (put : ∀ s key value, P s → P (Store.put s key value).2)
    (h : P w.store) (turns : List (Turn ι)) : P (w.run turns).store := by
  induction turns generalizing w with
  | nil => exact h
  | cons t rest ih =>
    refine ih ?_
    cases t with
    | start j config => exact h
    | request j request =>
      show P (w.ask j request).store
      unfold ask viewer?
      cases w.viewers j with
      | none => exact h
      | some v => exact Viewer.store_respond put h request

/-- In a store that remembers, the recent files that are stored when a viewer has opened a file are
the newest ten that it knows of itself. -/
theorem stored_of_remembers (w : SideBySide ι σ) (i : ι) (config : Config) (turns : List (Turn ι))
    (once : ∀ other, Turn.start i other ∉ turns) (request : Request) :
    let alone := (Viewer.start w.store config).run (own i turns)
    let beside := (w.begin i config).run turns
    ∃ v, beside.viewer? i = some v ∧ v.Alike alone ∧
      (v.respond request).1 = (alone.respond request).1 ∧
      (Remembers beside.store → (alone.respond request).1 = .opening (.ok .opened) →
        (Recents.load (beside.ask i request).store).entries =
          (newest (known w.store config (own i turns ++ [request]))).take 10) := by
  intro alone beside
  have started : (w.begin i config).viewers i = some (.start w.store config) :=
    Function.update_self _ _ _
  obtain ⟨v, there, same⟩ := viewer_run started rfl once
  obtain ⟨v', here, same', store⟩ := viewer?_eq there
  have unstored := same'.trans same
  have alike := Viewer.alike_of_unstored unstored
  have proper : v'.recents.Proper := by
    rw [alike.recents]
    exact Viewer.proper_run w.store config (own i turns)
  have inLimits : v'.preferences.InLimits := by
    rw [alike.preferences]
    exact Viewer.inLimits_run w.store config (own i turns)
  obtain ⟨answer, next⟩ := Viewer.respond_eq_of_unstored unstored request
  refine ⟨v', here, alike, answer, fun remembers opened => ?_⟩
  rw [ask_eq here]
  show (Recents.load (v'.respond request).2.store).entries = _
  rw [Viewer.load_respond (store ▸ remembers) proper inLimits (answer.trans opened),
    (Viewer.alike_of_unstored next).recents, ← Viewer.run_concat, Viewer.entries_run]

/-- Whatever viewers on a store in memory are asked, in whatever order: one that is not started anew
answers as if it was alone, and when it opens a file, the recent files that are stored then are the
newest ten that it knows of itself. -/
theorem stored_files (w : SideBySide ι MemoryStore) (i : ι) (config : Config)
    (turns : List (Turn ι)) (once : ∀ other, Turn.start i other ∉ turns) (request : Request) :
    let alone := (Viewer.start w.store config).run (own i turns)
    let beside := (w.begin i config).run turns
    ∃ v, beside.viewer? i = some v ∧ v.Alike alone ∧
      (v.respond request).1 = (alone.respond request).1 ∧
      ((alone.respond request).1 = .opening (.ok .opened) →
        (Recents.load (beside.ask i request).store).entries =
          (newest (known w.store config (own i turns ++ [request]))).take 10) := by
  intro alone beside
  obtain ⟨v, here, alike, answer, stored⟩ := stored_of_remembers w i config turns once request
  exact ⟨v, here, alike, answer, stored (MemoryStore.remembers beside.store)⟩

/-- A viewer finds one file stored when it starts; it opens a second one after another viewer has
opened a third. -/
theorem stored_files_two :
    let r : Resolver :=
      { pick := none, resolve := fun path => .text path.text ['x'] none, siblings := fun _ _ => [] }
    let w : SideBySide Bool MemoryStore :=
      ⟨Recents.save ⟨[.ofPath "c.txt"]⟩ .empty, fun _ => none⟩
    let turns : List (Turn Bool) := [.start false .initial, .request false (.openPath r ⟨"a.txt"⟩)]
    let request : Request := .openPath r ⟨"b.txt"⟩
    (∀ other, Turn.start true other ∉ turns) ∧
      (((Viewer.start w.store .initial).run (own true turns)).respond request).1 =
        .opening (.ok .opened) ∧
      (Recents.load (((w.begin true .initial).run turns).ask true request).store).entries =
        [.ofPath "b.txt", .ofPath "c.txt"] := by
  intro r w turns request
  have once (other : Config) : Turn.start true other ∉ turns := by
    simp [turns]
  obtain ⟨v, -, -, -, stored⟩ := stored_files w true .initial turns once request
  refine ⟨once, rfl, (stored rfl).trans ?_⟩
  decide +kernel

/-- The same on a file that accepts puts, where each viewer reads and writes the disk as the others
have left it. -/
theorem stored_in_file (w : SideBySide ι FileStore) (accepts : w.store.Accepts) (i : ι)
    (config : Config) (turns : List (Turn ι)) (once : ∀ other, Turn.start i other ∉ turns)
    (request : Request) :
    let alone := (Viewer.start w.store config).run (own i turns)
    let beside := (w.begin i config).run turns
    ∃ v, beside.viewer? i = some v ∧ v.Alike alone ∧
      (v.respond request).1 = (alone.respond request).1 ∧
      ((alone.respond request).1 = .opening (.ok .opened) →
        (Recents.load (beside.ask i request).store).entries =
          (newest (known w.store config (own i turns ++ [request]))).take 10) := by
  intro alone beside
  obtain ⟨v, here, alike, answer, stored⟩ := stored_of_remembers w i config turns once request
  have accepts' : beside.store.Accepts :=
    store_run (fun _ key value accepts => accepts.put key value)
      (show (w.begin i config).store.Accepts from accepts) turns
  exact ⟨v, here, alike, answer, stored accepts'.remembers⟩

/-- A file that is not there yet, next to nothing else. -/
example : FileStore.Accepts ⟨.empty, ⟨"state.json"⟩⟩ :=
  @FileStore.accepts_of_put _ Recents.key Recents.empty.toJson Disk.rooted_empty (by decide +kernel)

/-! ## What is forgotten -/

/-- The entry of the file that is opened in a turn. -/
def entry? (w : SideBySide ι σ) : Turn ι → Option Recent
  | .start .. => none
  | .request i request => do
    let v ← w.viewer? i
    let file ← v.found? request
    file.entry?

/-- The files that are opened in turns by any of the viewers, the newest first. -/
def opened : SideBySide ι σ → List (Turn ι) → List Recent
  | _, [] => []
  | w, t :: rest => opened (w.turn t) rest ++ (w.entry? t).toList

/-- The newest ten files that any of the viewers has opened are stored. -/
def RemembersAll (w : SideBySide ι σ) (turns : List (Turn ι)) : Prop :=
  ∀ r ∈ (newest (opened w turns)).take 10, r ∈ (Recents.load (w.run turns).store).entries

/-- Two viewers on one file, both started before either opens anything: the second to open a file
forgets the file that the first has opened. -/
theorem forgets_other_viewer :
    let r : Resolver :=
      { pick := none, resolve := fun path => .text path.text ['x'] none, siblings := fun _ _ => [] }
    let w : SideBySide Bool FileStore := ⟨⟨.empty, ⟨"state.json"⟩⟩, fun _ => none⟩
    let first : List (Turn Bool) :=
      [.start false .initial, .start true .initial, .request false (.openPath r ⟨"a.txt"⟩)]
    let both := first ++ [.request true (.openPath r ⟨"b.txt"⟩)]
    RemembersAll w first ∧ ¬ RemembersAll w both ∧
      opened w both = [.ofPath "b.txt", .ofPath "a.txt"] ∧
      (Recents.load (w.run both).store).entries = [.ofPath "b.txt"] := by
  intro r w first both
  have files : opened w both = [.ofPath "b.txt", .ofPath "a.txt"] := by decide +kernel
  have stored : (Recents.load (w.run both).store).entries = [.ofPath "b.txt"] := by decide +kernel
  refine ⟨?_, fun all => ?_, files, stored⟩
  · unfold RemembersAll
    decide +kernel
  · unfold RemembersAll at all
    rw [files, stored] at all
    exact absurd (all (.ofPath "a.txt") (by decide)) (by decide)

end SideBySide

end Glance
