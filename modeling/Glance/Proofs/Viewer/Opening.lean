import Glance.Proofs.Recents
import Glance.Proofs.Viewer.Request

/-!
# Opening is all or nothing

Four requests open a file. Whichever is made, it either finds one file (`Finds`) or none. A file
that can be shown replaces everything that depends on what is open (`Opened`); a file that failed
changes the error message alone; and where none was found, nothing changes at all.
-/

namespace Glance

/-! ## What a file gives -/

namespace OpenedFile

/-- What is open when the file is shown; a file that failed cannot be. -/
def content? : OpenedFile → Option Content
  | .text path chars _ => some (.text path ⟨chars⟩ (.ofPath ⟨path⟩))
  | .image path source _ => some (.image path source)
  | .failed .. => none

/-- The entry by which the file can be found again: its token, or else its path. -/
def entry? : OpenedFile → Option Recent
  | .text path _ token? | .image path _ token? =>
    match token? with
    | some token => some ⟨.handle, token, path⟩
    | none => some ⟨.path, path, path⟩
  | .failed .. => none

end OpenedFile

namespace Viewer

variable {σ : Type} {v : Viewer σ} {request : Request} {file : OpenedFile}

/-! ## What a request finds -/

theorem Finds.unique {other : OpenedFile} (h : Finds v request file)
    (h' : Finds v request other) : file = other := by
  cases h with
  | picked pick =>
    cases h' with
    | picked pick' => exact Option.some.inj (pick.symm.trans pick')
  | atPath r path =>
    cases h'
    rfl
  | recent r known path =>
    cases h' with
    | recent _ known' _ => rw [Option.some.inj (known.symm.trans known')]
  | neighbor r shown beside =>
    cases h' with
    | neighbor _ shown' beside' =>
      obtain rfl := Option.some.inj (shown.symm.trans shown')
      rw [Option.some.inj (beside.symm.trans beside')]

/-! ## What showing a file does -/

theorem showFile_of_content? [Store σ] (v : Viewer σ) {file : OpenedFile} {content : Content}
    (shows : file.content? = some content) :
    (v.showFile file).1 = .opened ∧ (v.showFile file).2.content = some content := by
  cases file with
  | failed path message => exact nomatch shows
  | _ => exact ⟨rfl, shows⟩

/-- `w` is `v` with `content` open, which is remembered as `entry`. -/
structure Opened [Store σ] (v : Viewer σ) (content : Content) (entry : Recent) (w : Viewer σ) :
    Prop where
  content_eq : w.content = some content
  error_eq : w.error = none
  copied_eq : w.copied = false
  /-- The entry is the most recent one, and of the others at most the oldest is gone. -/
  recents : ∃ kept dropped, w.recents.entries = entry :: kept ∧
    v.recents.entries.filter
      (fun other => other.kind ≠ entry.kind ∨ other.identifier ≠ entry.identifier) =
        kept ++ dropped ∧
    dropped.length ≤ 1 ∧ (dropped ≠ [] → w.recents.count = Recents.capacity)
  query_eq : w.query = v.query
  index_eq : w.index = match content with
    | .text _ doc _ => .ofText doc.text v.query
    | .image .. => .empty
  navigator_eq : w.navigator = .start w.index.count
  config_eq : w.config = v.config
  viewport_eq : w.viewport = v.viewport
  preferences : match content with
    | .text .. => w.preferences = v.preferences
    | .image .. => ∃ fit,
      w.preferences = { v.preferences with imageZoom := .ofNat 1, fit := fit } ∧
        (v.viewport = none → fit = v.preferences.fit)
  store_eq : w.store = match content with
    | .text .. => w.recents.save v.store
    | .image .. => w.preferences.save (w.recents.save v.store)

theorem opened_showFile [Store σ] (proper : v.recents.Proper) {content : Content}
    (shows : file.content? = some content) :
    ∃ entry, file.entry? = some entry ∧ (v.showFile file).1 = .opened ∧
      Opened v content entry (v.showFile file).2 := by
  cases file with
  | failed path message => exact nomatch shows
  | text path text token =>
    obtain rfl := Option.some.inj shows
    refine ⟨recentOf path token, by cases token <;> rfl, rfl, ?_⟩
    exact ⟨rfl, rfl, rfl, proper.push_split _, rfl, rfl, rfl, rfl, rfl, rfl, rfl⟩
  | image path image token =>
    obtain rfl := Option.some.inj shows
    refine ⟨recentOf path token, by cases token <;> rfl, rfl, ?_⟩
    have fitted : v.viewport = none →
        (forImage v.preferences v.viewport image.size).fit = v.preferences.fit := by
      intro unknown
      rw [unknown]
      rfl
    exact ⟨rfl, rfl, rfl, proper.push_split _, rfl, rfl, rfl, rfl, rfl, ⟨_, rfl, fitted⟩, rfl⟩

/-- A request that finds a file shows it. -/
theorem respond_of_finds [Store σ] (finds : Finds v request file) :
    v.respond request = (.opening (.ok (v.showFile file).1), (v.showFile file).2) := by
  have opening : request.IsOpening := by cases finds <;> trivial
  obtain ⟨answer, eq, ⟨other, finds', rfl⟩ | ⟨none, -⟩⟩ := respond_opening v opening
  · obtain rfl := finds.unique finds'
    exact eq
  · exact (none _ finds).elim

/-! ## Recent files on the way -/

/-- Every request keeps the recent files proper, whatever becomes of the store. -/
theorem proper_respond [Store σ] (proper : v.recents.Proper) (request : Request) :
    (v.respond request).2.recents.Proper := by
  have effect := effect_respond v request
  generalize (v.respond request).2 = w at effect ⊢
  cases effect with
  | @shows _ file finds =>
    cases file with
    | failed path message => exact proper
    | _ => exact proper.push _
  | prefers a => exact proper
  | clears => exact Recents.proper_empty
  | leaves _ _ _ recents _ => exact recents ▸ proper

theorem proper_run [Store σ] (store : σ) (config : Config) (requests : List Request) :
    ((start store config).run requests).recents.Proper :=
  run_induction (P := fun v => v.recents.Proper) (fun _ request h => proper_respond h request)
    (Recents.proper_load store) requests

/-! ## All or nothing -/

/-- In every state of every run, whatever a resolver answers: the outcome of a request to open a
file tells which file was found, an opened file is all there, and otherwise at most the error
message changes. -/
theorem opening_all_or_nothing [Store σ] (store : σ) (config : Config) (requests : List Request)
    {request : Request} (opening : request.IsOpening) :
    let v := (start store config).run requests
    ∃ outcome w, v.respond request = (.opening outcome, w) ∧
      (outcome = .ok .opened ∧
          (∃ file content entry, Finds v request file ∧ file.content? = some content ∧
            file.entry? = some entry ∧ Opened v content entry w) ∨
        (∃ path message, Finds v request (.failed path message) ∧
          outcome = .ok (.failed message) ∧ w = { v with error := some message }) ∨
        (∀ file, ¬ Finds v request file) ∧ w = v ∧
          (outcome = .ok .cancelled ∨ ∃ label, outcome = .error (.recentUnavailable label))) := by
  intro v
  have proper : v.recents.Proper := proper_run store config requests
  obtain ⟨answer, eq, ⟨file, finds, rfl⟩ | ⟨none, same, told⟩⟩ := respond_opening v opening
  · refine ⟨_, _, eq, ?_⟩
    cases shows : file.content? with
    | some content =>
      obtain ⟨entry, known, told, opened⟩ := opened_showFile proper shows
      rw [told]
      exact .inl ⟨rfl, file, content, entry, finds, shows, known, opened⟩
    | none =>
      cases file with
      | failed path message => exact .inr (.inl ⟨path, message, finds, rfl, rfl⟩)
      | _ => exact nomatch shows
  · exact ⟨_, _, eq, .inr (.inr ⟨none, same, told⟩)⟩

/-- An image is picked while a text is open; a token is all that is known of its place. -/
theorem opening_all_or_nothing_picked :
    let image : ImageSource := ⟨"file:///a.png", ⟨2, 1⟩⟩
    let r : Resolver :=
      { pick := some (.image "a.png" image (some "7"))
        resolve := fun path => .text path.text ['x'] none
        siblings := fun _ _ => [] }
    let v := (start MemoryStore.empty .initial).run [.openPath r ⟨"a.rs"⟩]
    Request.IsOpening (.openPicked r) ∧
      ∃ w, v.respond (.openPicked r) = (.opening (.ok .opened), w) ∧
        Opened v (.image "a.png" image) ⟨.handle, "7", "a.png"⟩ w := by
  intro image r v
  have opening : Request.IsOpening (.openPicked r) := trivial
  have found : Finds v (.openPicked r) (.image "a.png" image (some "7")) := .picked rfl
  refine ⟨opening, ?_⟩
  obtain ⟨outcome, w, eq, ⟨rfl, file, content, entry, finds, shows, known, opened⟩ |
      ⟨path, message, finds, -⟩ | ⟨none, -⟩⟩ :=
    opening_all_or_nothing MemoryStore.empty .initial [.openPath r ⟨"a.rs"⟩] opening
  · obtain rfl := finds.unique found
    obtain rfl := Option.some.inj shows
    obtain rfl := Option.some.inj known
    exact ⟨w, eq, opened⟩
  · exact nomatch finds.unique found
  · exact (none _ found).elim

end Viewer

end Glance
