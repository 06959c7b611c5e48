import Glance.Session
import Mathlib.Tactic

/-!
# Requests

Whatever may be asked of a viewer, as data: a run is a list of requests, each with what the world
outside answers to it (the files a resolver finds, whether a clipboard takes a text). `respond`
makes one request, `run` a list of them, and `moments` keeps what happened on the way.

A request to open a file comes upon one and ends in `showFile`, or upon none and changes nothing
(`respond_opening`; `opening_cases` where it does not matter which file it is), and all changes of
preferences are `prefer` of adjusted ones (`adjust_eq_prefer`). What a request preserves is
therefore shown once for each of these two and for the few that are left. Where it is about
preferences, recent files and the store alone, all of these few but one are one case
(`effect_respond`).
-/

namespace Glance.Viewer

open Number (Single)

variable {σ : Type}

/-! ## Preferences -/

/-- One change of preferences. -/
inductive Adjustment where
  | toggleDark
  | toggleWrap
  | toggleLineNumbers
  | setFit (on : Bool)
  | setTheme (theme : Theme)
  | zoomText (factor : Single)
  | zoomImageIn
  | zoomImageOut
  | resetImageZoom

/-- The preferences after a change. -/
def Adjustment.apply (p : Preferences) : Adjustment → Preferences
  | .toggleDark => { p with dark := !p.dark }
  | .toggleWrap => { p with wrap := !p.wrap }
  | .toggleLineNumbers => { p with lineNumbers := !p.lineNumbers }
  | .setFit on => { p with fit := on }
  | .setTheme theme => { p with theme := theme }
  | .zoomText factor => p.scaleText factor
  | .zoomImageIn => { p with fit := false }.setImageZoom (p.imageZoom.mul Preferences.zoomStep)
  | .zoomImageOut => { p with fit := false }.setImageZoom (p.imageZoom.div Preferences.zoomStep)
  | .resetImageZoom => { p with fit := false }.setImageZoom (.ofNat 1)

/-- The viewer after a change of preferences. -/
def adjust [Store σ] (v : Viewer σ) : Adjustment → Viewer σ
  | .toggleDark => v.toggleDark
  | .toggleWrap => v.toggleWrap
  | .toggleLineNumbers => v.toggleLineNumbers
  | .setFit on => v.setFit on
  | .setTheme theme => v.setTheme theme
  | .zoomText factor => v.zoomText factor
  | .zoomImageIn => v.zoomImageIn
  | .zoomImageOut => v.zoomImageOut
  | .resetImageZoom => v.resetImageZoom

theorem adjust_eq_prefer [Store σ] (v : Viewer σ) (a : Adjustment) :
    v.adjust a = v.prefer (a.apply v.preferences) := by
  cases a <;> rfl

/-! ## Requests and responses -/

inductive Request where
  | openPicked (r : Resolver)
  | openPath (r : Resolver) (path : Path)
  | openRecent (r : Resolver) (slot : Nat)
  | openNeighbor (r : Resolver) (dir : Direction)
  | close
  | setLanguage (lang : Language)
  | setQuery (query : List Char)
  | step (dir : Direction)
  | select (i : Nat)
  | setViewport (area : Viewport)
  | copyPath (clipboard : String → Bool)
  | adjust (a : Adjustment)
  | clearRecents

/-- What the viewer answers. -/
inductive Response where
  | done
  | opening (outcome : Except ViewerError Outcome)
  /-- The match that is emphasized now, if the request led to one. -/
  | landed (i : Option Nat)
  | languageSet (textOpen : Bool)
  | copied (result : Except ViewerError Unit)
  | preferred (p : Preferences)

/-- Makes one request. -/
def respond [Store σ] (v : Viewer σ) : Request → Response × Viewer σ
  | .openPicked r => let (outcome, v) := v.openPicked r; (.opening (.ok outcome), v)
  | .openPath r path => let (outcome, v) := v.openPath r path; (.opening (.ok outcome), v)
  | .openRecent r slot => let (outcome, v) := v.openRecent r slot; (.opening outcome, v)
  | .openNeighbor r dir => let (outcome, v) := v.openNeighbor r dir; (.opening (.ok outcome), v)
  | .close => (.done, v.close)
  | .setLanguage lang => let (textOpen, v) := v.setLanguage lang; (.languageSet textOpen, v)
  | .setQuery query => (.done, v.setQuery query)
  | .step dir => let (landed, v) := v.step dir; (.landed landed, v)
  | .select i => let (landed, v) := v.select i; (.landed landed, v)
  | .setViewport area => (.done, v.setViewport area)
  | .copyPath clipboard =>
    match v.copyPath clipboard with
    | .ok v => (.copied (.ok ()), v)
    | .error cause => (.copied (.error cause), v)
  | .adjust a => (.preferred (a.apply v.preferences), v.adjust a)
  | .clearRecents => (.done, v.clearRecents)

/-! ## Opening -/

/-- Requests that open a file. -/
def Request.IsOpening : Request → Prop
  | .openPicked _ | .openPath .. | .openRecent .. | .openNeighbor .. => True
  | _ => False

/-- The file that a request to open one comes upon. -/
inductive Finds (v : Viewer σ) : Request → OpenedFile → Prop
  | picked {r : Resolver} {file : OpenedFile} (pick : r.pick = some file) :
      Finds v (.openPicked r) file
  | atPath (r : Resolver) (path : Path) : Finds v (.openPath r path) (r.resolve path)
  | recent (r : Resolver) {slot : ℕ} {entry : Recent} (known : v.recents.inSlot slot = some entry)
      (path : entry.kind = .path) : Finds v (.openRecent r slot) (r.resolve ⟨entry.identifier⟩)
  | neighbor (r : Resolver) {dir : Direction} {content : Content} {next : Path}
      (shown : v.content = some content)
      (beside : Glance.neighbor (r.siblings ⟨content.path⟩ content.kind) ⟨content.path⟩ dir =
        some next) : Finds v (.openNeighbor r dir) (r.resolve next)

/-- Either the request finds a file, which is shown, or it finds none, and the viewer says so
without being touched. -/
def Answers [Store σ] (v : Viewer σ) (request : Request)
    (answer : Except ViewerError Outcome × Viewer σ) : Prop :=
  (∃ file, Finds v request file ∧ answer = (.ok (v.showFile file).1, (v.showFile file).2)) ∨
    (∀ file, ¬ Finds v request file) ∧ answer.2 = v ∧
      (answer.1 = .ok .cancelled ∨ ∃ label, answer.1 = .error (.recentUnavailable label))

theorem answers_openPicked [Store σ] (v : Viewer σ) (r : Resolver) :
    Answers v (.openPicked r) (.ok (v.openPicked r).1, (v.openPicked r).2) := by
  unfold openPicked
  cases pick : r.pick with
  | none =>
    refine .inr ⟨fun file h => ?_, rfl, .inl rfl⟩
    cases h with
    | picked pick' => exact nomatch pick.symm.trans pick'
  | some file => exact .inl ⟨file, .picked pick, rfl⟩

theorem answers_openRecent [Store σ] (v : Viewer σ) (r : Resolver) (slot : ℕ) :
    Answers v (.openRecent r slot) (v.openRecent r slot) := by
  unfold openRecent
  cases known : v.recents.inSlot slot with
  | none =>
    refine .inr ⟨fun file h => ?_, rfl, .inl rfl⟩
    cases h with
    | recent _ known' _ => exact nomatch known.symm.trans known'
  | some entry =>
    dsimp only
    split_ifs with path
    · exact .inl ⟨_, .recent r known path, rfl⟩
    · refine .inr ⟨fun file h => ?_, rfl, .inr ⟨_, rfl⟩⟩
      cases h with
      | recent _ known' path' =>
        obtain rfl := Option.some.inj (known.symm.trans known')
        exact path path'

theorem answers_openNeighbor [Store σ] (v : Viewer σ) (r : Resolver) (dir : Direction) :
    Answers v (.openNeighbor r dir) (.ok (v.openNeighbor r dir).1, (v.openNeighbor r dir).2) := by
  unfold openNeighbor
  cases shown : v.content with
  | none =>
    refine .inr ⟨fun file h => ?_, rfl, .inl rfl⟩
    cases h with
    | neighbor _ shown' _ => exact nomatch shown.symm.trans shown'
  | some content =>
    dsimp only
    cases beside :
      Glance.neighbor (r.siblings ⟨content.path⟩ content.kind) ⟨content.path⟩ dir with
    | none =>
      refine .inr ⟨fun file h => ?_, rfl, .inl rfl⟩
      cases h with
      | neighbor _ shown' beside' =>
        obtain rfl := Option.some.inj (shown.symm.trans shown')
        exact nomatch beside.symm.trans beside'
    | some next => exact .inl ⟨_, .neighbor r shown beside, rfl⟩

theorem respond_opening [Store σ] (v : Viewer σ) {request : Request}
    (opening : request.IsOpening) :
    ∃ answer, v.respond request = (.opening answer.1, answer.2) ∧ Answers v request answer := by
  cases request with
  | openPicked r => exact ⟨_, rfl, answers_openPicked v r⟩
  | openPath r path => exact ⟨_, rfl, .inl ⟨_, .atPath r path, rfl⟩⟩
  | openRecent r slot => exact ⟨_, rfl, answers_openRecent v r slot⟩
  | openNeighbor r dir => exact ⟨_, rfl, answers_openNeighbor v r dir⟩
  | _ => exact opening.elim

/-- The viewer was left alone, and the response does not claim that a file was opened. -/
def Declined (v : Viewer σ) (answer : Except ViewerError Outcome × Viewer σ) : Prop :=
  answer.2 = v ∧ (answer.1 = .ok .cancelled ∨ ∃ cause, answer.1 = .error cause)

/-- A file was resolved and shown, or it failed to open. -/
def Shown [Store σ] (v : Viewer σ) (answer : Except ViewerError Outcome × Viewer σ) : Prop :=
  ∃ file, answer = (.ok (v.showFile file).1, (v.showFile file).2)

/-- Every way of opening a file shows the one that was found or changes nothing. -/
theorem opening_cases [Store σ] (v : Viewer σ) {request : Request} (h : request.IsOpening) :
    ∃ answer, v.respond request = (.opening answer.1, answer.2) ∧
      (Shown v answer ∨ Declined v answer) := by
  obtain ⟨answer, eq, ⟨file, -, shown⟩ | ⟨-, same, told⟩⟩ := respond_opening v h
  · exact ⟨answer, eq, .inl ⟨file, shown⟩⟩
  · exact ⟨answer, eq, .inr ⟨same, told.imp_right fun ⟨_, unavailable⟩ => ⟨_, unavailable⟩⟩⟩

/-! ## Requests that touch one field -/

theorem setLanguage_cases (v : Viewer σ) (lang : Language) :
    (v.setLanguage lang).2 = v ∨
      ∃ path doc old, v.content = some (.text path doc old) ∧
        (v.setLanguage lang).2 = { v with content := some (.text path doc lang) } := by
  unfold setLanguage
  split
  · rename_i path doc old content
    exact .inr ⟨path, doc, old, content, rfl⟩
  · exact .inl rfl

theorem respond_copyPath_cases [Store σ] (v : Viewer σ) (clipboard : String → Bool) :
    ∃ result, (v.respond (.copyPath clipboard)).1 = .copied result ∧
      ((v.respond (.copyPath clipboard)).2 = v ∨
        (v.respond (.copyPath clipboard)).2 = { v with copied := true }) := by
  unfold respond copyPath
  cases v.currentPath with
  | none => exact ⟨_, rfl, .inl rfl⟩
  | some path =>
    dsimp only
    split_ifs
    · exact ⟨_, rfl, .inr rfl⟩
    · exact ⟨_, rfl, .inl rfl⟩

/-! ## What is kept in the store -/

/-- What a request does to the preferences, the recent files and the store: it shows a file that it
finds, changes the preferences or clears the recent files, or else leaves the three as they are. -/
inductive Effect [Store σ] (v : Viewer σ) : Request → Viewer σ → Prop
  | shows {request : Request} {file : OpenedFile} (finds : Finds v request file) :
      Effect v request (v.showFile file).2
  | prefers (a : Adjustment) : Effect v (.adjust a) (v.prefer (a.apply v.preferences))
  | clears : Effect v .clearRecents v.clearRecents
  | leaves {request : Request} {w : Viewer σ} (finds : ∀ file, ¬ Finds v request file)
      (clears : request ≠ .clearRecents) (preferences : w.preferences = v.preferences)
      (recents : w.recents = v.recents) (store : w.store = v.store) : Effect v request w

theorem effect_respond [Store σ] (v : Viewer σ) (request : Request) :
    Effect v request (v.respond request).2 := by
  by_cases opening : request.IsOpening
  · obtain ⟨answer, eq, ⟨file, finds, rfl⟩ | ⟨none, same, -⟩⟩ := respond_opening v opening <;>
      rw [eq]
    · exact .shows finds
    · show Effect v request answer.2
      rw [same]
      exact .leaves none (by rintro rfl; exact opening) rfl rfl rfl
  cases request with
  | setLanguage lang =>
    show Effect v _ (v.setLanguage lang).2
    obtain same | ⟨path, doc, old, -, eq⟩ := setLanguage_cases v lang
    · rw [same]
      exact .leaves nofun nofun rfl rfl rfl
    · rw [eq]
      exact .leaves nofun nofun rfl rfl rfl
  | setQuery query =>
    show Effect v _ (v.setQuery query)
    unfold setQuery
    split_ifs <;> exact .leaves nofun nofun rfl rfl rfl
  | copyPath clipboard =>
    obtain ⟨result, -, same | eq⟩ := respond_copyPath_cases v clipboard
    · rw [same]
      exact .leaves nofun nofun rfl rfl rfl
    · rw [eq]
      exact .leaves nofun nofun rfl rfl rfl
  | adjust a =>
    show Effect v _ (v.adjust a)
    rw [adjust_eq_prefer]
    exact .prefers a
  | clearRecents => exact .clears
  | openPicked | openPath | openRecent | openNeighbor => exact (opening trivial).elim
  | _ => exact .leaves nofun nofun rfl rfl rfl

/-! ## Maps of viewers -/

/-- A map of viewers that keeps what requests about files look up, and for which it is all the same
whether what such a request does is done before it or behind it. -/
structure Unnoticed {τ : Type} [Store σ] [Store τ] (f : Viewer σ → Viewer τ) : Prop where
  content : ∀ v, (f v).content = v.content
  recents : ∀ v, (f v).recents = v.recents
  shows : ∀ v file, (f v).showFile file = ((v.showFile file).1, f (v.showFile file).2)
  copies : ∀ v, { f v with copied := true } = f { v with copied := true }
  /-- Reading the open text as another language. -/
  reads : ∀ v path doc old lang, v.content = some (.text path doc old) →
    { f v with content := some (.text path doc lang) } =
      f { v with content := some (.text path doc lang) }

section Maps

variable {τ : Type} [Store σ] [Store τ] {f : Viewer σ → Viewer τ}

theorem Unnoticed.opening (same : Unnoticed f) (v : Viewer σ) {request : Request}
    (opening : request.IsOpening) :
    (f v).respond request = ((v.respond request).1, f (v.respond request).2) := by
  cases request with
  | openPicked r =>
    simp only [respond, openPicked]
    cases r.pick with
    | none => rfl
    | some file => simp only [same.shows]
  | openPath r path => simp only [respond, openPath, same.shows]
  | openRecent r slot =>
    simp only [respond, openRecent, openPath, same.recents]
    cases v.recents.inSlot slot with
    | none => rfl
    | some entry => by_cases path : entry.kind = .path <;> simp [path, same.shows]
  | openNeighbor r dir =>
    simp only [respond, openNeighbor, openPath, same.content]
    cases v.content with
    | none => rfl
    | some content =>
      dsimp only
      cases neighbor (r.siblings ⟨content.path⟩ content.kind) ⟨content.path⟩ dir with
      | none => rfl
      | some next => simp only [same.shows]
  | _ => exact opening.elim

theorem Unnoticed.setLanguage (same : Unnoticed f) (v : Viewer σ) (lang : Language) :
    (f v).respond (.setLanguage lang) =
      ((v.respond (.setLanguage lang)).1, f (v.respond (.setLanguage lang)).2) := by
  simp only [respond, Viewer.setLanguage]
  rw [same.content]
  cases shown : v.content with
  | none => rfl
  | some content =>
    cases content with
    | text path doc old => simp only [same.reads v path doc old lang shown]
    | image path image => rfl

theorem Unnoticed.copyPath (same : Unnoticed f) (v : Viewer σ) (clipboard : String → Bool) :
    (f v).respond (.copyPath clipboard) =
      ((v.respond (.copyPath clipboard)).1, f (v.respond (.copyPath clipboard)).2) := by
  have path : (f v).currentPath = v.currentPath := by
    unfold currentPath
    rw [same.content]
  simp only [respond, Viewer.copyPath, path]
  cases v.currentPath with
  | none => rfl
  | some path =>
    by_cases taken : clipboard path
    · simp only [if_pos taken, same.copies]
    · simp only [if_neg taken]

end Maps

/-! ## Runs -/

/-- Makes requests one after the other. -/
def run [Store σ] (v : Viewer σ) (requests : List Request) : Viewer σ :=
  requests.foldl (fun v request => (v.respond request).2) v

/-- One request of a run, with the viewer it was made to and what that viewer answered. -/
structure Moment (σ : Type) where
  viewer : Viewer σ
  request : Request
  response : Response

/-- What happens in a run. -/
def moments [Store σ] (v : Viewer σ) : List Request → List (Moment σ)
  | [] => []
  | request :: rest =>
    ⟨v, request, (v.respond request).1⟩ :: moments (v.respond request).2 rest

@[simp] theorem run_nil [Store σ] (v : Viewer σ) : v.run [] = v := rfl

@[simp] theorem run_cons [Store σ] (v : Viewer σ) (request : Request) (rest : List Request) :
    v.run (request :: rest) = ((v.respond request).2).run rest := rfl

theorem run_concat [Store σ] (v : Viewer σ) (requests : List Request) (request : Request) :
    v.run (requests ++ [request]) = ((v.run requests).respond request).2 := by
  unfold run
  rw [List.foldl_append]
  rfl

/-- What every request preserves, every run preserves. -/
theorem run_induction [Store σ] {P : Viewer σ → Prop}
    (step : ∀ v request, P v → P (v.respond request).2) {v : Viewer σ} (h : P v)
    (requests : List Request) : P (v.run requests) := by
  induction requests generalizing v with
  | nil => exact h
  | cons request rest ih => exact ih (step v request h)

end Glance.Viewer
