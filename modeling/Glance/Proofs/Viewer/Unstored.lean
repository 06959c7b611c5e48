import Glance.Proofs.Preferences.Typed
import Glance.Proofs.Recents.Stored
import Glance.Proofs.Viewer.Request

/-!
# Viewing does not depend on the store

After its start a viewer only puts things into its store and never asks whether that worked, let
alone what is in there. Taken away its store (`unstored`) it therefore answers every request as
before, and the two stay in step (`respond_unstored`). Two viewers that differ in their stores
alone, however these fail, are the same viewer without a store, and look the same for good.
-/

namespace Glance

/-- No store at all: whatever is asked of it fails. -/
structure NoStore where

instance : Store NoStore where
  get _ _ := .error .noConfigFolder
  put _ _ _ := (.error .noConfigFolder, ⟨⟩)

namespace Viewer

variable {σ τ : Type}

/-- The viewer without its store. -/
def unstored (v : Viewer σ) : Viewer NoStore where
  store := ⟨⟩
  config := v.config
  preferences := v.preferences
  recents := v.recents
  content := v.content
  query := v.query
  index := v.index
  navigator := v.navigator
  viewport := v.viewport
  copied := v.copied
  error := v.error

@[simp] theorem query_unstored (v : Viewer σ) : v.unstored.query = v.query := rfl

/-! ## Requests -/

theorem unnoticed_unstored [Store σ] :
    Unnoticed (unstored : Viewer σ → Viewer NoStore) where
  content _ := rfl
  recents _ := rfl
  shows v file := by cases file <;> rfl
  copies _ := rfl
  reads _ _ _ _ _ _ := rfl

theorem setQuery_unstored (v : Viewer σ) (query : List Char) :
    v.unstored.setQuery query = (v.setQuery query).unstored := by
  unfold setQuery
  rw [query_unstored]
  by_cases same : v.query = query
  · rw [if_pos same, if_pos same]
  · rw [if_neg same, if_neg same]
    rfl

/-- A request is answered alike with and without a store, and the viewers stay in step. -/
theorem respond_unstored [Store σ] (v : Viewer σ) (request : Request) :
    v.unstored.respond request = ((v.respond request).1, (v.respond request).2.unstored) := by
  cases request with
  | openPicked r => exact unnoticed_unstored.opening v trivial
  | openPath r path => exact unnoticed_unstored.opening v trivial
  | openRecent r slot => exact unnoticed_unstored.opening v trivial
  | openNeighbor r dir => exact unnoticed_unstored.opening v trivial
  | setLanguage lang => exact unnoticed_unstored.setLanguage v lang
  | setQuery query => simp only [respond, setQuery_unstored]
  | copyPath clipboard => exact unnoticed_unstored.copyPath v clipboard
  | adjust a =>
    simp only [respond, adjust_eq_prefer]
    rfl
  | _ => rfl

/-! ## What is shown -/

theorem imageZoom_unstored (v : Viewer σ) : v.unstored.imageZoom = v.imageZoom := rfl

theorem renderOptions_unstored (v : Viewer σ) : v.unstored.renderOptions = v.renderOptions := rfl

theorem reveal_unstored (v : Viewer σ) : v.unstored.reveal = v.reveal := rfl

theorem render_unstored (v : Viewer σ) : v.unstored.render = v.render := by
  unfold render
  rw [renderOptions_unstored]
  rfl

theorem status_unstored (v : Viewer σ) : v.unstored.status = v.status := by
  unfold status
  rw [imageZoom_unstored]
  rfl

/-! ## Two viewers -/

/-- What can be told of two viewers without asking their stores is the same. -/
structure Alike (v : Viewer σ) (w : Viewer τ) : Prop where
  content : v.content = w.content
  query : v.query = w.query
  index : v.index = w.index
  navigator : v.navigator = w.navigator
  preferences : v.preferences = w.preferences
  recents : v.recents = w.recents
  viewport : v.viewport = w.viewport
  error : v.error = w.error
  status : v.status = w.status
  render : v.render = w.render
  stylesheet : v.stylesheet = w.stylesheet
  imageZoom : v.imageZoom = w.imageZoom
  reveal : v.reveal = w.reveal

theorem alike_of_unstored {v : Viewer σ} {w : Viewer τ} (same : v.unstored = w.unstored) :
    Alike v w where
  content := congrArg Viewer.content same
  query := congrArg Viewer.query same
  index := congrArg Viewer.index same
  navigator := congrArg Viewer.navigator same
  preferences := congrArg Viewer.preferences same
  recents := congrArg Viewer.recents same
  viewport := congrArg Viewer.viewport same
  error := congrArg Viewer.error same
  status := by rw [← status_unstored, same, status_unstored]
  render := by rw [← render_unstored, same, render_unstored]
  stylesheet := congrArg (fun v => v.preferences.theme.stylesheet) same
  imageZoom := by rw [← imageZoom_unstored, same, imageZoom_unstored]
  reveal := by rw [← reveal_unstored, same, reveal_unstored]

/-- Two viewers were alike, were asked the same and answered the same. -/
structure Moment.Alike (m : Moment σ) (n : Moment τ) : Prop where
  viewer : m.viewer.Alike n.viewer
  request : m.request = n.request
  response : m.response = n.response

section Runs

variable [Store σ] [Store τ] {v : Viewer σ} {w : Viewer τ}

theorem respond_eq_of_unstored (same : v.unstored = w.unstored) (request : Request) :
    (v.respond request).1 = (w.respond request).1 ∧
      (v.respond request).2.unstored = (w.respond request).2.unstored := by
  have answers := congrArg (·.respond request) same
  simp only [respond_unstored] at answers
  exact Prod.mk.inj answers

/-- Viewers that are the same without their stores are alike at every moment of the same run, and
behind it. -/
theorem alike_run (same : v.unstored = w.unstored) (requests : List Request) :
    List.Forall₂ Moment.Alike (v.moments requests) (w.moments requests) ∧
      (v.run requests).Alike (w.run requests) := by
  induction requests generalizing v w with
  | nil => exact ⟨.nil, alike_of_unstored same⟩
  | cons request rest ih =>
    obtain ⟨answer, next⟩ := respond_eq_of_unstored same request
    obtain ⟨moments, behind⟩ := ih next
    exact ⟨.cons ⟨alike_of_unstored same, rfl, answer⟩ moments, behind⟩

end Runs

/-! ## The start -/

/-- The store fails to give a value of the right form: it refuses, or has nothing there, or has
something else. -/
def Useless [Store σ] (store : σ) (key : String) (usable : Json → Prop) : Prop :=
  ∀ value, Store.get store key = .ok (some value) → ¬ usable value

/-- An array of recent files. -/
def AreRecents (value : Json) : Prop :=
  ∃ items files, value = .arr items ∧ List.Forall₂ Recent.Stored items files

/-- What a store gives under the one key decides alone about what is loaded from it. -/
theorem load_congr [Store σ] [Store τ] (s : σ) (t : τ) :
    (Store.get s Preferences.key = Store.get t Preferences.key →
      Preferences.load s = Preferences.load t) ∧
    (Store.get s Recents.key = Store.get t Recents.key → Recents.load s = Recents.load t) := by
  unfold Preferences.load Recents.load
  constructor <;> intro same <;> rw [same]

/-- Two viewers that begin with the same preferences and recent files look the same during the same
run, whatever becomes of what they put into their stores. What a store does not give at the start is
replaced by the default, and each of the two values by its own. -/
theorem looks_same_on_any_store [Store σ] [Store τ] (s : σ) (t : τ) (config : Config)
    (preferences : Preferences.load s = Preferences.load t)
    (recents : Recents.load s = Recents.load t) (requests : List Request) :
    List.Forall₂ Moment.Alike ((start s config).moments requests)
        ((start t config).moments requests) ∧
      ((start s config).run requests).Alike ((start t config).run requests) ∧
      (∀ u : σ,
        (Useless u Preferences.key Preferences.Typed →
          (start u config).preferences = .initial) ∧
        (Useless u Recents.key AreRecents → (start u config).recents = .empty) ∧
        ∀ w : τ,
          (Store.get u Preferences.key = Store.get w Preferences.key →
            (start u config).preferences = (start w config).preferences) ∧
          (Store.get u Recents.key = Store.get w Recents.key →
            (start u config).recents = (start w config).recents)) := by
  have same : (start s config).unstored = (start t config).unstored := by
    unfold unstored start
    rw [preferences, recents]
  obtain ⟨moments, behind⟩ := alike_run same requests
  refine ⟨moments, behind, fun u => ⟨?_, ?_, load_congr u⟩⟩
  · exact Preferences.load_eq_initial
  · intro useless
    exact Recents.load_eq_empty fun items files get stored =>
      useless _ get ⟨items, files, rfl, stored⟩

/-- A viewer that remembers nothing opens a text, and so does one that remembers it. -/
theorem looks_same_on_any_store_opened :
    let r : Resolver :=
      { pick := none, resolve := fun path => .text path.text ['x'] none, siblings := fun _ _ => [] }
    let requests : List Request := [.openPath r ⟨"a.rs"⟩, .adjust .toggleDark]
    Preferences.load MemoryStore.empty = Preferences.load (⟨⟩ : NoStore) ∧
      Recents.load MemoryStore.empty = Recents.load (⟨⟩ : NoStore) ∧
      ((start MemoryStore.empty .initial).run requests).Alike
        ((start (⟨⟩ : NoStore) .initial).run requests) := by
  intro r requests
  exact ⟨rfl, rfl,
    (looks_same_on_any_store MemoryStore.empty (⟨⟩ : NoStore) .initial rfl rfl requests).2.1⟩

end Viewer

end Glance
