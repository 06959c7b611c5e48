import Glance.Proofs.Store.Accepting
import Glance.Proofs.Viewer.Opening
import Glance.Proofs.Viewer.Resume

/-!
# What is stored when a file was opened

A store remembers recent files when it gives them back as they were saved, also behind preferences
that were saved later (`Remembers`). Memory does, and so does a file that accepts puts, since no
float is among recent files. In such a store the recent files of a viewer are found as soon as it
has opened a file (`Viewer.load_respond`).
-/

namespace Glance

open Number (Double)

/-! ## Values that are saved -/

theorem Recent.storable_toJson (r : Recent) : Json.Storable 1 r.toJson := by
  refine .object fun m mem => ?_
  simp only [List.mem_cons, List.not_mem_nil, or_false] at mem
  rcases mem with rfl | rfl | rfl <;> exact .str

theorem Recents.storable_toJson (rs : Recents) : Json.Storable 2 rs.toJson := by
  refine .arr fun value mem => ?_
  obtain ⟨r, -, rfl⟩ := List.mem_map.mp mem
  exact r.storable_toJson

/-- Zooms within limits are finite, and so they are when they are stored. -/
theorem Preferences.InLimits.sound_toJson {p : Preferences} (inLimits : p.InLimits) :
    p.toJson.Sound := by
  have text := Double.finite_widen inLimits.textZoom_usable.1
  have image := Double.finite_widen inLimits.imageZoom_usable.1
  refine .object fun m mem => ?_
  simp only [List.mem_cons, List.not_mem_nil, or_false] at mem
  rcases mem with rfl | rfl | rfl | rfl | rfl | rfl | rfl
  exacts [.bool, .bool, .bool, .bool, .float text, .float image, .str]

theorem Preferences.nesting_toJson_le (p : Preferences) : p.toJson.nesting ≤ 1 := by
  refine Json.nesting_obj_le_iff.mpr fun m mem => ?_
  have mem := Json.Members.mem_of_mem_ofList mem
  simp only [List.mem_cons, List.not_mem_nil, or_false] at mem
  rcases mem with rfl | rfl | rfl | rfl | rfl | rfl | rfl <;> exact Nat.le_refl 0

/-! ## Stores that remember -/

/-- Recent files that are saved are loaded again, also when preferences are saved behind them. -/
structure Remembers {σ : Type} [Store σ] (s : σ) : Prop where
  recents : ∀ rs : Recents, rs.Proper → Recents.load (rs.save s) = rs
  preferences : ∀ (rs : Recents) (p : Preferences), rs.Proper → p.InLimits →
    Recents.load (p.save (rs.save s)) = rs

theorem MemoryStore.remembers (s : MemoryStore) : Remembers s where
  recents _ proper := proper.load_save s
  preferences _ p proper _ := (Recents.load_save_preferences p _).trans (proper.load_save s)

theorem FileStore.Accepts.remembers {s : FileStore} (accepts : s.Accepts) : Remembers s := by
  have brief (rs : Recents) (n : ℕ) : Json.reread^[n] rs.toJson = rs.toJson :=
    Function.iterate_fixed rs.storable_toJson.brief.reread_eq n
  have shallow (rs : Recents) : Shallow rs.toJson :=
    rs.storable_toJson.nesting_le.trans_lt (by decide)
  constructor
  · intro rs proper
    have got := @get_latest s _ Recents.key rs.toJson [] []
      (List.forall_mem_singleton.mpr rs.storable_toJson.sound) (accepts.putAll_eq _)
      (List.forall_mem_singleton.mpr (shallow rs)) nofun
    rw [brief] at got
    exact proper.load_eq got
  · intro rs p proper inLimits
    have shallow' : Shallow p.toJson := p.nesting_toJson_le.trans_lt (by decide)
    have got := @get_latest s _ Recents.key rs.toJson [] [(Preferences.key, p.toJson)]
      (List.forall_mem_cons.mpr ⟨rs.storable_toJson.sound,
        List.forall_mem_singleton.mpr inLimits.sound_toJson⟩) (accepts.putAll_eq _)
      (List.forall_mem_cons.mpr ⟨shallow rs, List.forall_mem_singleton.mpr shallow'⟩)
      (List.forall_mem_singleton.mpr keys_ne)
    rw [brief] at got
    exact proper.load_eq got

/-! ## When a file was opened -/

namespace Viewer

variable {σ : Type} [Store σ] {v : Viewer σ} {request : Request}

/-- A viewer changes its store by puts only. -/
theorem store_respond {P : σ → Prop} (put : ∀ s key value, P s → P (Store.put s key value).2)
    (h : P v.store) (request : Request) : P (v.respond request).2.store := by
  have effect := effect_respond v request
  generalize (v.respond request).2 = w at effect ⊢
  cases effect with
  | @shows _ file finds =>
    cases file with
    | text path content token => exact put _ _ _ h
    | image path image token => exact put _ _ _ (put _ _ _ h)
    | failed path message => exact h
  | prefers a => exact put _ _ _ h
  | clears => exact put _ _ _ h
  | leaves _ _ _ _ store => exact store ▸ h

theorem load_showFile (remembers : Remembers v.store) (proper : v.recents.Proper)
    (inLimits : v.preferences.InLimits) {file : OpenedFile}
    (opened : (v.showFile file).1 = .opened) :
    Recents.load (v.showFile file).2.store = (v.showFile file).2.recents := by
  cases file with
  | text path content token => exact remembers.recents _ (proper.push _)
  | image path image token =>
    exact remembers.preferences _ _ (proper.push _) (inLimits_forImage inLimits _ _)
  | failed path message => cases opened

theorem isOpening_of_opened {outcome : Except ViewerError Outcome}
    (h : (v.respond request).1 = .opening outcome) : request.IsOpening := by
  cases request with
  | openPicked | openPath | openRecent | openNeighbor => exact trivial
  | copyPath clipboard =>
    obtain ⟨result, told, -⟩ := respond_copyPath_cases v clipboard
    rw [told] at h
    cases h
  | _ => cases h

theorem load_respond (remembers : Remembers v.store) (proper : v.recents.Proper)
    (inLimits : v.preferences.InLimits)
    (opened : (v.respond request).1 = .opening (.ok .opened)) :
    Recents.load (v.respond request).2.store = (v.respond request).2.recents := by
  obtain ⟨answer, eq, ⟨file, -, rfl⟩ | ⟨-, -, told⟩⟩ :=
    respond_opening v (isOpening_of_opened opened)
  · rw [eq] at opened ⊢
    exact load_showFile remembers proper inLimits (by simpa using opened)
  · rw [eq] at opened
    rcases told with cancelled | ⟨label, refused⟩
    · rw [cancelled] at opened
      cases opened
    · rw [refused] at opened
      cases opened

end Viewer

end Glance
