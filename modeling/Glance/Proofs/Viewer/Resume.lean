import Glance.Proofs.Recents
import Glance.Proofs.Viewer.Zoom

/-!
# A run can be resumed from its store

A viewer is `Kept` when its preferences are within limits, its recent files are a proper list, and
both are what its store would load. A viewer that starts on a store in memory is kept, whatever the
store holds, and every request keeps it so: each change of preferences or recent files is saved at
once, under a key of its own, in a form that is read back as it is.
-/

namespace Glance

theorem MemoryStore.get_put (s : MemoryStore) (key other : String) (value : Json) :
    Store.get (Store.put s key value).2 other =
      if key = other then .ok (some value) else Store.get s other := by
  show Except.ok (Json.Members.get? other (Json.Members.insert key value s.members)) = _
  rw [Json.Members.get?_insert]
  split_ifs <;> rfl

/-! ## Saving and loading -/

theorem keys_ne : Preferences.key ≠ Recents.key := by decide

namespace Preferences

theorem InLimits.load_save {p : Preferences} (h : p.InLimits) (s : MemoryStore) :
    load (p.save s) = p := by
  apply h.load_eq
  unfold save
  rw [MemoryStore.get_put, if_pos rfl]

/-- Saving recent files leaves the stored preferences alone. -/
theorem load_save_recents (rs : Recents) (s : MemoryStore) : load (rs.save s) = load s := by
  unfold load Recents.save
  rw [MemoryStore.get_put, if_neg keys_ne.symm]

end Preferences

namespace Recents

theorem Proper.load_save {rs : Recents} (h : rs.Proper) (s : MemoryStore) :
    load (rs.save s) = rs := by
  apply h.load_eq
  unfold save
  rw [MemoryStore.get_put, if_pos rfl]

/-- Saving preferences leaves the stored recent files alone. -/
theorem load_save_preferences (p : Preferences) (s : MemoryStore) : load (p.save s) = load s := by
  unfold load Preferences.save
  rw [MemoryStore.get_put, if_neg keys_ne]

end Recents

namespace Viewer

variable {v : Viewer MemoryStore}

/-! ## The invariant -/

/-- The store would give the viewer back what it has. -/
structure Kept (v : Viewer MemoryStore) : Prop where
  inLimits : v.preferences.InLimits
  proper : v.recents.Proper
  preferences_eq : Preferences.load v.store = v.preferences
  recents_eq : Recents.load v.store = v.recents

theorem kept_start (store : MemoryStore) (config : Config) : Kept (start store config) where
  inLimits := Preferences.inLimits_load store
  proper := Recents.proper_load store
  preferences_eq := rfl
  recents_eq := rfl

/-- Only preferences, recent files and the store count. -/
theorem Kept.congr {w : Viewer MemoryStore} (h : Kept v)
    (preferences : w.preferences = v.preferences) (recents : w.recents = v.recents)
    (store : w.store = v.store) : Kept w where
  inLimits := by rw [preferences]; exact h.inLimits
  proper := by rw [recents]; exact h.proper
  preferences_eq := by rw [store, preferences]; exact h.preferences_eq
  recents_eq := by rw [store, recents]; exact h.recents_eq

/-- Preferences that are changed and saved at once. -/
theorem Kept.keepPreferences (h : Kept v) {p : Preferences} (inLimits : p.InLimits) :
    Kept { v with preferences := p, store := p.save v.store } where
  inLimits := inLimits
  proper := h.proper
  preferences_eq := inLimits.load_save v.store
  recents_eq := (Recents.load_save_preferences p v.store).trans h.recents_eq

/-- Recent files that are changed and saved at once. -/
theorem Kept.keepRecents (h : Kept v) {rs : Recents} (proper : rs.Proper) :
    Kept { v with recents := rs, store := rs.save v.store } where
  inLimits := h.inLimits
  proper := proper
  preferences_eq := (Preferences.load_save_recents rs v.store).trans h.preferences_eq
  recents_eq := proper.load_save v.store

/-! ## Requests keep it -/

theorem Kept.remember (h : Kept v) (r : Recent) : Kept (v.remember r) :=
  h.keepRecents (h.proper.push r)

theorem Kept.showFile (h : Kept v) (file : OpenedFile) : Kept (v.showFile file).2 := by
  cases file with
  | text path content token => exact (h.remember (recentOf path token)).congr rfl rfl rfl
  | image path image token =>
    have remembered := h.remember (recentOf path token)
    have inLimits := inLimits_forImage remembered.inLimits v.viewport image.size
    exact (remembered.keepPreferences inLimits).congr rfl rfl rfl
  | failed path message => exact h.congr rfl rfl rfl

theorem Kept.respond (h : Kept v) (request : Request) : Kept (v.respond request).2 := by
  have effect := effect_respond v request
  generalize (v.respond request).2 = w at effect ⊢
  cases effect with
  | @shows _ file finds => exact h.showFile file
  | prefers a => exact (h.keepPreferences (inLimits_apply h.inLimits a)).congr rfl rfl rfl
  | clears => exact h.keepRecents Recents.proper_empty
  | leaves _ _ preferences recents store => exact h.congr preferences recents store

/-! ## Runs -/

/-- Whatever a store in memory holds when a viewer starts on it, and whatever is asked of the
viewer, a viewer that starts on the store it has then gets its preferences and its recent files. -/
theorem start_resumes_run (store : MemoryStore) (config other : Config) (requests : List Request) :
    let v := (start store config).run requests
    Preferences.load v.store = v.preferences ∧ Recents.load v.store = v.recents ∧
      (start v.store other).preferences = v.preferences ∧
      (start v.store other).recents = v.recents := by
  intro v
  have kept : Kept v :=
    run_induction (fun _ request h => h.respond request) (kept_start store config) requests
  exact ⟨kept.preferences_eq, kept.recents_eq, kept.preferences_eq, kept.recents_eq⟩

end Viewer

end Glance
