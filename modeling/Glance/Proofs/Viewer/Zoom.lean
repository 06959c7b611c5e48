import Glance.Proofs.Preferences
import Glance.Proofs.Viewer.Request

/-!
# Zooms are usable

Every zoom that a viewer keeps or draws with has been through `limitZoom`, which gives a number
between its limits whatever it is given. So it does not matter what a store gives at the start, by
which factor a zoom is multiplied, how large the area for images is said to be, or what comes out of
the multiplications and divisions on the way: after every run the zooms are numbers between their
limits (`zooms_usable`).
-/

namespace Glance

open Number (Single)

namespace Viewer

variable {σ : Type} {v : Viewer σ}

/-! ## What requests make of preferences -/

theorem inLimits_apply {p : Preferences} (h : p.InLimits) (a : Adjustment) :
    (a.apply p).InLimits := by
  have unfit : Preferences.InLimits { p with fit := false } := h.congr rfl rfl
  cases a with
  | zoomText factor => exact h.setTextZoom _
  | zoomImageIn | zoomImageOut | resetImageZoom => exact unfit.setImageZoom _
  | _ => exact h.congr rfl rfl

/-- An image is first shown in its own size, which is within the limits. -/
theorem inLimits_forImage {p : Preferences} (h : p.InLimits) (area : Option Viewport)
    (size : PixelSize) : (forImage p area size).InLimits where
  minText_le := h.minText_le
  le_maxText := h.le_maxText
  minImage_le := Preferences.inLimits_initial.minImage_le
  le_maxImage := Preferences.inLimits_initial.le_maxImage

theorem inLimits_respond [Store σ] (h : v.preferences.InLimits) (request : Request) :
    (v.respond request).2.preferences.InLimits := by
  have effect := effect_respond v request
  generalize (v.respond request).2 = w at effect ⊢
  cases effect with
  | @shows _ file finds =>
    cases file with
    | image path image token => exact inLimits_forImage h v.viewport image.size
    | _ => exact h
  | prefers a => exact inLimits_apply h a
  | clears => exact h
  | leaves _ _ preferences _ _ => exact preferences ▸ h

theorem inLimits_run [Store σ] (store : σ) (config : Config) (requests : List Request) :
    ((start store config).run requests).preferences.InLimits :=
  run_induction (P := fun v => v.preferences.InLimits)
    (fun _ request h => inLimits_respond h request) (v := start store config)
    (Preferences.inLimits_load store) requests

/-! ## What is drawn -/

/-- The scale of a fitted image is limited as every image zoom is. -/
theorem fitScale_eq (area : Viewport) (size : PixelSize) :
    area.fitScale size = Preferences.limitZoom
      ((PixelSize.sideScale area.width size.width).min (PixelSize.sideScale area.height size.height))
      Preferences.minImageZoom Preferences.maxImageZoom := rfl

/-- An open image is drawn at the scale that fits it or at the zoom of the preferences. -/
theorem imageZoom_cases {path : String} {image : ImageSource}
    (shown : v.content = some (.image path image)) :
    (∃ area : Viewport, v.imageZoom = some (area.fitScale image.size)) ∨
      v.imageZoom = some v.preferences.imageZoom := by
  unfold imageZoom
  rw [shown]
  dsimp only
  split
  · exact .inl ⟨_, rfl⟩
  · exact .inr rfl

/-! ## Usable zooms -/

/-- A zoom is a number between its limits. -/
structure UsableZoom (low high zoom : Single) : Prop where
  isNaN_eq : zoom.isNaN = false
  low_le : low ≤ zoom
  le_high : zoom ≤ high

theorem usableZoom_of_mem {low high zoom : Single} (mem : low ≤ zoom ∧ zoom ≤ high) :
    UsableZoom low high zoom :=
  ⟨mem.1.2.1, mem.1, mem.2⟩

/-- The zooms that are kept, and the one that an open image is drawn at. -/
structure ZoomsUsable (v : Viewer σ) : Prop where
  text : UsableZoom Preferences.minTextZoom Preferences.maxTextZoom v.preferences.textZoom
  image : UsableZoom Preferences.minImageZoom Preferences.maxImageZoom v.preferences.imageZoom
  drawn : ∀ path image, v.content = some (.image path image) → ∃ zoom, v.imageZoom = some zoom ∧
    UsableZoom Preferences.minImageZoom Preferences.maxImageZoom zoom

theorem zoomsUsable_of_inLimits (h : v.preferences.InLimits) : ZoomsUsable v := by
  have image := usableZoom_of_mem ⟨h.minImage_le, h.le_maxImage⟩
  refine ⟨usableZoom_of_mem ⟨h.minText_le, h.le_maxText⟩, image, fun path source shown => ?_⟩
  rcases imageZoom_cases shown with ⟨area, fitted⟩ | kept
  · refine ⟨_, fitted, ?_⟩
    rw [fitScale_eq]
    exact usableZoom_of_mem (Preferences.limitZoom_mem Preferences.minImage_le_maxImage _)
  · exact ⟨_, kept, image⟩

/-- Whatever a store gives when a viewer starts on it, and whatever is asked of the viewer, its
zooms are numbers between their limits. -/
theorem zooms_usable [Store σ] (store : σ) (config : Config) (requests : List Request) :
    ZoomsUsable ((start store config).run requests) :=
  zoomsUsable_of_inLimits (inLimits_run store config requests)

/-- The limits are the 32-bit numbers next to 0.6 and 3, 0.1 and 6. -/
example : (Preferences.minTextZoom.bits, Preferences.maxTextZoom.bits,
    Preferences.minImageZoom.bits, Preferences.maxImageZoom.bits) =
      (0x3F19999A, 0x40400000, 0x3DCCCCCD, 0x40C00000) := by decide +kernel

end Viewer

end Glance
