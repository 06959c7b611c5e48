import Glance.Preferences
import Glance.Proofs.Number.Widening

/-!
# Preferences within their limits

Whatever a zoom is set to, it ends up between its limits, and what lies between them is a positive
finite number. Preferences whose zooms do are read back from a store exactly as they were stored
(`load_save`): no field is lost, no zoom is sanitized away, and widening a zoom to 64 bits loses
nothing.
-/

namespace Glance

open Number (Single)

/-! ## The order of numbers -/

namespace Number.Single

theorem key_neg_of_sign {x : Single} (h : Layout.single.sign ≤ x.bits.toNat) : x.key ≤ 0 := by
  unfold key
  rw [if_pos h]
  omega

/-- A positive number below a finite one is finite. -/
theorem isFinite_of_lt_of_le {low x high : Single} (pos : 0 ≤ low.key) (lt : low < x)
    (le : x ≤ high) (finite : high.isFinite) : x.isFinite := by
  have key_lt : low.key < x.key := lt.2.2
  have key_le : x.key ≤ high.key := le.2.2
  have high_le : high.key ≤ high.size := by
    unfold key
    split_ifs <;> omega
  have size_lt : high.size < Layout.single.top := of_decide_eq_true finite
  have key_eq : x.key = x.size := by
    unfold key
    rw [if_neg]
    intro sign
    have := key_neg_of_sign sign
    omega
  unfold isFinite
  rw [decide_eq_true_eq]
  omega

end Number.Single

namespace Preferences

/-! ## Limits -/

theorem limitZoom_mem {low high : Single} (le : low ≤ high) (level : Single) :
    low ≤ limitZoom level low high ∧ limitZoom level low high ≤ high := by
  obtain ⟨low_num, high_num, key_le⟩ := le
  unfold limitZoom Single.clamp
  split_ifs with nan below above
  · exact ⟨⟨low_num, low_num, le_rfl⟩, ⟨low_num, high_num, key_le⟩⟩
  · exact ⟨⟨low_num, low_num, le_rfl⟩, ⟨low_num, high_num, key_le⟩⟩
  · exact ⟨⟨low_num, high_num, key_le⟩, ⟨high_num, high_num, le_rfl⟩⟩
  · have num : level.isNaN = false := Bool.eq_false_iff.mpr nan
    refine ⟨⟨low_num, num, ?_⟩, ⟨num, high_num, ?_⟩⟩
    · exact not_lt.mp fun lt => below ⟨num, low_num, lt⟩
    · exact not_lt.mp fun lt => above ⟨high_num, num, lt⟩

theorem limitZoom_eq_self {level low high : Single} (ge : low ≤ level) (le : level ≤ high) :
    limitZoom level low high = level := by
  have num : level.isNaN = false := le.1
  unfold limitZoom Single.clamp
  rw [if_neg (by simp [num]), if_neg fun lt => lt.2.2.not_ge ge.2.2,
    if_neg fun lt => lt.2.2.not_ge le.2.2]

/-- Both zooms lie between their limits. -/
structure InLimits (p : Preferences) : Prop where
  minText_le : minTextZoom ≤ p.textZoom
  le_maxText : p.textZoom ≤ maxTextZoom
  minImage_le : minImageZoom ≤ p.imageZoom
  le_maxImage : p.imageZoom ≤ maxImageZoom

theorem minText_le_maxText : minTextZoom ≤ maxTextZoom := by decide +kernel

theorem minImage_le_maxImage : minImageZoom ≤ maxImageZoom := by decide +kernel

theorem inLimits_initial : initial.InLimits where
  minText_le := by decide +kernel
  le_maxText := by decide +kernel
  minImage_le := by decide +kernel
  le_maxImage := by decide +kernel

theorem InLimits.setTextZoom {p : Preferences} (h : p.InLimits) (level : Single) :
    (p.setTextZoom level).InLimits :=
  have limited := limitZoom_mem minText_le_maxText level
  ⟨limited.1, limited.2, h.minImage_le, h.le_maxImage⟩

theorem InLimits.setImageZoom {p : Preferences} (h : p.InLimits) (level : Single) :
    (p.setImageZoom level).InLimits :=
  have limited := limitZoom_mem minImage_le_maxImage level
  ⟨h.minText_le, h.le_maxText, limited.1, limited.2⟩

/-- Only the zooms count. -/
theorem InLimits.congr {p q : Preferences} (h : p.InLimits) (text : q.textZoom = p.textZoom)
    (image : q.imageZoom = p.imageZoom) : q.InLimits where
  minText_le := by rw [text]; exact h.minText_le
  le_maxText := by rw [text]; exact h.le_maxText
  minImage_le := by rw [image]; exact h.minImage_le
  le_maxImage := by rw [image]; exact h.le_maxImage

theorem inLimits_sanitize (p : Preferences) : p.sanitize.InLimits := by
  have text := limitZoom_mem minText_le_maxText (usableZoom p.textZoom)
  have image := limitZoom_mem minImage_le_maxImage (usableZoom p.imageZoom)
  exact ⟨text.1, text.2, image.1, image.2⟩

/-! ## Zooms within limits are usable -/

theorem zero_lt_minText : Single.ofNat 0 < minTextZoom := by decide +kernel

theorem zero_lt_minImage : Single.ofNat 0 < minImageZoom := by decide +kernel

/-- Between a positive and a finite limit there is nothing to sanitize. -/
theorem usable_of_between {low level high : Single} (pos : .ofNat 0 < low) (ge : low ≤ level)
    (le : level ≤ high) (finite : high.isFinite) :
    level.isFinite ∧ usableZoom level = level := by
  have lt : Single.ofNat 0 < level := ⟨pos.1, ge.2.1, pos.2.2.trans_le ge.2.2⟩
  have zero : (0 : Int) ≤ (Single.ofNat 0).key := by decide +kernel
  have level_finite := Single.isFinite_of_lt_of_le zero lt le finite
  refine ⟨level_finite, ?_⟩
  unfold usableZoom
  rw [if_pos ⟨level_finite, lt⟩]

theorem InLimits.textZoom_usable {p : Preferences} (h : p.InLimits) :
    p.textZoom.isFinite ∧ usableZoom p.textZoom = p.textZoom :=
  usable_of_between zero_lt_minText h.minText_le h.le_maxText (by decide +kernel)

theorem InLimits.imageZoom_usable {p : Preferences} (h : p.InLimits) :
    p.imageZoom.isFinite ∧ usableZoom p.imageZoom = p.imageZoom :=
  usable_of_between zero_lt_minImage h.minImage_le h.le_maxImage (by decide +kernel)

theorem InLimits.sanitize_eq {p : Preferences} (h : p.InLimits) : p.sanitize = p := by
  unfold sanitize Preferences.setTextZoom Preferences.setImageZoom
  rw [h.textZoom_usable.2, h.imageZoom_usable.2, limitZoom_eq_self h.minText_le h.le_maxText,
    limitZoom_eq_self h.minImage_le h.le_maxImage]

/-! ## Storing -/

theorem lenientTheme_shortName (theme : Theme) : lenientTheme (.str theme.shortName) = theme := by
  cases theme <;> decide +kernel

/-- The stored form names every field, in the order in which they are read. -/
theorem fields_toJson (p : Preferences) :
    p.toJson.fields? fieldNames =
      some [some (.bool p.dark), some (.bool p.fit), some (.bool p.wrap),
        some (.bool p.lineNumbers), some (.float p.textZoom.widen),
        some (.float p.imageZoom.widen), some (.str p.theme.shortName)] := by
  simp [toJson, Json.object, Json.Members.ofList, Json.fields?, fieldNames,
    Json.Members.get?_insert]

theorem InLimits.ofJson?_toJson {p : Preferences} (h : p.InLimits) :
    ofJson? p.toJson = some p := by
  unfold ofJson?
  rw [fields_toJson]
  simp only [field, Json.asBool?, Json.asSingle?, lenientTheme_shortName,
    Single.ofDouble_widen h.textZoom_usable.1, Single.ofDouble_widen h.imageZoom_usable.1]
  rfl

/-- Preferences from any store are within their limits. -/
theorem inLimits_load {σ : Type} [Store σ] (store : σ) : (load store).InLimits := by
  unfold load
  split
  · rename_i value _
    cases ofJson? value with
    | none => exact inLimits_initial
    | some p => exact inLimits_sanitize p
  · exact inLimits_initial

/-- What a store gives under the key decides what is loaded. -/
theorem InLimits.load_eq {σ : Type} [Store σ] {store : σ} {p : Preferences} (h : p.InLimits)
    (get : Store.get store key = .ok (some p.toJson)) : load store = p := by
  unfold load
  rw [get]
  simp only [h.ofJson?_toJson, Option.map_some, Option.getD_some]
  exact h.sanitize_eq

end Preferences

end Glance
