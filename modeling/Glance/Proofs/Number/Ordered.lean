import Glance.Proofs.Number.Widening

/-!
# Rounding keeps order

Of two ratios the smaller one never rounds to the larger whole number (`roundEven_mono`), nor to the
larger pattern of a binary format (`Layout.nearest_mono`). So a bound on a ratio is a bound on its
pattern, and what stays below infinity can be read off a single number that does.
-/

namespace Glance.Number

variable {num den num' den' : ℕ}

/-! ## Whole numbers -/

/-- A rounded quotient is at most a half away, and even where it is a half away. -/
theorem roundEven_spec (num : ℕ) (pos : 0 < den) :
    (roundEven num den : ℚ) ≤ num / den + 1 / 2 ∧ (num : ℚ) / den ≤ roundEven num den + 1 / 2 ∧
      ((roundEven num den : ℚ) = num / den + 1 / 2 ∨ (num : ℚ) / den = roundEven num den + 1 / 2 →
        roundEven num den % 2 = 0) := by
  have den_pos : (0 : ℚ) < den := by exact_mod_cast pos
  have split : (num : ℚ) / den = (num / den : ℕ) + (num % den : ℕ) / den := by
    have eq : (num : ℚ) = den * (num / den : ℕ) + (num % den : ℕ) := by
      exact_mod_cast (Nat.div_add_mod num den).symm
    rw [div_eq_iff den_pos.ne', add_mul, div_mul_cancel₀ _ den_pos.ne', mul_comm _ (den : ℚ)]
    exact eq
  have part (c : ℚ) : (num % den : ℕ) / den < c ↔ ((num % den : ℕ) : ℚ) < c * den :=
    div_lt_iff₀ den_pos
  have nonneg : (0 : ℚ) ≤ (num % den : ℕ) / den := by positivity
  have below : ((num % den : ℕ) : ℚ) / den < 1 :=
    (div_lt_one den_pos).mpr (by exact_mod_cast Nat.mod_lt num pos)
  rw [split]
  unfold roundEven
  dsimp only
  generalize part_eq : ((num % den : ℕ) : ℚ) / den = t at nonneg below ⊢
  rw [div_eq_iff den_pos.ne'] at part_eq
  split_ifs with low high
  · have half : t < 1 / 2 := by
      have : (2 : ℚ) * (num % den : ℕ) < den := by exact_mod_cast low
      rw [part_eq] at this
      nlinarith
    exact ⟨by linarith, by linarith, by rintro (h | h) <;> linarith⟩
  · have half : 1 / 2 < t := by
      have : (den : ℚ) < 2 * (num % den : ℕ) := by exact_mod_cast high
      rw [part_eq] at this
      nlinarith
    push_cast
    exact ⟨by linarith, by linarith, by rintro (h | h) <;> linarith⟩
  · have half : t = 1 / 2 := by
      have : (2 : ℚ) * (num % den : ℕ) = den := by
        exact_mod_cast le_antisymm (not_lt.mp high) (not_lt.mp low)
      rw [part_eq] at this
      nlinarith
    rcases Nat.mod_two_eq_zero_or_one (num / den) with even | odd
    · rw [even, half, Nat.add_zero]
      exact ⟨by linarith, le_rfl, fun _ => even⟩
    · rw [odd, half]
      push_cast
      exact ⟨by linarith, by linarith, fun _ => by omega⟩

/-- Of two quotients the smaller rounds to the smaller number. -/
theorem roundEven_mono (pos : 0 < den) (pos' : 0 < den')
    (le : (num : ℚ) / den ≤ num' / den') : roundEven num den ≤ roundEven num' den' := by
  obtain ⟨low, -, even⟩ := roundEven_spec num pos
  obtain ⟨-, high, even'⟩ := roundEven_spec num' pos'
  by_contra gt
  have next : (roundEven num' den' : ℚ) + 1 ≤ roundEven num den := by
    exact_mod_cast not_le.mp gt
  -- Only a tie is left, and from a tie both numbers are the even one.
  have tie := even (.inl (by linarith))
  have tie' := even' (.inr (by linarith))
  have one : (roundEven num den : ℚ) = roundEven num' den' + 1 := by linarith
  have one' : roundEven num den = roundEven num' den' + 1 := by exact_mod_cast one
  omega

theorem roundEven_natCast (n : ℕ) : roundEven n 1 = n := by
  simpa using roundEven_mul_right n one_pos

theorem roundEven_le {n : ℕ} (pos : 0 < den) (le : (num : ℚ) / den ≤ n) : roundEven num den ≤ n := by
  have le' : (num : ℚ) / den ≤ n / (1 : ℕ) := by simpa using le
  have mono := roundEven_mono pos one_pos le'
  rwa [roundEven_natCast] at mono

theorem le_roundEven {n : ℕ} (pos : 0 < den) (le : (n : ℚ) ≤ num / den) : n ≤ roundEven num den := by
  have le' : (n : ℚ) / (1 : ℕ) ≤ num / den := by simpa using le
  have mono := roundEven_mono one_pos pos le'
  rwa [roundEven_natCast] at mono

/-! ## Patterns -/

namespace Layout

variable {f : Layout} {size size' : ℕ}

theorem log2Ratio_mono (num_pos : 0 < num) (den_pos : 0 < den) (num_pos' : 0 < num')
    (den_pos' : 0 < den') (le : (num : ℚ) / den ≤ num' / den') :
    log2Ratio num den ≤ log2Ratio num' den' := by
  have low := (log2Ratio_spec num_pos den_pos).1
  have high := (log2Ratio_spec num_pos' den_pos').2
  have lt := (zpow_lt_zpow_iff_right₀ (one_lt_two (α := ℚ))).mp (low.trans_lt (le.trans_lt high))
  omega

/-- The ratio in units of `b ^ e`. -/
theorem shifted_ratio {b : ℕ} (b_pos : 0 < b) (pos : 0 < den) (e : ℤ) :
    ((num * b ^ (-e).toNat : ℕ) : ℚ) / (den * b ^ e.toNat : ℕ) = num / den * b ^ (-e) := by
  have den_ne : (den : ℚ) ≠ 0 := by exact_mod_cast pos.ne'
  have b_pos' : (0 : ℚ) < b := by exact_mod_cast b_pos
  push_cast
  rw [pow_toNat b_pos'.ne' e, zpow_neg, div_eq_iff (by positivity)]
  field_simp

/-- The rounded significand of a ratio, with its place, before infinity is reached. -/
theorem nearest_eq (num_ne : num ≠ 0) : f.nearest num den =
    min ((f.target num den - f.bottom).toNat * 2 ^ f.fraction +
      roundEven (num * 2 ^ (-f.target num den).toNat) (den * 2 ^ (f.target num den).toNat))
      f.top := by
  unfold nearest
  rw [if_neg num_ne]
  rfl

theorem nearest_le_top (f : Layout) (num den : ℕ) : f.nearest num den ≤ f.top := by
  unfold nearest
  split_ifs
  · exact Nat.zero_le _
  · exact min_le_right _ _

/-- A ratio takes less than two significands' worth of units of its last place. -/
theorem shifted_lt (num_pos : 0 < num) (den_pos : 0 < den) :
    (num : ℚ) / den * 2 ^ (-f.target num den) < 2 ^ (f.fraction + 1) := by
  have high := (log2Ratio_spec num_pos den_pos).2
  have le : log2Ratio num den - f.fraction ≤ f.target num den := le_max_left _ _
  have two : (0 : ℚ) < 2 ^ (-f.target num den) := by positivity
  calc (num : ℚ) / den * 2 ^ (-f.target num den)
      < 2 ^ (log2Ratio num den + 1) * 2 ^ (-f.target num den) := mul_lt_mul_of_pos_right high two
    _ = 2 ^ (log2Ratio num den + 1 - f.target num den) := by
      rw [← zpow_add₀ two_ne_zero]
      rfl
    _ ≤ 2 ^ (f.fraction + 1 : ℤ) := zpow_le_zpow_right₀ one_le_two (by omega)
    _ = 2 ^ (f.fraction + 1) := by
      rw [← zpow_natCast]
      rfl

/-- Above the bottom a ratio takes a full significand. -/
theorem le_shifted (num_pos : 0 < num) (den_pos : 0 < den) (above : f.bottom < f.target num den) :
    (2 : ℚ) ^ f.fraction ≤ num / den * 2 ^ (-f.target num den) := by
  have low := (log2Ratio_spec num_pos den_pos).1
  have eq : f.target num den = log2Ratio num den - f.fraction := by
    unfold target at above ⊢
    omega
  have two : (0 : ℚ) < 2 ^ (-f.target num den) := by positivity
  calc (2 : ℚ) ^ f.fraction = 2 ^ (log2Ratio num den) * 2 ^ (-f.target num den) := by
        rw [← zpow_add₀ two_ne_zero, eq, ← zpow_natCast]
        congr 1
        omega
    _ ≤ num / den * 2 ^ (-f.target num den) := mul_le_mul_of_nonneg_right low two.le

/-- Of two ratios the smaller rounds to the smaller pattern. -/
theorem nearest_mono (den_pos : 0 < den) (den_pos' : 0 < den')
    (le : (num : ℚ) / den ≤ num' / den') : f.nearest num den ≤ f.nearest num' den' := by
  rcases Nat.eq_zero_or_pos num with rfl | num_pos
  · exact Nat.zero_le _
  have num_pos' : 0 < num' := by
    have pos : (0 : ℚ) < num / den := by positivity
    have pos' := pos.trans_le le
    rw [div_pos_iff_of_pos_right (by exact_mod_cast den_pos')] at pos'
    exact_mod_cast pos'
  have log := log2Ratio_mono num_pos den_pos num_pos' den_pos' le
  have place : f.target num den ≤ f.target num' den' := max_le_max_right _ (by omega)
  have bottom : f.bottom ≤ f.target num den := le_max_right _ _
  have two (e : ℤ) : 0 < 2 ^ e.toNat := by positivity
  rw [nearest_eq num_pos.ne', nearest_eq num_pos'.ne']
  refine min_le_min_right _ ?_
  rcases place.eq_or_lt with same | lower
  · -- In the same place the significands are ordered.
    rw [← same]
    refine Nat.add_le_add_left (roundEven_mono (Nat.mul_pos den_pos (two _))
      (Nat.mul_pos den_pos' (two _)) ?_) _
    rw [shifted_ratio two_pos den_pos, shifted_ratio two_pos den_pos']
    exact mul_le_mul_of_nonneg_right le (by positivity)
  · -- In a higher place the leading bit alone makes up for the whole significand below.
    have most : roundEven (num * 2 ^ (-f.target num den).toNat)
        (den * 2 ^ (f.target num den).toNat) ≤ 2 ^ (f.fraction + 1) := by
      refine roundEven_le (Nat.mul_pos den_pos (two _)) ?_
      rw [shifted_ratio two_pos den_pos]
      exact_mod_cast (shifted_lt num_pos den_pos).le
    have least : 2 ^ f.fraction ≤ roundEven (num' * 2 ^ (-f.target num' den').toNat)
        (den' * 2 ^ (f.target num' den').toNat) := by
      refine le_roundEven (Nat.mul_pos den_pos' (two _)) ?_
      rw [shifted_ratio two_pos den_pos']
      exact_mod_cast le_shifted num_pos' den_pos' (bottom.trans_lt lower)
    have next : (f.target num den - f.bottom).toNat + 1 ≤ (f.target num' den' - f.bottom).toNat := by
      omega
    have carried := Nat.mul_le_mul_right (2 ^ f.fraction) next
    rw [pow_succ] at most
    linarith

/-! ## Values -/

/-- What a finite pattern without its sign stands for. -/
def value (f : Layout) (size : ℕ) : ℚ :=
  f.significand size * 2 ^ (f.bottom + f.place size)

theorem value_nonneg (f : Layout) (size : ℕ) : 0 ≤ f.value size := by
  unfold value
  positivity

/-- A finite value rounds to its own pattern. -/
theorem nearest_value (finite : size < f.top) (den_pos : 0 < den)
    (value : (num : ℚ) / den = f.value size) : f.nearest num den = size := by
  have pattern := f.pattern_significand size
  rw [(f.canonical_significand size).nearest_eq (by omega) den_pos value, pattern]

theorem exists_ratio (f : Layout) (size : ℕ) :
    ∃ num den : ℕ, 0 < den ∧ (num : ℚ) / den = f.value size := by
  obtain ⟨num, den, -, den_pos, value⟩ :=
    exists_scaled false (f.significand size) (f.bottom + f.place size)
  exact ⟨num, den, den_pos, value⟩

/-- Finite patterns are ordered as their values are. -/
theorem value_mono (le : size ≤ size') (finite : size' < f.top) : f.value size ≤ f.value size' := by
  obtain ⟨num, den, den_pos, value⟩ := f.exists_ratio size
  obtain ⟨num', den', den_pos', value'⟩ := f.exists_ratio size'
  by_contra lt
  have back := nearest_mono (f := f) den_pos' den_pos (by rw [value, value']; exact (not_le.mp lt).le)
  rw [nearest_value finite den_pos' value', nearest_value (le.trans_lt finite) den_pos value] at back
  rw [le_antisymm le back] at lt
  exact lt le_rfl

/-- What does not exceed a finite value rounds to a finite pattern. -/
theorem nearest_le_of_le_value (finite : size < f.top) (den_pos : 0 < den)
    (le : (num : ℚ) / den ≤ f.value size) : f.nearest num den ≤ size := by
  obtain ⟨num', den', den_pos', value'⟩ := f.exists_ratio size
  rw [← nearest_value finite den_pos' value']
  exact nearest_mono den_pos den_pos' (by rwa [value'])

end Layout

end Glance.Number
