import Glance.Proofs.Number.Ordered

/-!
# The nearest pattern

A ratio that is less than half a unit away from the value of a pattern rounds to that pattern. Above
a value the unit is that of its own last place, below it that of the pattern before, which can be
half as large. Either is large enough for a ratio that agrees with the value in all its bits and one
more (`Layout.nearest_of_near`).
-/

namespace Glance.Number

variable {num den n size : ℕ} {f : Layout}

theorem roundEven_of_near (pos : 0 < den) (low : (n : ℚ) - 1 / 2 < num / den)
    (high : (num : ℚ) / den < n + 1 / 2) : roundEven num den = n := by
  obtain ⟨above, below, -⟩ := roundEven_spec num pos
  have lt : (roundEven num den : ℚ) < n + 1 := by linarith
  have gt : (n : ℚ) < roundEven num den + 1 := by linarith
  exact le_antisymm (Nat.lt_succ_iff.mp (by exact_mod_cast lt))
    (Nat.lt_succ_iff.mp (by exact_mod_cast gt))

namespace Layout

/-- The unit of the last place of a pattern. -/
def unit (f : Layout) (size : ℕ) : ℚ :=
  2 ^ (f.bottom + f.place size)

theorem unit_pos (f : Layout) (size : ℕ) : 0 < f.unit size := by
  unfold unit
  positivity

theorem value_add_unit_le (f : Layout) (size : ℕ) :
    f.value size + f.unit size ≤ 2 ^ (f.fraction + 1) * f.unit size := by
  have lt := (f.canonical_significand size).lt
  have le : (f.significand size : ℚ) + 1 ≤ 2 ^ (f.fraction + 1) := by
    rw [pow_succ']
    exact_mod_cast lt
  calc f.value size + f.unit size = (f.significand size + 1) * f.unit size := by
        unfold value unit
        ring
    _ ≤ 2 ^ (f.fraction + 1) * f.unit size := mul_le_mul_of_nonneg_right le (f.unit_pos size).le

/-- The next pattern is one unit away. -/
theorem value_succ (f : Layout) (size : ℕ) : f.value (size + 1) = f.value size + f.unit size := by
  have canonical := f.canonical_significand size
  have pattern := f.pattern_significand size
  unfold value unit
  rcases Nat.eq_or_lt_of_le canonical.lt with last | inside
  · -- A full significand carries into the next place.
    have next : f.Canonical (2 ^ f.fraction) (f.place size + 1) := ⟨by omega, .inl le_rfl⟩
    have eq : size + 1 = (f.place size + 1) * 2 ^ f.fraction + 2 ^ f.fraction := by
      rw [add_mul]
      omega
    rw [eq, next.significand_pattern, next.place_pattern]
    have succ : (f.significand size : ℚ) + 1 = 2 * 2 ^ f.fraction := by exact_mod_cast last
    rw [← add_one_mul, succ]
    push_cast
    rw [← add_assoc, zpow_add_one₀ two_ne_zero]
    ring
  · have next : f.Canonical (f.significand size + 1) (f.place size) :=
      ⟨inside, canonical.full.imp_left Nat.le_succ_of_le⟩
    have eq : size + 1 = f.place size * 2 ^ f.fraction + (f.significand size + 1) := by omega
    rw [eq, next.significand_pattern, next.place_pattern]
    push_cast
    ring

/-- A ratio from one pattern to the next is rounded to the last place of the first. -/
theorem target_of_between (num_pos : 0 < num) (den_pos : 0 < den) (low : f.value size ≤ num / den)
    (high : (num : ℚ) / den < f.value size + f.unit size) :
    f.target num den = f.bottom + f.place size := by
  have below := high.trans_le (f.value_add_unit_le size)
  unfold unit at below
  rw [← zpow_natCast, ← zpow_add₀ two_ne_zero] at below
  obtain ⟨log_low, log_high⟩ := log2Ratio_spec num_pos den_pos
  have one : (1 : ℚ) < 2 := one_lt_two
  have le := (zpow_lt_zpow_iff_right₀ one).mp (log_low.trans_lt below)
  push_cast at le
  unfold target
  rcases (f.canonical_significand size).full with full | bottom
  · have full' : (2 : ℚ) ^ (f.fraction + (f.bottom + f.place size) : ℤ) ≤ num / den := by
      rw [zpow_add₀ two_ne_zero, zpow_natCast]
      exact (mul_le_mul_of_nonneg_right (by exact_mod_cast full) (by positivity)).trans low
    have ge := (zpow_lt_zpow_iff_right₀ one).mp (full'.trans_lt log_high)
    omega
  · rw [bottom] at le ⊢
    omega

/-- Such a ratio has the significand of the first pattern, and the rounded rest. -/
theorem nearest_of_between (num_pos : 0 < num) (den_pos : 0 < den) (low : f.value size ≤ num / den)
    (high : (num : ℚ) / den < f.value size + f.unit size) :
    ∃ num' den' : ℕ, 0 < den' ∧ (num' : ℚ) / den' = num / den / f.unit size ∧
      f.nearest num den = min (f.place size * 2 ^ f.fraction + roundEven num' den') f.top := by
  have target := target_of_between num_pos den_pos low high
  refine ⟨_, _, Nat.mul_pos den_pos (Nat.pow_pos two_pos),
    (@shifted_ratio num den 2 two_pos den_pos (f.bottom + f.place size)).trans ?_, ?_⟩
  · unfold unit
    rw [zpow_neg]
    rfl
  · rw [nearest_eq num_pos.ne', target, add_sub_cancel_left, Int.toNat_natCast]

theorem nearest_of_lt_half (finite : size < f.top) (den_pos : 0 < den)
    (low : f.value size ≤ num / den) (high : (num : ℚ) / den < f.value size + f.unit size / 2) :
    f.nearest num den = size := by
  rcases Nat.eq_zero_or_pos num with rfl | num_pos
  · rw [Nat.cast_zero, zero_div] at low
    have none := le_antisymm low (f.value_nonneg size)
    exact nearest_value finite den_pos (by rw [none, Nat.cast_zero, zero_div])
  have unit_pos := f.unit_pos size
  obtain ⟨num', den', pos, shifted, eq⟩ :=
    nearest_of_between num_pos den_pos low (high.trans (by linarith))
  have rounded : roundEven num' den' = f.significand size := by
    refine roundEven_of_near pos ?_ ?_ <;> rw [shifted]
    · rw [lt_div_iff₀ unit_pos]
      have : f.value size = f.significand size * f.unit size := rfl
      linarith
    · rw [div_lt_iff₀ unit_pos]
      have : f.value size = f.significand size * f.unit size := rfl
      linarith
  rw [eq, rounded, f.pattern_significand size]
  exact min_eq_left finite.le

theorem nearest_of_half_lt (finite : size + 1 < f.top) (den_pos : 0 < den)
    (low : f.value size + f.unit size / 2 < num / den) (high : (num : ℚ) / den ≤ f.value (size + 1)) :
    f.nearest num den = size + 1 := by
  rcases high.eq_or_lt with exact | high
  · exact nearest_value finite den_pos exact
  have unit_pos := f.unit_pos size
  have nonneg := f.value_nonneg size
  have num_pos : 0 < num := by
    have pos : (0 : ℚ) < num / den := by linarith
    rw [div_pos_iff_of_pos_right (by exact_mod_cast den_pos)] at pos
    exact_mod_cast pos
  rw [value_succ] at high
  obtain ⟨num', den', pos, shifted, eq⟩ := nearest_of_between num_pos den_pos (by linarith) high
  have rounded : roundEven num' den' = f.significand size + 1 := by
    have value : f.value size = f.significand size * f.unit size := rfl
    refine roundEven_of_near pos ?_ ?_ <;> rw [shifted] <;> push_cast
    · rw [lt_div_iff₀ unit_pos]
      linarith
    · rw [div_lt_iff₀ unit_pos]
      linarith
  have pattern := f.pattern_significand size
  rw [eq, rounded, ← Nat.add_assoc, pattern]
  exact min_eq_left finite.le

/-- A ratio that agrees with a value in one bit more than there is place for rounds to its pattern.
-/
theorem nearest_of_near (finite : size < f.top) (den_pos : 0 < den)
    (near : |(num : ℚ) / den - f.value size| * 2 ^ (f.fraction + 2) < f.value size) :
    f.nearest num den = size := by
  have two : (0 : ℚ) < 2 ^ (f.fraction + 1) := by positivity
  rw [pow_succ _ (f.fraction + 1), ← mul_assoc] at near
  rcases le_total (f.value size) (num / den) with above | below
  · refine nearest_of_lt_half finite den_pos above ?_
    rw [abs_of_nonneg (by linarith)] at near
    have most := f.value_add_unit_le size
    have unit_pos := f.unit_pos size
    have lt : ((num : ℚ) / den - f.value size) * 2 * 2 ^ (f.fraction + 1) <
        f.unit size * 2 ^ (f.fraction + 1) := by linarith
    have := lt_of_mul_lt_mul_right lt two.le
    linarith
  · cases size with
    | zero =>
      have zero : f.value 0 = 0 := by simp [value, significand]
      have nonneg : 0 ≤ |(num : ℚ) / den - f.value 0| * 2 ^ (f.fraction + 1) * 2 := by positivity
      linarith
    | succ before =>
      refine nearest_of_half_lt finite den_pos ?_ below
      rw [abs_of_nonpos (by linarith)] at near
      have most := f.value_add_unit_le before
      rw [value_succ] at near
      have lt : -((num : ℚ) / den - (f.value before + f.unit before)) * 2 * 2 ^ (f.fraction + 1) <
          f.unit before * 2 ^ (f.fraction + 1) := by linarith
      have := lt_of_mul_lt_mul_right lt two.le
      linarith

end Layout

end Glance.Number
