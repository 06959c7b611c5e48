import Glance.Number.Binary
import Mathlib

/-!
# Widening a number and narrowing it again

Every finite 32-bit number is a 64-bit number, so `ofDouble_widen` gets it back bit by bit. A finite
pattern without its sign is `p · 2 ^ fraction + m` for its place `p` and its significand `m`, and
`Canonical` says which pairs occur. Rounding depends on the value alone, and a value with canonical
place and significand rounds to its own pattern (`nearest_eq`).
-/

namespace Glance.Number

namespace Layout

variable {f : Layout} {m p num den : ℕ}

/-- Place `p` and significand `m` of a pattern: the leading bit is set except at the bottom. -/
structure Canonical (f : Layout) (m p : ℕ) : Prop where
  lt : m < 2 * 2 ^ f.fraction
  full : 2 ^ f.fraction ≤ m ∨ p = 0

/-! ## Patterns -/

theorem canonical_significand (f : Layout) (size : ℕ) :
    f.Canonical (f.significand size) (f.place size) := by
  have pos : 0 < 2 ^ f.fraction := by positivity
  have mod := Nat.mod_lt size pos
  unfold significand place
  simp only [Nat.pow_eq]
  split_ifs with low
  · exact ⟨by omega, .inr (by rw [Nat.div_eq_of_lt low])⟩
  · exact ⟨by omega, .inl (by omega)⟩

theorem pattern_significand (f : Layout) (size : ℕ) :
    f.place size * 2 ^ f.fraction + f.significand size = size := by
  have pos : 0 < 2 ^ f.fraction := by positivity
  have split := Nat.div_add_mod size (2 ^ f.fraction)
  unfold significand place
  simp only [Nat.pow_eq]
  split_ifs with low
  · rw [Nat.div_eq_of_lt low, Nat.zero_sub, Nat.zero_mul, Nat.zero_add]
  · have one : 1 ≤ size / 2 ^ f.fraction := (Nat.one_le_div_iff pos).mpr (by omega)
    obtain ⟨k, hk⟩ := Nat.exists_eq_add_of_le one
    rw [hk] at split ⊢
    rw [Nat.add_sub_cancel_left]
    linarith [mul_comm k (2 ^ f.fraction), split, mul_add (2 ^ f.fraction) 1 k]

theorem div_pattern (f : Layout) (m p : ℕ) :
    (p * 2 ^ f.fraction + m) / 2 ^ f.fraction = p + m / 2 ^ f.fraction := by
  rw [Nat.add_comm, Nat.add_mul_div_right _ _ (by positivity), Nat.add_comm]

theorem Canonical.place_pattern (h : f.Canonical m p) :
    f.place (p * 2 ^ f.fraction + m) = p := by
  have pos : 0 < 2 ^ f.fraction := by positivity
  unfold place
  rw [Nat.pow_eq, div_pattern]
  by_cases low : m < 2 ^ f.fraction
  · rw [Nat.div_eq_of_lt low]
    have := h.full
    omega
  · have : m / 2 ^ f.fraction = 1 :=
      Nat.div_eq_of_lt_le (by omega) (by have := h.lt; omega)
    omega

theorem Canonical.significand_pattern (h : f.Canonical m p) :
    f.significand (p * 2 ^ f.fraction + m) = m := by
  have sum := f.pattern_significand (p * 2 ^ f.fraction + m)
  rw [h.place_pattern] at sum
  exact Nat.add_left_cancel sum

/-! ## Values -/

theorem pow_toNat {b : ℚ} (ne : b ≠ 0) (e : ℤ) : b ^ e.toNat = b ^ e * b ^ (-e).toNat := by
  rw [← zpow_natCast, ← zpow_natCast, ← zpow_add₀ ne]
  congr 1
  omega

theorem two_pow_toNat (e : ℤ) : (2 : ℚ) ^ e.toNat = 2 ^ e * 2 ^ (-e).toNat :=
  pow_toNat two_ne_zero e

/-- What `scaled` gives is `m · 2 ^ e`, with a denominator that can be divided by. -/
theorem exists_scaled (negative : Bool) (m : ℕ) (e : ℤ) :
    ∃ num den, scaled negative m e = .ratio negative num den ∧ 0 < den ∧
      (num : ℚ) / den = m * 2 ^ e := by
  unfold scaled
  simp only [Nat.pow_eq]
  split_ifs with nonneg
  · refine ⟨_, _, rfl, one_pos, ?_⟩
    have zero : (-e).toNat = 0 := by omega
    have pow := two_pow_toNat e
    rw [zero, pow_zero, mul_one] at pow
    push_cast
    rw [pow, div_one]
  · refine ⟨_, _, rfl, by positivity, ?_⟩
    have zero : e.toNat = 0 := by omega
    have pow := two_pow_toNat e
    rw [zero, pow_zero] at pow
    push_cast
    rw [div_eq_iff (by positivity), mul_assoc, ← pow, mul_one]

theorem decode_eq {bits : ℕ} (finite : bits % f.sign < f.top) :
    f.decode bits = scaled (f.sign ≤ bits) (f.significand (bits % f.sign))
      (f.bottom + f.place (bits % f.sign)) := by
  unfold decode
  rw [if_neg (by omega), if_neg (by omega)]

/-! ## The leading digit of a ratio -/

theorem shifted_le_iff {b : ℕ} (b_pos : 0 < b) (pos : 0 < den) (k : ℤ) :
    den * b ^ k.toNat ≤ num * b ^ (-k).toNat ↔ (b : ℚ) ^ k ≤ num / den := by
  have den_pos : (0 : ℚ) < den := by exact_mod_cast pos
  have b_pos' : (0 : ℚ) < b := by exact_mod_cast b_pos
  rw [le_div_iff₀ den_pos, ← Nat.cast_le (α := ℚ)]
  push_cast
  rw [pow_toNat b_pos'.ne' k, mul_comm ((b : ℚ) ^ k) (den : ℚ), ← mul_assoc]
  exact mul_le_mul_iff_left₀ (by positivity)

/-- Powers of the base that enclose numerator and denominator leave two candidates for the power of
the leading digit, and one comparison tells which it is. -/
theorem leading_spec {b : ℕ} (b_pos : 0 < b) (den_pos : 0 < den) {i j : ℤ}
    (num_low : (b : ℚ) ^ i ≤ num) (num_high : (num : ℚ) < b ^ (i + 1))
    (den_low : (b : ℚ) ^ j ≤ den) (den_high : (den : ℚ) < b ^ (j + 1)) {k : ℤ}
    (leading : k = if den * b ^ (i - j).toNat ≤ num * b ^ (-(i - j)).toNat then i - j
      else i - j - 1) :
    (b : ℚ) ^ k ≤ num / den ∧ (num : ℚ) / den < b ^ (k + 1) := by
  have den_pos' : (0 : ℚ) < den := by exact_mod_cast den_pos
  have b_pos' : (0 : ℚ) < b := by exact_mod_cast b_pos
  have low : (b : ℚ) ^ (i - j - 1) ≤ num / den := by
    rw [le_div_iff₀ den_pos']
    calc (b : ℚ) ^ (i - j - 1) * den ≤ b ^ (i - j - 1) * b ^ (j + 1) := by gcongr
      _ = b ^ i := by
        rw [← zpow_add₀ b_pos'.ne']
        congr 1
        omega
      _ ≤ num := num_low
  have high : (num : ℚ) / den < b ^ (i - j + 1) := by
    rw [div_lt_iff₀ den_pos']
    calc (num : ℚ) < b ^ (i + 1) := num_high
      _ = b ^ (i - j + 1) * b ^ j := by
        rw [← zpow_add₀ b_pos'.ne']
        congr 1
        omega
      _ ≤ b ^ (i - j + 1) * den := by gcongr
  split_ifs at leading with fits <;> rw [shifted_le_iff b_pos den_pos] at fits
  · rw [leading]
    exact ⟨fits, high⟩
  · rw [leading, sub_add_cancel]
    exact ⟨low, not_le.mp fits⟩

theorem two_pow_log2_le {n : ℕ} (pos : 0 < n) : (2 : ℚ) ^ (n.log2 : ℤ) ≤ n := by
  rw [zpow_natCast]
  exact_mod_cast Nat.log2_self_le pos.ne'

theorem lt_two_pow_log2 (n : ℕ) : (n : ℚ) < 2 ^ (n.log2 + 1 : ℤ) := by
  have := Nat.lt_log2_self (n := n)
  exact_mod_cast this

theorem log2Ratio_spec (num_pos : 0 < num) (den_pos : 0 < den) :
    (2 : ℚ) ^ log2Ratio num den ≤ num / den ∧ (num : ℚ) / den < 2 ^ (log2Ratio num den + 1) :=
  leading_spec (b := 2) two_pos den_pos (two_pow_log2_le num_pos) (lt_two_pow_log2 num)
    (two_pow_log2_le den_pos) (lt_two_pow_log2 den) rfl

theorem log2Ratio_eq (num_pos : 0 < num) (den_pos : 0 < den) {k : ℤ}
    (low : (2 : ℚ) ^ k ≤ num / den) (high : (num : ℚ) / den < 2 ^ (k + 1)) :
    log2Ratio num den = k := by
  obtain ⟨low', high'⟩ := log2Ratio_spec num_pos den_pos
  have one : (1 : ℚ) < 2 := by norm_num
  have le := (zpow_lt_zpow_iff_right₀ one).mp (low.trans_lt high')
  have ge := (zpow_lt_zpow_iff_right₀ one).mp (low'.trans_lt high)
  omega

/-! ## Rounding a value of the format -/

theorem Canonical.log2_eq (h : f.Canonical m p) (pos : 0 < m) :
    m.log2 = f.fraction ∨ m.log2 ≤ f.fraction ∧ p = 0 := by
  have le : m.log2 ≤ f.fraction := by
    have : m.log2 < f.fraction + 1 := (Nat.log2_lt pos.ne').mpr (by rw [pow_succ']; exact h.lt)
    omega
  rcases h.full with full | bottom
  · have ge : f.fraction ≤ m.log2 := (Nat.le_log2 pos.ne').mpr full
    exact .inl (le_antisymm le ge)
  · exact .inr ⟨le, bottom⟩

theorem Canonical.target_eq (h : f.Canonical m p) (pos : 0 < m) (num_pos : 0 < num)
    (den_pos : 0 < den) (value : (num : ℚ) / den = m * 2 ^ (f.bottom + p)) :
    f.target num den = f.bottom + p := by
  have two : (0 : ℚ) < 2 ^ (f.bottom + p) := by positivity
  have log : log2Ratio num den = m.log2 + (f.bottom + p) := by
    apply log2Ratio_eq num_pos den_pos
    · rw [value, zpow_add₀ two_ne_zero]
      exact mul_le_mul_of_nonneg_right (two_pow_log2_le pos) two.le
    · rw [value, show (m.log2 : ℤ) + (f.bottom + p) + 1 = m.log2 + 1 + (f.bottom + p) by ring,
        zpow_add₀ two_ne_zero (m.log2 + 1 : ℤ)]
      exact mul_lt_mul_of_pos_right (lt_two_pow_log2 m) two
  unfold target
  rw [log]
  rcases h.log2_eq pos with eq | ⟨le, eq⟩ <;> omega

/-- A value with a canonical place and significand rounds to the pattern that they form. -/
theorem Canonical.nearest_eq (h : f.Canonical m p) (lt : p * 2 ^ f.fraction + m < f.top)
    (den_pos : 0 < den) (value : (num : ℚ) / den = m * 2 ^ (f.bottom + p)) :
    f.nearest num den = p * 2 ^ f.fraction + m := by
  have den_ne : (den : ℚ) ≠ 0 := by exact_mod_cast den_pos.ne'
  unfold nearest
  rcases Nat.eq_zero_or_pos m with rfl | pos
  · have zero : p = 0 := h.full.resolve_left (by simp)
    have num_zero : num = 0 := by
      rw [Nat.cast_zero, zero_mul, div_eq_zero_iff] at value
      exact_mod_cast value.resolve_right den_ne
    rw [if_pos num_zero, zero, Nat.zero_mul]
  have num_pos : 0 < num := by
    apply Nat.pos_of_ne_zero
    rintro rfl
    have two : (0 : ℚ) < m * 2 ^ (f.bottom + p) := by positivity
    rw [← value, Nat.cast_zero, zero_div] at two
    exact lt_irrefl _ two
  have shifted : num * 2 ^ (-(f.bottom + p)).toNat = m * (den * 2 ^ (f.bottom + p).toNat) := by
    rw [div_eq_iff den_ne] at value
    have : (num : ℚ) * 2 ^ (-(f.bottom + p)).toNat = m * (den * 2 ^ (f.bottom + p).toNat) := by
      rw [value, two_pow_toNat (f.bottom + p)]
      ring
    exact_mod_cast this
  rw [if_neg num_pos.ne']
  simp only [Nat.pow_eq, h.target_eq pos num_pos den_pos value]
  rw [shifted, roundEven_mul_right _ (by positivity), add_sub_cancel_left, Int.toNat_natCast]
  exact min_eq_left lt.le

/-- Writing such a value and reading it back keeps its sign, place and significand. -/
theorem Canonical.decode_encode (h : f.Canonical m p) (lt : p * 2 ^ f.fraction + m < f.top)
    (top_lt : f.top < f.sign) (den_pos : 0 < den)
    (value : (num : ℚ) / den = m * 2 ^ (f.bottom + p)) (negative : Bool) :
    f.decode (f.encode (.ratio negative num den)) = scaled negative m (f.bottom + p) := by
  have mod : (p * 2 ^ f.fraction + m + if negative then f.sign else 0) % f.sign =
      p * 2 ^ f.fraction + m := by
    cases negative
    · exact Nat.mod_eq_of_lt (by simp; omega)
    · simp [Nat.mod_eq_of_lt (lt.trans top_lt)]
  have sign : (f.sign ≤ p * 2 ^ f.fraction + m + if negative then f.sign else 0) ↔ negative := by
    cases negative
    · simp
      omega
    · simp
  unfold encode
  simp only [h.nearest_eq lt den_pos value]
  rw [decode_eq (by rw [mod]; exact lt), mod, h.significand_pattern, h.place_pattern]
  simp only [sign, Bool.decide_eq_true]

/-- Any ratio with the value of a finite pattern is written as that pattern. -/
theorem encode_eq {bits : ℕ} (bits_lt : bits < 2 * f.sign) (finite : bits % f.sign < f.top)
    (den_pos : 0 < den) (value : (num : ℚ) / den =
      f.significand (bits % f.sign) * 2 ^ (f.bottom + f.place (bits % f.sign))) :
    f.encode (.ratio (f.sign ≤ bits) num den) = bits := by
  have pattern := f.pattern_significand (bits % f.sign)
  have nearest := (f.canonical_significand (bits % f.sign)).nearest_eq (by omega) den_pos value
  unfold encode
  simp only [nearest, pattern, decide_eq_true_eq]
  split_ifs with negative
  · rw [Nat.mod_eq_sub_mod negative, Nat.mod_eq_of_lt (by omega)]
    omega
  · rw [Nat.mod_eq_of_lt (by omega), Nat.add_zero]

theorem encode_lt (top_lt : f.top < f.sign) (negative : Bool) (num den : ℕ) :
    f.encode (.ratio negative num den) < 2 * f.sign := by
  have le : f.nearest num den ≤ f.top := by
    unfold nearest
    split_ifs
    · exact Nat.zero_le _
    · exact min_le_right _ _
  unfold encode
  dsimp only
  split_ifs <;> omega

/-! ## From 32 to 64 bits -/

/-- A number of at most 53 bits has a 64-bit pattern in any place that is not too low or too high:
filling its significand up with zeros and lowering the place leaves the value as it is. -/
theorem exists_canonical (lt : m < 2 ^ 53) {e : ℤ} (low : -1022 ≤ e) (high : e ≤ 971) :
    ∃ m' p', double.Canonical m' p' ∧ p' * 2 ^ double.fraction + m' < double.top ∧
      (m' : ℚ) * 2 ^ (double.bottom + p') = m * 2 ^ e := by
  rcases Nat.eq_zero_or_pos m with rfl | pos
  · exact ⟨0, 0, ⟨by decide, .inr rfl⟩, by decide, by simp⟩
  have log : m.log2 ≤ 52 := Nat.lt_succ_iff.mp ((Nat.log2_lt pos.ne').mpr lt)
  have full : 2 ^ 52 ≤ m * 2 ^ (52 - m.log2) := by
    calc 2 ^ 52 = 2 ^ m.log2 * 2 ^ (52 - m.log2) := by rw [← pow_add]; congr 1; omega
      _ ≤ m * 2 ^ (52 - m.log2) := Nat.mul_le_mul_right _ (Nat.log2_self_le pos.ne')
  have small : m * 2 ^ (52 - m.log2) < 2 ^ 53 := by
    calc m * 2 ^ (52 - m.log2) < 2 ^ (m.log2 + 1) * 2 ^ (52 - m.log2) :=
          Nat.mul_lt_mul_of_pos_right Nat.lt_log2_self (by positivity)
      _ = 2 ^ 53 := by rw [← pow_add]; congr 1; omega
  obtain ⟨p, place⟩ : ∃ p : ℕ, (p : ℤ) = 1074 + e - (52 - m.log2 : ℕ) :=
    ⟨(1074 + e - (52 - m.log2 : ℕ)).toNat, by omega⟩
  refine ⟨m * 2 ^ (52 - m.log2), p, ⟨?_, .inl full⟩, ?_, ?_⟩
  · show m * 2 ^ (52 - m.log2) < 2 * 2 ^ 52
    omega
  · show p * 2 ^ 52 + m * 2 ^ (52 - m.log2) < (2 ^ 11 - 1) * 2 ^ 52
    omega
  · have lowered : double.bottom + p = e - (52 - m.log2 : ℕ) := by
      show (-1074 : ℤ) + _ = _
      omega
    rw [lowered, zpow_sub₀ two_ne_zero, zpow_natCast]
    push_cast
    field_simp

end Layout

theorem Double.exact_round (negative : Bool) (num den : ℕ) :
    (Double.round (.ratio negative num den)).exact =
      Layout.double.decode (Layout.double.encode (.ratio negative num den)) := by
  have lt := Layout.encode_lt (f := .double) (by decide) negative num den
  unfold Double.exact Double.round
  rw [UInt64.toNat_ofNat_of_lt' lt]

namespace Single

variable {x : Single}

/-- Widening a finite number keeps its value. -/
theorem exists_exact_widen (finite : x.size < Layout.single.top) :
    ∃ num den, x.widen.exact = .ratio (Layout.single.sign ≤ x.bits.toNat) num den ∧ 0 < den ∧
      (num : ℚ) / den = Layout.single.significand x.size *
        2 ^ (Layout.single.bottom + Layout.single.place x.size) := by
  have canonical := Layout.canonical_significand .single x.size
  have pattern := Layout.pattern_significand .single x.size
  have place_le : Layout.single.place x.size ≤ 254 := by
    have : Layout.single.place x.size * 2 ^ 23 + Layout.single.significand x.size <
        (2 ^ 8 - 1) * 2 ^ 23 := pattern.trans_lt finite
    omega
  have bits : Layout.single.significand x.size < 2 ^ 53 :=
    canonical.lt.trans_le (by decide)
  have bottom : Layout.single.bottom = -149 := rfl
  obtain ⟨m, p, wide, lt, same⟩ := Layout.exists_canonical bits
    (e := Layout.single.bottom + Layout.single.place x.size) (by omega) (by omega)
  obtain ⟨num, den, ratio, den_pos, value⟩ :=
    Layout.exists_scaled (Layout.single.sign ≤ x.bits.toNat) (Layout.single.significand x.size)
      (Layout.single.bottom + Layout.single.place x.size)
  obtain ⟨num', den', ratio', den_pos', value'⟩ :=
    Layout.exists_scaled (Layout.single.sign ≤ x.bits.toNat) m (Layout.double.bottom + p)
  refine ⟨num', den', ?_, den_pos', value'.trans same⟩
  have exact_eq : x.exact = .ratio (Layout.single.sign ≤ x.bits.toNat) num den :=
    (Layout.decode_eq finite).trans ratio
  unfold widen
  rw [exact_eq, Double.exact_round,
    wide.decode_encode lt (by decide) den_pos (value.trans same.symm), ratio']

/-- Widening a finite number and narrowing it again gives the same number. -/
theorem ofDouble_widen (finite : x.isFinite) : ofDouble x.widen = x := by
  have size_lt : x.size < Layout.single.top := of_decide_eq_true finite
  obtain ⟨num, den, ratio, den_pos, value⟩ := exists_exact_widen size_lt
  unfold ofDouble round
  rw [ratio, Layout.encode_eq (f := .single) x.bits.toNat_lt size_lt den_pos value,
    UInt32.ofNat_toNat]

end Single

end Glance.Number
