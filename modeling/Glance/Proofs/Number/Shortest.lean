import Glance.Number.Decimal
import Glance.Proofs.Number.Finite
import Glance.Proofs.Number.Nearest

/-!
# The shortest decimal

The shortest decimal of a finite number rounds back to that number (`nearest_shortest`), its
significand is at most `10 ^ 17`, and it is no larger than the largest finite number
(`shortest_le`), so it never lies on the far side of infinity. A decimal that was not tried has
seventeen digits, and half a unit of the last of them is less than half a unit of the last place in
binary. For the largest number the decimal is known.
-/

namespace Glance.Number

variable {num den bits n fuel : ℕ} {e : ℤ} {f : Layout} {s : Scientific}

/-! ## Decimals -/

/-- What a decimal stands for. -/
def Scientific.value (s : Scientific) : ℚ :=
  s.significand * 10 ^ s.exponent

theorem Scientific.value_eq (s : Scientific) :
    ((s.significand * 10 ^ s.exponent.toNat : ℕ) : ℚ) / (10 ^ (-s.exponent).toNat : ℕ) = s.value := by
  unfold Scientific.value
  push_cast
  rw [Layout.pow_toNat (by norm_num) s.exponent, ← mul_assoc,
    mul_div_cancel_right₀ _ (by positivity)]

theorem Scientific.value_natCast (m k : ℕ) :
    (⟨m, k⟩ : Scientific).value = (m * 10 ^ k : ℕ) := by
  unfold Scientific.value
  push_cast
  rw [zpow_natCast]

/-- Zeros taken from the end of the digits go into the exponent. -/
theorem Scientific.value_trim (s : Scientific) (fuel : ℕ) : (s.trim fuel).value = s.value := by
  induction fuel generalizing s with
  | zero => rfl
  | succ fuel ih =>
    unfold Scientific.trim
    split_ifs with zero
    · rw [ih]
      obtain ⟨k, hk⟩ := Nat.dvd_of_mod_eq_zero zero.1
      unfold Scientific.value
      dsimp only
      rw [hk, Nat.mul_div_cancel_left k (by norm_num), zpow_add₀ (by norm_num)]
      push_cast
      ring
    · rfl

theorem Scientific.significand_trim_le (s : Scientific) (fuel : ℕ) :
    (s.trim fuel).significand ≤ s.significand := by
  induction fuel generalizing s with
  | zero => exact le_rfl
  | succ fuel ih =>
    unfold Scientific.trim
    split_ifs with zero
    · exact (ih _).trans (Nat.div_le_self _ _)
    · exact le_rfl

theorem ten_pow_le_of_pos (pos : 0 < n) : (10 : ℚ) ^ ((digits n).length - 1 : ℤ) ≤ n := by
  have length : 0 < (digits n).length := Nat.length_toDigits_pos
  obtain ⟨k, eq⟩ := Nat.exists_eq_add_one.mpr length
  rw [eq, Nat.cast_add, Nat.cast_one, add_sub_cancel_right, zpow_natCast]
  rcases Nat.eq_zero_or_pos k with rfl | k_pos
  · exact_mod_cast pos
  · have : ¬ n < 10 ^ k := by
      rw [← Nat.length_toDigits_le_iff (by norm_num) k_pos]
      show ¬ (digits n).length ≤ k
      omega
    exact_mod_cast not_lt.mp this

theorem lt_ten_pow (n : ℕ) : (n : ℚ) < 10 ^ ((digits n).length - 1 + 1 : ℤ) := by
  have lt : n < 10 ^ (digits n).length :=
    (Nat.length_toDigits_le_iff (by norm_num) Nat.length_toDigits_pos).mp le_rfl
  rw [sub_add_cancel, zpow_natCast]
  exact_mod_cast lt

theorem log10Ratio_spec (num_pos : 0 < num) (den_pos : 0 < den) :
    (10 : ℚ) ^ log10Ratio num den ≤ num / den ∧
      (num : ℚ) / den < 10 ^ (log10Ratio num den + 1) := by
  refine Layout.leading_spec (b := 10) (by norm_num) den_pos (ten_pow_le_of_pos num_pos)
    (lt_ten_pow num) (ten_pow_le_of_pos den_pos) (lt_ten_pow den) ?_
  rw [sub_sub_sub_cancel_right]
  rfl

/-! ## Candidates -/

/-- A candidate next to `num / den`: it rounds back to the pattern, or it is the nearest in the
lowest place of all. -/
structure Candidate (f : Layout) (bits num den : ℕ) (low high : ℤ) (s : Scientific) : Prop where
  low_le : low ≤ s.exponent
  le_high : s.exponent ≤ high
  significand_le : s.significand ≤
    num * 10 ^ (-s.exponent).toNat / (den * 10 ^ s.exponent.toNat) + 1
  back : f.nearest (s.significand * 10 ^ s.exponent.toNat) (10 ^ (-s.exponent).toNat) = bits ∨
    s.exponent = low ∧ s.significand =
      roundEven (num * 10 ^ (-low).toNat) (den * 10 ^ low.toNat)

theorem roundEven_le_succ (num den : ℕ) : roundEven num den ≤ num / den + 1 := by
  unfold roundEven
  dsimp only
  split_ifs <;> omega

theorem candidate_of_neighbor? {low : ℤ} (h : neighbor? f bits num den e = some s) (le : low ≤ e) :
    Candidate f bits num den low e s := by
  have near := roundEven_le_succ (num * 10 ^ (-e).toNat) (den * 10 ^ e.toNat)
  unfold neighbor? Scientific.exact at h
  simp only [Nat.pow_eq] at h
  split_ifs at h with back exact back' back' <;> cases h
  · exact ⟨le, le_rfl, near, .inl (beq_iff_eq.mp back)⟩
  · refine ⟨le, le_rfl, ?_, .inl (beq_iff_eq.mp back')⟩
    dsimp only
    rw [exact]
  · exact ⟨le, le_rfl, Nat.le_succ _, .inl (beq_iff_eq.mp back')⟩

theorem candidate_shortestFrom (f : Layout) (bits num den fuel : ℕ) (e : ℤ) :
    Candidate f bits num den (e - fuel) e (shortestFrom f bits num den fuel e) := by
  induction fuel generalizing e with
  | zero =>
    refine ⟨by simp [shortestFrom], le_rfl, roundEven_le_succ _ _, .inr ⟨by simp [shortestFrom], ?_⟩⟩
    simp [shortestFrom]
  | succ fuel ih =>
    unfold shortestFrom
    split
    · next s found => exact candidate_of_neighbor? found (by omega)
    · have rest := ih (e - 1)
      have low : e - 1 - fuel = e - (fuel + 1 : ℕ) := by omega
      rw [low] at rest
      exact ⟨rest.low_le, rest.le_high.trans (by omega), rest.significand_le, rest.back⟩

/-! ## Bounds -/

/-- A candidate has no more digits than there are places down to it from the leading digit. -/
theorem Candidate.significand_le_pow (num_pos : 0 < num) (den_pos : 0 < den) {k : ℕ}
    (candidate : Candidate f bits num den (log10Ratio num den - k) (log10Ratio num den) s) :
    s.significand ≤ 10 ^ (k + 1) := by
  have high := (log10Ratio_spec num_pos den_pos).2
  have pos : 0 < den * 10 ^ s.exponent.toNat := by positivity
  have ten : (0 : ℚ) < 10 ^ (-s.exponent) := by positivity
  have lt : num * 10 ^ (-s.exponent).toNat / (den * 10 ^ s.exponent.toNat) < 10 ^ (k + 1) := by
    rw [Nat.div_lt_iff_lt_mul pos, ← Nat.cast_lt (α := ℚ), Nat.cast_mul (10 ^ (k + 1)),
      ← div_lt_iff₀ (by exact_mod_cast pos), Layout.shifted_ratio (by norm_num) den_pos]
    calc (num : ℚ) / den * (10 : ℕ) ^ (-s.exponent)
        < 10 ^ (log10Ratio num den + 1) * 10 ^ (-s.exponent) := mul_lt_mul_of_pos_right high ten
      _ = 10 ^ (log10Ratio num den + 1 - s.exponent) := by
        rw [← zpow_add₀ (by norm_num)]
        rfl
      _ ≤ 10 ^ (k + 1 : ℤ) := zpow_le_zpow_right₀ (by norm_num) (by have := candidate.low_le; omega)
      _ = ((10 ^ (k + 1) : ℕ) : ℚ) := by
        push_cast
        rw [← zpow_natCast]
        rfl
  exact candidate.significand_le.trans lt

/-- The nearest decimal in a place is at most half a unit of it away from the ratio. -/
theorem near_of_nearest (den_pos : 0 < den) {low : ℤ} (place : s.exponent = low)
    (nearest : s.significand = roundEven (num * 10 ^ (-low).toNat) (den * 10 ^ low.toNat)) :
    |s.value - num / den| ≤ 10 ^ low / 2 := by
  have pos : 0 < den * 10 ^ low.toNat := by positivity
  have ten : (0 : ℚ) < 10 ^ low := by positivity
  obtain ⟨above, below, -⟩ := roundEven_spec (num * 10 ^ (-low).toNat) pos
  rw [Layout.shifted_ratio (by norm_num) den_pos, ← nearest] at above below
  have unit : (num : ℚ) / den * (10 : ℕ) ^ (-low) * 10 ^ low = num / den := by
    push_cast
    rw [mul_assoc, ← zpow_add₀ (by norm_num), neg_add_cancel, zpow_zero, mul_one]
  have above' := mul_le_mul_of_nonneg_right above ten.le
  have below' := mul_le_mul_of_nonneg_right below ten.le
  rw [add_mul, unit] at above'
  rw [add_mul, unit] at below'
  unfold Scientific.value
  rw [place, abs_le]
  constructor <;> linarith

/-- A candidate of seventeen digits rounds back to the number. -/
theorem Candidate.nearest_eq {size : ℕ} (num_pos : 0 < num) (den_pos : 0 < den)
    (value : (num : ℚ) / den = Layout.double.value size) (finite : size < Layout.double.top)
    (candidate : Candidate .double size num den (log10Ratio num den - (16 : ℕ)) (log10Ratio num den)
      s) :
    Layout.double.nearest (s.significand * 10 ^ s.exponent.toNat) (10 ^ (-s.exponent).toNat) =
      size := by
  rcases candidate.back with back | ⟨place, nearest⟩
  · exact back
  · have near := near_of_nearest den_pos place nearest
    have leading := (log10Ratio_spec num_pos den_pos).1
    have pos : (0 : ℚ) < num / den := by positivity
    have unit : (10 : ℚ) ^ (log10Ratio num den - (16 : ℕ)) = 10 ^ log10Ratio num den / 10 ^ 16 := by
      rw [zpow_sub₀ (by norm_num)]
      norm_num
    rw [unit] at near
    refine Layout.nearest_of_near finite (by positivity) ?_
    rw [s.value_eq, ← value]
    calc |s.value - num / den| * (2 : ℚ) ^ 54 ≤ (num : ℚ) / den / 10 ^ 16 / 2 * 2 ^ 54 := by
          refine mul_le_mul_of_nonneg_right (near.trans ?_) (by positivity)
          linarith
      _ < (num : ℚ) / den := by linarith

/-- The largest finite number. -/
def largest : ℕ := (2 ^ 53 - 1) * 2 ^ 971

theorem cast_largest : (largest : ℚ) = (2 ^ 53 - 1) * 2 ^ 971 := by
  unfold largest
  rw [Nat.cast_mul, Nat.cast_pow, Nat.cast_sub Nat.one_le_two_pow, Nat.cast_pow, Nat.cast_ofNat,
    Nat.cast_one]

theorem value_largest : Layout.double.value (Layout.double.top - 1) = largest := by
  have significand : Layout.double.significand (Layout.double.top - 1) = 2 ^ 53 - 1 := by decide
  have place : Layout.double.bottom + Layout.double.place (Layout.double.top - 1) = 971 := by decide
  unfold Layout.value
  rw [significand, place, cast_largest, Nat.cast_sub Nat.one_le_two_pow, Nat.cast_pow,
    Nat.cast_ofNat, Nat.cast_one]
  rfl

theorem nearest_largest : Layout.double.nearest largest 1 = Layout.double.top - 1 :=
  Layout.nearest_value (by decide) one_pos (by rw [value_largest, Nat.cast_one, div_one])

theorem exact_largest {x : Double} (size : x.size = Layout.double.top - 1) :
    x.exact = .ratio x.negative largest 1 := by
  have finite : x.Finite := by
    show x.size < _
    rw [size]
    decide
  have scaled : ∀ negative, Layout.scaled negative
      (Layout.double.significand (Layout.double.top - 1))
      (Layout.double.bottom + Layout.double.place (Layout.double.top - 1)) =
        .ratio negative largest 1 := by
    decide +kernel
  rw [← scaled, ← size]
  exact Layout.decode_eq finite

theorem shortest_largest : shortest .double (Layout.double.top - 1) largest 1 =
    ⟨17976931348623157, 292⟩ := by
  decide +kernel

/-- The shortest decimal of a finite number is zero or a candidate. -/
theorem shortest_cases {x : Double} (finite : x.Finite) {negative : Bool}
    (exact : x.exact = .ratio negative num den) :
    0 < den ∧ (num : ℚ) / den = x.magnitude ∧
      (num = 0 ∧ shortest .double x.size num den = ⟨0, 0⟩ ∨
        0 < num ∧ Candidate .double x.size num den (log10Ratio num den - (16 : ℕ))
          (log10Ratio num den) (shortest .double x.size num den)) := by
  obtain ⟨num', den', exact', den_pos, value⟩ := Double.exists_exact finite
  obtain ⟨-, rfl, rfl⟩ : _ ∧ num = num' ∧ den = den' := by
    rw [exact] at exact'
    injection exact' with sign same same'
    exact ⟨sign, same, same'⟩
  refine ⟨den_pos, value, ?_⟩
  unfold shortest
  rcases Nat.eq_zero_or_pos num with none | pos
  · exact .inl ⟨none, if_pos none⟩
  · rw [if_neg pos.ne']
    exact .inr ⟨pos, candidate_shortestFrom .double x.size num den 16 _⟩

/-- The shortest decimal of a finite number rounds back to it. -/
theorem nearest_shortest {x : Double} (finite : x.Finite) {negative : Bool}
    (exact : x.exact = .ratio negative num den) {k l : ℕ} (l_pos : 0 < l)
    (value : (k : ℚ) / l = (shortest .double x.size num den).value) :
    Layout.double.nearest k l = x.size := by
  obtain ⟨den_pos, same, ⟨none, zero⟩ | ⟨num_pos, candidate⟩⟩ := shortest_cases finite exact
  · rw [zero] at value
    refine Layout.nearest_value finite l_pos ?_
    rw [value, ← Double.magnitude, ← same, none]
    simp [Scientific.value]
  · rw [← candidate.nearest_eq num_pos den_pos same finite]
    rw [← Scientific.value_eq] at value
    exact le_antisymm (Layout.nearest_mono l_pos (by positivity) value.le)
      (Layout.nearest_mono (by positivity) l_pos value.ge)

/-- The shortest decimal of a finite number has at most seventeen digits, but for a `10 ^ 17`, and
is not larger than every finite number. -/
theorem shortest_le {x : Double} (finite : x.Finite) {negative : Bool}
    (exact : x.exact = .ratio negative num den) :
    (shortest .double x.size num den).significand ≤ 10 ^ 17 ∧
      (shortest .double x.size num den).value ≤ largest := by
  by_cases last : x.size = Layout.double.top - 1
  · rw [exact_largest last] at exact
    cases exact
    have le : 17976931348623157 * 10 ^ 292 ≤ largest := by decide +kernel
    rw [last, shortest_largest]
    exact ⟨by decide, (Scientific.value_natCast _ 292).trans_le (Nat.cast_le.mpr le)⟩
  · obtain ⟨den_pos, same, ⟨none, zero⟩ | ⟨num_pos, candidate⟩⟩ := shortest_cases finite exact
    · rw [zero]
      exact ⟨Nat.zero_le _, (zero_mul _).trans_le (Nat.cast_nonneg _)⟩
    · refine ⟨candidate.significand_le_pow num_pos den_pos, ?_⟩
      generalize shortest .double x.size num den = s at candidate ⊢
      by_contra above
      have le : (largest : ℚ) / (1 : ℕ) ≤
          (s.significand * 10 ^ s.exponent.toNat : ℕ) / (10 ^ (-s.exponent).toNat : ℕ) := by
        rw [s.value_eq, Nat.cast_one, div_one]
        exact (not_le.mp above).le
      have mono := Layout.nearest_mono (f := .double) one_pos (by positivity) le
      rw [candidate.nearest_eq num_pos den_pos same finite, nearest_largest] at mono
      have below : x.size < Layout.double.top := finite
      omega

end Glance.Number
