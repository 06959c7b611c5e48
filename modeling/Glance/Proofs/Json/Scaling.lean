import Glance.Json.Parser
import Glance.Proofs.Number.Shortest

/-!
# Scaling floats by powers of ten

A significand is scaled by products and quotients with powers of ten, which are finite and not below
one. So what scaling yields is finite (`finite_of_toFloat`), and it yields something unless a
product is too large: of a number that is no larger than the largest float, with a significand of at
most seventeen digits, none is (`exists_toFloat`). With few digits the result is the float nearest
to the decimal (`toFloat_of_few`).
-/

namespace Glance.Json

open Number

variable {fuel m n : ℕ} {e : ℤ} {negative : Bool} {x y : Double} {v : Json}

/-! ## Powers of ten -/

theorem size_powerOfTen (n : ℕ) : (powerOfTen n).size = (Double.ofNat (10 ^ n)).size := rfl

theorem size_powerOfTen_le {k : ℕ} (le : n ≤ k) : (powerOfTen n).size ≤ (powerOfTen k).size := by
  rw [size_powerOfTen, size_powerOfTen]
  exact Double.size_ofNat_le (Nat.pow_le_pow_right (by norm_num) le)

theorem finite_greatest : (powerOfTen 308).Finite := by
  decide +kernel

theorem finite_powerOfTen (le : n ≤ 308) : (powerOfTen n).Finite :=
  Double.finite_of_size_le (size_powerOfTen_le le) finite_greatest

theorem magnitude_powerOfTen (le : n ≤ 22) : (powerOfTen n).magnitude = (10 ^ n : ℕ) := by
  have bits : 5 ^ n < 2 ^ 53 := (Nat.pow_le_pow_right (by norm_num) le).trans_lt (by norm_num)
  have eq : 10 ^ n = 5 ^ n * 2 ^ n := by rw [← Nat.mul_pow]
  have exact : (Double.ofNat (5 ^ n * 2 ^ n)).magnitude = (5 ^ n * 2 ^ n : ℕ) :=
    Double.magnitude_ofNat bits (by omega)
  rwa [← eq] at exact

theorem one_le_powerOfTen (le : n ≤ 308) : 1 ≤ (powerOfTen n).magnitude := by
  have one : (powerOfTen 0).magnitude = 1 := (magnitude_powerOfTen (Nat.zero_le 22)).trans (by simp)
  rw [← one]
  exact Double.magnitude_le (size_powerOfTen_le (Nat.zero_le n)) (finite_powerOfTen le)

/-! ## Scaling -/

theorem finite_div_powerOfTen (finite : x.Finite) (le : n ≤ 308) :
    (x.div (powerOfTen n)).Finite :=
  Double.finite_of_size_le
    (Double.size_div_le finite (finite_powerOfTen le) (one_le_powerOfTen le)) finite

/-- A product of finite numbers is finite unless it is infinite. -/
theorem finite_mul_iff (finite : x.Finite) (finite' : y.Finite) :
    (x.mul y).Finite ↔ (x.mul y).isInfinite = false := by
  obtain ⟨num, den, eq, -, -⟩ := Double.exists_mul finite finite'
  rw [eq]
  exact Double.finite_round_iff _ num den

theorem finite_of_scale (finite : x.Finite) (h : scale fuel x e = some y) : y.Finite := by
  induction fuel generalizing x e with
  | zero =>
    cases h
    exact finite
  | succ fuel ih =>
    unfold scale at h
    dsimp only at h
    split_ifs at h with small up large up' large' zero
    · cases h
      exact (finite_mul_iff finite (finite_powerOfTen small)).mpr (Bool.eq_false_iff.mpr large)
    · cases h
      exact finite_div_powerOfTen finite small
    · cases h
      exact finite
    · exact ih (finite_div_powerOfTen finite le_rfl) h

/-- Scaling down always yields something, and scaling up does unless a product is infinite. -/
theorem exists_scale (finite : x.Finite)
    (up : 0 ≤ e → e ≤ 308 ∧ (x.mul (powerOfTen e.natAbs)).Finite) :
    ∃ y, scale fuel x e = some y := by
  induction fuel generalizing x e with
  | zero => exact ⟨x, rfl⟩
  | succ fuel ih =>
    unfold scale
    dsimp only
    by_cases small : e.natAbs ≤ 308
    · rw [if_pos small]
      by_cases sign : 0 ≤ e
      · rw [if_pos sign, if_neg (by simp [(up sign).2.isInfinite])]
        exact ⟨_, rfl⟩
      · rw [if_neg sign, if_neg (by simp [(finite_div_powerOfTen finite small).isInfinite])]
        exact ⟨_, rfl⟩
    · have sign : ¬ 0 ≤ e := fun sign => small (by have := (up sign).1; omega)
      rw [if_neg small, if_neg sign]
      split_ifs
      · exact ⟨x, rfl⟩
      · exact ih (finite_div_powerOfTen finite le_rfl) fun nonneg => by omega

/-! ## Significands -/

theorem finite_ofNat (le : m ≤ maxSignificand) : (Double.ofNat m).Finite :=
  Double.finite_of_size_le (Double.size_ofNat_le le) (by decide)

theorem finite_round (le : m ≤ maxSignificand) (negative : Bool) :
    (Double.round (.ratio negative m 1)).Finite := by
  have same : (Double.round (.ratio negative m 1)).size = (Double.ofNat m).size := by
    rw [Double.size_round, Double.size_ofNat]
  exact Double.finite_of_size_le same.le (finite_ofNat le)

theorem finite_of_toFloat (le : m ≤ maxSignificand) (h : toFloat negative m e = some v) :
    ∃ x : Double, x.Finite ∧ v = .float x := by
  obtain ⟨x, scaled, rfl⟩ := Option.map_eq_some_iff.mp h
  have finite := finite_of_scale (finite_ofNat le) scaled
  refine ⟨_, ?_, rfl⟩
  split_ifs
  · exact Double.finite_of_size_le (Double.size_negate finite).le finite
  · exact finite

/-- Of the significands of seventeen digits, the largest that stays below the largest float has a
finite product. -/
theorem finite_products : ∀ n ≤ 308,
    ((Double.ofNat (min (10 ^ 17) (largest / 10 ^ n))).mul (powerOfTen n)).Finite := by
  decide +kernel

theorem le_of_pow_le_largest (le : 10 ^ n ≤ largest) : n ≤ 308 := by
  have beyond : largest < 10 ^ 309 := by decide +kernel
  have lt : n < 309 := (pow_lt_pow_iff_right₀ (by norm_num)).mp (le.trans_lt beyond)
  omega

/-- A decimal that is no larger than the largest float has a float. -/
theorem exists_toFloat {s : Scientific} (le : s.significand ≤ 10 ^ 17) (small : s.value ≤ largest)
    (zero : s.significand = 0 → s.exponent < 0) (negative : Bool) :
    ∃ v, toFloat negative s.significand s.exponent = some v := by
  have fits : s.significand ≤ maxSignificand := le.trans (by decide)
  suffices ∃ y, scale 4 (.ofNat s.significand) (max s.exponent (-1000)) = some y by
    obtain ⟨y, scaled⟩ := this
    exact ⟨_, Option.map_eq_some_iff.mpr ⟨y, scaled, rfl⟩⟩
  refine exists_scale (finite_ofNat fits) fun nonneg => ?_
  obtain ⟨m, e⟩ := s
  dsimp only at *
  obtain ⟨n, rfl⟩ : ∃ n : ℕ, e = n := ⟨e.toNat, by omega⟩
  have same : max (n : ℤ) (-1000) = n := by omega
  rw [Scientific.value_natCast, Nat.cast_le] at small
  have pos : 0 < m := Nat.pos_of_ne_zero fun none => by
    have := zero none
    omega
  have most : n ≤ 308 := le_of_pow_le_largest ((Nat.le_mul_of_pos_left _ pos).trans small)
  rw [same, Int.natAbs_natCast]
  refine ⟨by omega, Double.finite_of_size_le ?_ (finite_products n most)⟩
  have bound : m ≤ min (10 ^ 17) (largest / 10 ^ n) :=
    le_min le ((Nat.le_div_iff_mul_le (by positivity)).mpr small)
  have top : min (10 ^ 17) (largest / 10 ^ n) ≤ maxSignificand :=
    (min_le_left _ _).trans (by decide)
  exact Double.size_mul_le (finite_ofNat top) (finite_powerOfTen most) (Double.size_ofNat_le bound)
    le_rfl

/-- A significand of 53 bits is exact, and so are the powers of ten up to `10 ^ 22`; so such a
decimal is rounded once. -/
theorem size_of_scale {s : Scientific} (few : s.significand < 2 ^ 53)
    (near : s.exponent.natAbs ≤ 22)
    (h : scale 4 (.ofNat s.significand) (max s.exponent (-1000)) = some x) :
    x.negative = false ∧ ∃ num den : ℕ, 0 < den ∧ (num : ℚ) / den = s.value ∧
      x.size = Layout.double.nearest num den := by
  obtain ⟨m, e⟩ := s
  dsimp only at few near h
  have same : max e (-1000) = e := by omega
  have bits : m ≤ maxSignificand := few.le.trans (by decide)
  have exact : (Double.ofNat m).magnitude = m := by
    have whole := Double.magnitude_ofNat few (Nat.zero_le 971)
    rwa [pow_zero, mul_one] at whole
  have exact' := magnitude_powerOfTen near
  have sign : ((Double.ofNat m).negative != (powerOfTen e.natAbs).negative) = false := by
    have plus (n : ℕ) : (Double.ofNat n).negative = false := Double.negative_round false n 1
    show ((Double.ofNat m).negative != (Double.ofNat (10 ^ e.natAbs)).negative) = false
    rw [plus, plus]
    rfl
  have small : e.natAbs ≤ 308 := by omega
  unfold scale at h
  dsimp only at h
  rw [same, if_pos small] at h
  split_ifs at h with up large large <;> cases h
  · obtain ⟨num, den, eq, pos, value⟩ :=
      Double.exists_mul (finite_ofNat bits) (finite_powerOfTen small)
    rw [sign] at eq
    rw [eq]
    refine ⟨Double.negative_round _ _ _, num, den, pos, ?_, Double.size_round _ _ _⟩
    obtain ⟨n, rfl⟩ : ∃ n : ℕ, e = n := ⟨e.toNat, by omega⟩
    rw [value, exact, exact', Scientific.value_natCast, Int.natAbs_natCast]
    push_cast
    rfl
  · obtain ⟨num, den, eq, pos, value⟩ :=
      Double.exists_div (finite_ofNat bits) (finite_powerOfTen small)
        (zero_lt_one.trans_le (one_le_powerOfTen small))
    rw [sign] at eq
    rw [eq]
    refine ⟨Double.negative_round _ _ _, num, den, pos, ?_, Double.size_round _ _ _⟩
    obtain ⟨n, rfl⟩ : ∃ n : ℕ, e = -n := ⟨(-e).toNat, by omega⟩
    rw [value, exact, exact', Int.natAbs_neg, Int.natAbs_natCast]
    unfold Scientific.value
    push_cast
    rw [zpow_neg, zpow_natCast]
    rfl

theorem toFloat_of_few {s : Scientific} (few : s.significand < 2 ^ 53)
    (near : s.exponent.natAbs ≤ 22)
    (h : toFloat negative s.significand s.exponent = some (.float y)) :
    y.negative = negative ∧ ∃ num den : ℕ, 0 < den ∧ (num : ℚ) / den = s.value ∧
      y.size = Layout.double.nearest num den := by
  obtain ⟨x, scaled, eq⟩ := Option.map_eq_some_iff.mp h
  injection eq with eq
  obtain ⟨plus, num, den, pos, value, size⟩ := size_of_scale few near scaled
  have finite := finite_of_scale (finite_ofNat (few.le.trans (by decide))) scaled
  rw [← eq]
  refine ⟨?_, num, den, pos, value, ?_⟩
  · cases negative with
    | false => exact plus
    | true =>
      show (Double.round x.exact.negate).negative = true
      rw [Double.negative_negate finite, plus]
      rfl
  · rw [← size]
    split_ifs
    · exact Double.size_negate finite
    · rfl

end Glance.Json
