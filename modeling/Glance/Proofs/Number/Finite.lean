import Glance.Proofs.Number.Ordered

/-!
# Finite numbers in 64 bits

The pattern of a product or a quotient is the pattern nearest to the product or quotient of the
values. So products grow with their factors (`Double.size_mul_le`), and dividing by a number that is
not below one gives a number that is no larger (`Double.size_div_le`). Whole numbers of at most 53
bits are exact (`Double.magnitude_ofNat`).
-/

namespace Glance.Number.Double

variable {x x' y y' : Double} {num den n n' : ℕ}

/-- The pattern without its sign. -/
def size (x : Double) : ℕ :=
  x.bits.toNat % Layout.double.sign

/-- The sign. -/
def negative (x : Double) : Bool :=
  Layout.double.sign ≤ x.bits.toNat

/-- Neither infinite nor NaN. -/
def Finite (x : Double) : Prop :=
  x.size < Layout.double.top

instance (x : Double) : Decidable x.Finite :=
  inferInstanceAs (Decidable (_ < _))

/-- The value of a finite number without its sign. -/
def magnitude (x : Double) : ℚ :=
  Layout.double.value x.size

theorem magnitude_nonneg (x : Double) : 0 ≤ x.magnitude :=
  Layout.value_nonneg _ _

theorem exists_exact (finite : x.Finite) :
    ∃ num den : ℕ, x.exact = .ratio x.negative num den ∧ 0 < den ∧
      (num : ℚ) / den = x.magnitude := by
  obtain ⟨num, den, ratio, den_pos, value⟩ :=
    Layout.exists_scaled x.negative (Layout.double.significand x.size)
      (Layout.double.bottom + Layout.double.place x.size)
  exact ⟨num, den, (Layout.decode_eq finite).trans ratio, den_pos, value⟩

/-- Only finite numbers have a ratio. -/
theorem finite_of_exact {negative : Bool} (ratio : x.exact = .ratio negative num den) :
    x.Finite := by
  by_contra beyond
  unfold exact Layout.decode at ratio
  dsimp only at ratio
  split_ifs at ratio with above
  exact beyond (by unfold Finite size; omega)

/-! ## Rounding -/

theorem size_round (negative : Bool) (num den : ℕ) :
    (round (.ratio negative num den)).size = Layout.double.nearest num den := by
  have lt := Layout.encode_lt (f := .double) (by decide) negative num den
  have below : Layout.double.nearest num den < Layout.double.sign :=
    (Layout.nearest_le_top _ num den).trans_lt (by decide)
  unfold size round
  rw [UInt64.toNat_ofNat_of_lt' lt]
  unfold Layout.encode
  cases negative with
  | false => exact Nat.mod_eq_of_lt below
  | true =>
    show (_ + Layout.double.sign) % _ = _
    rw [Nat.add_mod_right, Nat.mod_eq_of_lt below]

theorem size_ofNat (n : ℕ) : (ofNat n).size = Layout.double.nearest n 1 :=
  size_round false n 1

theorem size_ofNat_le (le : n ≤ n') : (ofNat n).size ≤ (ofNat n').size := by
  rw [size_ofNat, size_ofNat]
  refine Layout.nearest_mono one_pos one_pos ?_
  rw [Nat.cast_one, div_one, div_one]
  exact_mod_cast le

/-- Infinite or NaN, a rounded ratio can only be infinite. -/
theorem finite_round_iff (negative : Bool) (num den : ℕ) :
    (round (.ratio negative num den)).Finite ↔
      (round (.ratio negative num den)).isInfinite = false := by
  have le := Layout.nearest_le_top .double num den
  have ne : (round (.ratio negative num den)).isInfinite = false ↔
      (round (.ratio negative num den)).size ≠ Layout.double.top :=
    beq_eq_false_iff_ne
  rw [ne]
  unfold Finite
  rw [size_round]
  omega

theorem negative_round (negative : Bool) (num den : ℕ) :
    (round (.ratio negative num den)).negative = negative := by
  have lt := Layout.encode_lt (f := .double) (by decide) negative num den
  have below : Layout.double.nearest num den < Layout.double.sign :=
    (Layout.nearest_le_top _ num den).trans_lt (by decide)
  unfold Double.negative round
  rw [UInt64.toNat_ofNat_of_lt' lt]
  unfold Layout.encode
  cases negative <;> simp [below]

/-- A pattern is its size and its sign. -/
theorem eq_of_size (size : x.size = y.size) (negative : x.negative = y.negative) : x = y := by
  have bits (x : Double) :
      x.bits.toNat = x.size + if x.negative then Layout.double.sign else 0 := by
    have lt : x.bits.toNat < 2 * Layout.double.sign := x.bits.toNat_lt
    unfold Double.size Double.negative
    simp only [decide_eq_true_eq]
    split_ifs with large
    · rw [Nat.mod_eq_sub_mod large, Nat.mod_eq_of_lt (by omega)]
      omega
    · rw [Nat.mod_eq_of_lt (by omega)]
      rfl
  have same : x.bits.toNat = y.bits.toNat := by rw [bits, bits, size, negative]
  cases x
  cases y
  exact congrArg _ (UInt64.toNat_inj.mp same)

/-- A number of at most 53 bits is exact, in any place that is not too high. -/
theorem magnitude_ofNat {k : ℕ} (lt : n < 2 ^ 53) (le : k ≤ 971) :
    (ofNat (n * 2 ^ k)).magnitude = (n * 2 ^ k : ℕ) := by
  obtain ⟨m, p, canonical, finite, value⟩ :=
    Layout.exists_canonical lt (e := k) (by omega) (by omega)
  have same : ((n * 2 ^ k : ℕ) : ℚ) / (1 : ℕ) = m * 2 ^ (Layout.double.bottom + p) := by
    rw [value]
    push_cast
    rw [div_one, zpow_natCast]
  unfold magnitude Layout.value
  rw [size_ofNat, canonical.nearest_eq finite one_pos same, canonical.significand_pattern,
    canonical.place_pattern, ← same, Nat.cast_one, div_one]

theorem finite_of_size_le (le : x.size ≤ y.size) (finite : y.Finite) : x.Finite :=
  le.trans_lt finite

theorem Finite.isInfinite (finite : x.Finite) : x.isInfinite = false :=
  beq_eq_false_iff_ne.mpr (Nat.ne_of_lt finite)

theorem magnitude_le (le : x.size ≤ y.size) (finite : y.Finite) : x.magnitude ≤ y.magnitude :=
  Layout.value_mono le finite

/-! ## Products and quotients -/

theorem exists_mul (finite : x.Finite) (finite' : y.Finite) :
    ∃ num den : ℕ, x.mul y = round (.ratio (x.negative != y.negative) num den) ∧ 0 < den ∧
      (num : ℚ) / den = x.magnitude * y.magnitude := by
  obtain ⟨num, den, exact, pos, value⟩ := exists_exact finite
  obtain ⟨num', den', exact', pos', value'⟩ := exists_exact finite'
  refine ⟨num * num', den * den', ?_, Nat.mul_pos pos pos', ?_⟩
  · unfold mul
    rw [exact, exact']
    rfl
  · rw [← value, ← value', div_mul_div_comm]
    push_cast
    rfl

theorem exists_div (finite : x.Finite) (finite' : y.Finite) (pos : 0 < y.magnitude) :
    ∃ num den : ℕ, x.div y = round (.ratio (x.negative != y.negative) num den) ∧ 0 < den ∧
      (num : ℚ) / den = x.magnitude / y.magnitude := by
  obtain ⟨num, den, exact, den_pos, value⟩ := exists_exact finite
  obtain ⟨num', den', exact', den_pos', value'⟩ := exists_exact finite'
  have num_pos : 0 < num' := by
    rw [← value', div_pos_iff_of_pos_right (by exact_mod_cast den_pos')] at pos
    exact_mod_cast pos
  refine ⟨num * den', den * num', ?_, Nat.mul_pos den_pos num_pos, ?_⟩
  · unfold div
    rw [exact, exact']
    unfold Extended.div
    dsimp only
    rw [if_neg num_pos.ne']
  · rw [← value, ← value', div_div_div_eq]
    push_cast
    rfl

/-- Products grow with their factors. -/
theorem size_mul_le (finite : x'.Finite) (finite' : y'.Finite) (le : x.size ≤ x'.size)
    (le' : y.size ≤ y'.size) : (x.mul y).size ≤ (x'.mul y').size := by
  obtain ⟨num, den, eq, pos, value⟩ :=
    exists_mul (finite_of_size_le le finite) (finite_of_size_le le' finite')
  obtain ⟨num', den', eq', pos', value'⟩ := exists_mul finite finite'
  rw [eq, eq', size_round, size_round]
  refine Layout.nearest_mono pos pos' ?_
  rw [value, value']
  exact mul_le_mul (magnitude_le le finite) (magnitude_le le' finite') (magnitude_nonneg _)
    (magnitude_nonneg _)

/-- A quotient by no less than one is no larger than what was divided. -/
theorem size_div_le (finite : x.Finite) (finite' : y.Finite) (one_le : 1 ≤ y.magnitude) :
    (x.div y).size ≤ x.size := by
  obtain ⟨num, den, eq, pos, value⟩ :=
    exists_div finite finite' (zero_lt_one.trans_le one_le)
  rw [eq, size_round]
  refine Layout.nearest_le_of_le_value finite pos ?_
  rw [value]
  exact div_le_self (magnitude_nonneg x) one_le

theorem negative_negate (finite : x.Finite) : (round x.exact.negate).negative = !x.negative := by
  obtain ⟨num, den, exact, -, -⟩ := exists_exact finite
  rw [exact]
  exact negative_round _ num den

theorem size_negate (finite : x.Finite) : (round x.exact.negate).size = x.size := by
  obtain ⟨num, den, exact, pos, value⟩ := exists_exact finite
  rw [exact]
  show (round (.ratio _ num den)).size = _
  rw [size_round, Layout.nearest_value finite pos value]

/-- Widening a finite number gives one. -/
theorem finite_widen {x : Single} (finite : x.isFinite) : x.widen.Finite := by
  obtain ⟨num, den, ratio, -, -⟩ := Single.exists_exact_widen (of_decide_eq_true finite)
  exact finite_of_exact ratio

end Glance.Number.Double
