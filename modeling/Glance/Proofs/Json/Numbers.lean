import Glance.Json.Printer
import Glance.Proofs.Json.Scaling

/-!
# Reading whole numbers back

A whole number that fits 64 bits, with a sign or without, is read back from its digits
(`number_writeInt`). No other whole number is ever read, and no float but a finite one
(`number_cases`).
-/

namespace Glance.Json

open Nat (ofDigitChars)

/-- The whole numbers that fit 64 bits, with a sign or without. -/
def FitsWord (i : ℤ) : Prop :=
  -2 ^ 63 ≤ i ∧ i < 2 ^ 64

instance (i : ℤ) : Decidable (FitsWord i) :=
  inferInstanceAs (Decidable (_ ∧ _))

/-- What follows does not go on with a number. -/
def EndsNumber (rest : List Char) : Prop :=
  ∀ c ∈ rest.head?, ¬ c.isDigit ∧ c ≠ '.' ∧ c ≠ 'e' ∧ c ≠ 'E'

variable {m n : ℕ} {i : ℤ} {negative : Bool} {v : Json} {c : Char} {ds text rest : List Char}

/-! ## Digits -/

theorem le_ofDigitChars (ds : List Char) (m : ℕ) : m ≤ ofDigitChars 10 ds m := by
  rw [Nat.ofDigitChars_eq_ofDigitChars_zero]
  have pos : 0 < 10 ^ ds.length := by positivity
  have := Nat.le_mul_of_pos_left m pos
  omega

/-- Digits are read one by one as long as their number fits. -/
theorem readDigits_eq (fits : ofDigitChars 10 ds m ≤ maxSignificand) (used : ℕ) :
    readDigits m used 0 ds = (ofDigitChars 10 ds m, used + ds.length, 0) := by
  induction ds generalizing m used with
  | nil => simp [readDigits]
  | cons c ds ih =>
    rw [Nat.ofDigitChars_cons] at fits ⊢
    have here : 10 * m + digitValue c ≤ maxSignificand := (le_ofDigitChars ds _).trans fits
    rw [readDigits, if_pos ⟨rfl, here⟩]
    show readDigits (10 * m + (c.toNat - '0'.toNat)) (used + 1) 0 ds = _
    rw [ih fits, List.length_cons, Nat.add_right_comm, Nat.add_assoc]

theorem readDigits_le (fits : m ≤ maxSignificand) (used extra : ℕ) (ds : List Char) :
    (readDigits m used extra ds).1 ≤ maxSignificand := by
  induction ds generalizing m used extra with
  | nil => exact fits
  | cons c ds ih =>
    unfold readDigits
    split_ifs with more
    · exact ih more.2 _ _
    · exact ih fits _ _

theorem isDigit_of_mem_digits (mem : c ∈ Number.digits n) : c.isDigit :=
  Nat.isDigit_of_mem_toDigits (by omega) (by omega) mem

/-- Only zero begins with a zero. -/
theorem head?_digits_ne (pos : 0 < n) : (Number.digits n).head? ≠ some '0' := by
  induction n using Nat.strong_induction_on with
  | _ n ih =>
    unfold Number.digits at ih ⊢
    by_cases single : n < 10
    · have digit : ∀ n < 10, 0 < n → [Nat.digitChar n].head? ≠ some '0' := by decide
      rw [Nat.toDigits_of_lt_base single]
      exact digit n single pos
    · rw [Nat.toDigits_of_base_le (by omega) (by omega), List.head?_append_of_ne_nil _
        Nat.toDigits_ne_nil]
      exact ih (n / 10) (by omega) (by omega)

theorem EndsNumber.not_isDigit (ends : EndsNumber rest) : ∀ c ∈ rest.head?, ¬ c.isDigit :=
  fun c mem => (ends c mem).1

theorem spanDigits_append (digits : ∀ c ∈ ds, c.isDigit)
    (ends : ∀ c ∈ rest.head?, ¬ c.isDigit) : spanDigits (ds ++ rest) = (ds, rest) := by
  have stop : rest.takeWhile Char.isDigit = [] ∧ rest.dropWhile Char.isDigit = rest := by
    cases rest with
    | nil => exact ⟨rfl, rfl⟩
    | cons c rest =>
      have other := ends c rfl
      exact ⟨List.takeWhile_cons_of_neg other, List.dropWhile_cons_of_neg other⟩
  unfold spanDigits
  rw [List.takeWhile_append_of_pos digits, List.dropWhile_append_of_pos digits, stop.1, stop.2,
    List.append_nil]

/-! ## Whole numbers -/

theorem fraction?_eq (ends : EndsNumber rest) : fraction? rest = some (none, rest) := by
  unfold fraction?
  split
  · exact absurd rfl (ends _ rfl).2.1
  · rfl

theorem exponent?_eq (ends : EndsNumber rest) : exponent? rest = some (none, rest) := by
  unfold exponent?
  cases rest with
  | nil => rfl
  | cons c rest =>
    obtain ⟨-, -, small, large⟩ := ends c rfl
    simp [small, large]

/-- What is read from the digits of a number, by its sign. -/
theorem unsigned_digits (negative : Bool) (fits : n ≤ maxSignificand) (ends : EndsNumber rest)
    (some : negative → n ≠ 0 ∧ n ≤ 2 ^ 63) :
    unsigned negative (Number.digits n ++ rest) =
      .some (.int (if negative then -n else n), rest) := by
  have digits : ∀ c ∈ Number.digits n, c.isDigit := fun c mem => isDigit_of_mem_digits mem
  have filled : (Number.digits n).isEmpty = false := by
    rw [List.isEmpty_eq_false_iff]
    exact Nat.toDigits_ne_nil
  have leading : ((Number.digits n).head? == .some '0' && decide (1 < (Number.digits n).length)) =
      false := by
    by_cases pos : 0 < n
    · rw [beq_eq_false_iff_ne.mpr (head?_digits_ne pos), Bool.false_and]
    · rw [Nat.eq_zero_of_not_pos pos]
      rfl
  have value : readDigits 0 0 0 (Number.digits n) = (n, (Number.digits n).length, 0) := by
    have eq : ofDigitChars 10 (Number.digits n) 0 = n := Nat.ofDigitChars_ten_toDigits
    rw [readDigits_eq (by rwa [eq]), eq, Nat.zero_add]
  unfold unsigned
  simp only [spanDigits_append digits ends.not_isDigit, filled, leading, Bool.or_self, Bool.false_eq_true,
    if_false, fraction?_eq ends, Option.bind_eq_bind, Option.bind_some, exponent?_eq ends, value,
    if_true]
  cases negative with
  | false => rfl
  | true =>
    obtain ⟨ne, le⟩ := some rfl
    have small : ¬ (n = 0 ∨ 0x8000000000000000 < n) := by omega
    rw [if_pos rfl, if_pos rfl, if_neg small]
    rfl

/-- A number that begins with a digit has no sign. -/
theorem number_digit (digit : c.isDigit) (rest : List Char) :
    number (c :: rest) = unsigned false (c :: rest) := by
  have sign : c ≠ '-' := by
    rintro rfl
    exact absurd digit (by decide)
  unfold number
  split
  · next first =>
    exact absurd (List.cons.inj first).1 sign
  · rfl

theorem exists_digits (n : ℕ) : ∃ c ds, Number.digits n = c :: ds ∧ c.isDigit := by
  obtain ⟨c, ds, eq⟩ := List.exists_cons_of_ne_nil (Nat.toDigits_ne_nil (n := n) (b := 10))
  refine ⟨c, ds, eq, isDigit_of_mem_digits (n := n) ?_⟩
  show c ∈ Nat.toDigits 10 n
  rw [eq]
  exact List.mem_cons_self

/-- A whole number that fits is read back. -/
theorem number_writeInt (fits : FitsWord i) (ends : EndsNumber rest) :
    number (writeInt i ++ rest) = some (.int i, rest) := by
  obtain ⟨low, high⟩ := fits
  unfold writeInt
  split_ifs with sign
  · have value : -(i.natAbs : ℤ) = i := by omega
    show unsigned true (Number.digits i.natAbs ++ rest) = _
    rw [unsigned_digits true (by unfold maxSignificand; omega) ends (fun _ => by omega),
      if_pos rfl, value]
  · have value : (i.natAbs : ℤ) = i := by omega
    obtain ⟨c, ds, eq, digit⟩ := exists_digits i.natAbs
    rw [List.nil_append, eq, List.cons_append, number_digit digit, ← List.cons_append, ← eq,
      unsigned_digits false (by unfold maxSignificand; omega) ends (fun h => by cases h),
      if_neg Bool.false_ne_true, value]

/-- A whole number begins with its sign or with a digit. -/
theorem writeInt_begins (i : ℤ) : ∃ c tail, writeInt i = c :: tail ∧ (c = '-' ∨ c.isDigit) := by
  obtain ⟨c, ds, eq, digit⟩ := exists_digits i.natAbs
  unfold writeInt
  split_ifs with sign
  · exact ⟨'-', _, rfl, .inl rfl⟩
  · exact ⟨c, ds, eq, .inr digit⟩

/-! ## Any numbers -/

theorem float_of_toFloat {e : ℤ} (fits : m ≤ maxSignificand)
    (h : (do return (← toFloat negative m e, text) : Option (Json × List Char)) = some (v, rest)) :
    ∃ x : Number.Double, x.Finite ∧ v = .float x := by
  obtain ⟨w, eq, h⟩ := Option.bind_eq_some_iff.mp h
  cases h
  exact finite_of_toFloat fits eq

theorem unsigned_cases (h : unsigned negative text = some (v, rest)) :
    (∃ i, v = .int i ∧ FitsWord i) ∨ ∃ x : Number.Double, x.Finite ∧ v = .float x := by
  have max : maxSignificand = 2 ^ 64 - 1 := rfl
  unfold unsigned at h
  generalize spanDigits text = span at h
  obtain ⟨whole, behind⟩ := span
  have le := readDigits_le (m := 0) (by decide) 0 0 whole
  dsimp only at h
  generalize readDigits 0 0 0 whole = number at h le
  obtain ⟨m, used, extra⟩ := number
  split at h
  · cases h
  · obtain ⟨⟨part, behind'⟩, -, h⟩ := Option.bind_eq_some_iff.mp h
    obtain ⟨⟨e, after⟩, -, h⟩ := Option.bind_eq_some_iff.mp h
    dsimp only at h le
    split at h
    · split_ifs at h with whole minus large
      · cases h
        exact .inr ⟨_, finite_round le true, rfl⟩
      · cases h
        refine .inl ⟨_, rfl, ?_⟩
        constructor <;> omega
      · cases h
        refine .inl ⟨_, rfl, ?_⟩
        constructor <;> omega
      · exact .inr (float_of_toFloat le h)
    · exact .inr (float_of_toFloat (readDigits_le le 0 0 _) h)

/-- A number that is read is a whole number that fits, or a finite float. -/
theorem number_cases (h : number text = some (v, rest)) :
    (∃ i, v = .int i ∧ FitsWord i) ∨ ∃ x : Number.Double, x.Finite ∧ v = .float x := by
  unfold number at h
  split at h
  · exact unsigned_cases h
  · exact unsigned_cases h

end Glance.Json
