import Glance.Proofs.Json.Numbers

/-!
# Reading floats back

The shortest decimal of a finite float is written in one of the spellings that the reader takes
apart: its digits with a point among or around them, or with an exponent behind them. All of them
are read (`number_shortest`). The decimal tells which float was written, but the reader rounds the
significand and the power of ten before it rounds the result, so what it reads can be a float next
to it. With few digits only the result is rounded, and the float is the one that was written
(`FewDigits.rereadFloat_eq`).
-/

namespace Glance.Json

open Nat (ofDigitChars)
open Number (Double Scientific)

variable {n : ℕ} {negative : Bool} {x : Double} {c : Char} {ds part rest : List Char}
  {s : Scientific}

theorem endsNumber_nil : EndsNumber [] := fun c mem => by cases mem

/-! ## Fractions and exponents -/

/-- The digits behind the point, with the point. Without digits there is none. -/
def pointed (part : List Char) : List Char :=
  if part.isEmpty then [] else '.' :: part

/-- An exponent with its sign. -/
def powered : Option ℤ → List Char
  | none => []
  | some e => 'e' :: (if e < 0 then '-' else '+') :: Number.digits e.natAbs

theorem fraction?_point (text : List Char) : fraction? ('.' :: text) =
    if (spanDigits text).1.isEmpty then none
    else some (some (spanDigits text).1, (spanDigits text).2) := rfl

theorem fraction?_pointed (digits : ∀ c ∈ part, c.isDigit)
    (ends : ∀ c ∈ rest.head?, ¬ c.isDigit ∧ c ≠ '.') :
    fraction? (pointed part ++ rest) = some (if part.isEmpty then none else some part, rest) := by
  cases part with
  | nil =>
    show fraction? rest = _
    unfold fraction?
    split
    · exact absurd rfl (ends _ rfl).2
    · rfl
  | cons c part =>
    have span := spanDigits_append digits fun c mem => (ends c mem).1
    show fraction? ('.' :: (c :: part ++ rest)) = _
    rw [fraction?_point, span]
    rfl

theorem foldl_digits (ds : List Char) (n : ℕ) :
    ds.foldl (fun (n : ℤ) c => 10 * n + digitValue c) (n : ℤ) = (ofDigitChars 10 ds n : ℕ) := by
  induction ds generalizing n with
  | nil => rfl
  | cons c ds ih =>
    rw [List.foldl_cons, Nat.ofDigitChars_cons]
    exact_mod_cast ih (10 * n + digitValue c)

theorem exponent?_powered (ends : EndsNumber rest) (e : Option ℤ) :
    exponent? (powered e ++ rest) = some (e, rest) := by
  cases e with
  | none => exact exponent?_eq ends
  | some e =>
    have digits : ∀ c ∈ Number.digits e.natAbs, c.isDigit := fun c mem => isDigit_of_mem_digits mem
    have filled : (Number.digits e.natAbs).isEmpty = false :=
      List.isEmpty_eq_false_iff.mpr Nat.toDigits_ne_nil
    have value : (Number.digits e.natAbs).foldl (fun (n : ℤ) c => 10 * n + digitValue c) 0 =
        e.natAbs := by
      have fold := foldl_digits (Number.digits e.natAbs) 0
      rw [Nat.cast_zero] at fold
      rw [fold]
      exact congrArg Nat.cast Nat.ofDigitChars_ten_toDigits
    unfold powered exponent?
    by_cases sign : e < 0
    · have back : -(e.natAbs : ℤ) = e := by omega
      simp only [if_pos sign, List.cons_append, spanDigits_append digits ends.not_isDigit, filled,
        value, back, true_or, if_true, Bool.false_eq_true, if_false]
    · have back : (e.natAbs : ℤ) = e := by omega
      simp only [if_neg sign, List.cons_append, spanDigits_append digits ends.not_isDigit, filled,
        value, back, true_or, if_true, Bool.false_eq_true, if_false]

/-! ## Spellings -/

/-- A float in the parts that its reader takes it apart into: the digits before the point, those
behind it, which are none where there is no point, and the exponent. -/
structure Spelling where
  whole : List Char
  part : List Char
  exponent : Option ℤ
  whole_digits : ∀ c ∈ whole, c.isDigit
  part_digits : ∀ c ∈ part, c.isDigit
  whole_ne : whole ≠ []
  leading : whole.head? = some '0' → whole.length = 1
  /-- Otherwise it is a whole number. -/
  broken : part ≠ [] ∨ exponent ≠ none

namespace Spelling

def text (spelling : Spelling) : List Char :=
  spelling.whole ++ (pointed spelling.part ++ powered spelling.exponent)

/-- The decimal that is spelled. -/
def decimal (spelling : Spelling) : Scientific :=
  ⟨ofDigitChars 10 (spelling.whole ++ spelling.part) 0,
    spelling.exponent.getD 0 - spelling.part.length⟩

theorem begins (spelling : Spelling) : ∃ c tail, spelling.text = c :: tail ∧ c.isDigit := by
  obtain ⟨c, whole, eq⟩ := List.exists_cons_of_ne_nil spelling.whole_ne
  refine ⟨c, whole ++ (pointed spelling.part ++ powered spelling.exponent), ?_,
    spelling.whole_digits c (eq ▸ List.mem_cons_self)⟩
  unfold text
  rw [eq, List.cons_append]

theorem ends_powered (ends : EndsNumber rest) (e : Option ℤ) :
    ∀ c ∈ (powered e ++ rest).head?, ¬ c.isDigit ∧ c ≠ '.' := by
  cases e with
  | none => exact fun c mem => ⟨(ends c mem).1, (ends c mem).2.1⟩
  | some e =>
    intro c mem
    cases mem
    decide

theorem ends_pointed (ends : EndsNumber rest) (part : List Char) (e : Option ℤ) :
    ∀ c ∈ (pointed part ++ (powered e ++ rest)).head?, ¬ c.isDigit := by
  cases part with
  | nil => exact fun c mem => (ends_powered ends e c mem).1
  | cons d part =>
    intro c mem
    cases mem
    decide

/-- No decimal is spelled as another is. -/
theorem decimal_eq_of_text {a b : Spelling} (same : a.text = b.text) : a.decimal = b.decimal := by
  have span (s : Spelling) : spanDigits s.text = (s.whole, pointed s.part ++ powered s.exponent) := by
    have split := spanDigits_append s.whole_digits (ends_pointed endsNumber_nil s.part s.exponent)
    rwa [List.append_nil] at split
  have fraction (s : Spelling) : fraction? (pointed s.part ++ powered s.exponent) =
      some (if s.part.isEmpty then none else some s.part, powered s.exponent) := by
    have split := fraction?_pointed s.part_digits (ends_powered endsNumber_nil s.exponent)
    rwa [List.append_nil] at split
  have exponent (s : Spelling) : exponent? (powered s.exponent) = some (s.exponent, []) := by
    have split := exponent?_powered endsNumber_nil s.exponent
    rwa [List.append_nil] at split
  have front := span a
  rw [same, span b] at front
  obtain ⟨whole, behind⟩ := Prod.mk.inj front
  have middle := fraction a
  rw [← behind, fraction b] at middle
  obtain ⟨part, last⟩ := Prod.mk.inj (Option.some.inj middle)
  have back := exponent a
  rw [← last, exponent b] at back
  have part' : a.part = b.part := by
    split_ifs at part with none none' none'
    · rw [List.isEmpty_iff.mp none, List.isEmpty_iff.mp none']
    · exact (Option.some.inj part).symm
  unfold decimal
  rw [whole, part', (Prod.mk.inj (Option.some.inj back)).1]

/-- A spelling is read as the float for its decimal. -/
theorem unsigned_text (spelling : Spelling) (fits : spelling.decimal.significand ≤ maxSignificand)
    (ends : EndsNumber rest) (negative : Bool) :
    unsigned negative (spelling.text ++ rest) =
      (toFloat negative spelling.decimal.significand spelling.decimal.exponent).map (·, rest) := by
  obtain ⟨whole, part, e, whole_digits, part_digits, whole_ne, leading, broken⟩ := spelling
  unfold decimal at fits ⊢
  dsimp only at fits ⊢
  rw [Nat.ofDigitChars_append] at fits ⊢
  have span := spanDigits_append whole_digits (ends_pointed ends part e)
  have filled : whole.isEmpty = false := List.isEmpty_eq_false_iff.mpr whole_ne
  have lead : (whole.head? == some '0' && decide (1 < whole.length)) = false := by
    by_contra zeros
    simp only [Bool.not_eq_false, Bool.and_eq_true, beq_iff_eq, decide_eq_true_eq] at zeros
    have := leading zeros.1
    omega
  have first := readDigits_eq (m := 0) ((le_ofDigitChars part _).trans fits) 0
  have second := readDigits_eq fits 0
  have fraction : (if part.isEmpty then none else some part).getD [] = part := by
    cases part <;> rfl
  have fractional : (if part.isEmpty then none else some part) ≠ none ∨ e ≠ none :=
    broken.imp_left fun ne => by simp [ne]
  unfold text unsigned
  simp only [List.append_assoc, span, filled, lead, Bool.or_self, Bool.false_eq_true, if_false,
    Option.bind_eq_bind, fraction?_pointed part_digits (ends_powered ends e), Option.bind_some,
    exponent?_powered ends, first]
  split
  · next plain => exact (fractional.resolve_right (fun ne => ne rfl) plain).elim
  · rw [fraction, second]
    dsimp only
    rw [Nat.cast_zero, add_zero, zero_add, Option.map_eq_bind]
    rfl

/-! ## Decimals -/

/-- The spelling stands for a decimal, and its digits are not too many to be read one by one. -/
structure Spells (spelling : Spelling) (s : Scientific) : Prop where
  value : spelling.decimal.value = s.value
  le : spelling.decimal.significand ≤ 10 ^ 17
  zero : spelling.decimal.significand = 0 → spelling.decimal.exponent < 0

/-- A spelling of the same significand and exponent. -/
theorem spells_of_eq {spelling : Spelling} (same : spelling.decimal = s) (pos : 0 < s.significand)
    (le : s.significand ≤ 10 ^ 17) : spelling.Spells s := by
  subst same
  exact ⟨rfl, le, fun zero => absurd zero pos.ne'⟩

theorem ofDigitChars_digits (n : ℕ) : ofDigitChars 10 (Number.digits n) 0 = n :=
  Nat.ofDigitChars_ten_toDigits

theorem isDigit_of_mem_zeros {zeros : ℕ} (mem : c ∈ List.replicate zeros '0' ∨ c ∈ Number.digits n) :
    c.isDigit := by
  rcases mem with mem | mem
  · rw [List.eq_of_mem_replicate mem]
    rfl
  · exact isDigit_of_mem_digits mem

/-- All digits behind the point, behind zeros. -/
def behindZeros (zeros n : ℕ) : Spelling where
  whole := ['0']
  part := List.replicate zeros '0' ++ Number.digits n
  exponent := none
  whole_digits := List.forall_mem_singleton.mpr rfl
  part_digits := fun _ mem => isDigit_of_mem_zeros (List.mem_append.mp mem)
  whole_ne := by decide
  leading := fun _ => rfl
  broken := .inl (List.append_ne_nil_of_right_ne_nil _ Nat.toDigits_ne_nil)

theorem spells_behindZeros (pos : 0 < s.significand) (le : s.significand ≤ 10 ^ 17) {zeros : ℕ}
    (point : (Number.digits s.significand).length + s.exponent = -(zeros : ℤ)) :
    (behindZeros zeros s.significand).Spells s := by
  refine spells_of_eq ?_ pos le
  obtain ⟨n, e⟩ := s
  unfold decimal behindZeros
  dsimp only at point ⊢
  rw [Nat.ofDigitChars_append, Nat.ofDigitChars_append]
  congr 1
  · show ofDigitChars 10 (Number.digits n) (ofDigitChars 10 (List.replicate zeros '0') 0) = n
    rw [Nat.ofDigitChars_replicate_zero, mul_zero, ofDigitChars_digits]
  · rw [Option.getD_none, List.length_append, List.length_replicate]
    omega

/-- All digits before the point, before zeros, and a zero behind the point. -/
def beforeZeros (n zeros : ℕ) (pos : 0 < n) : Spelling where
  whole := Number.digits n ++ List.replicate zeros '0'
  part := ['0']
  exponent := none
  whole_digits := fun _ mem => isDigit_of_mem_zeros (List.mem_append.mp mem).symm
  part_digits := List.forall_mem_singleton.mpr rfl
  whole_ne := List.append_ne_nil_of_left_ne_nil Nat.toDigits_ne_nil _
  leading := fun zero => by
    have ne : Number.digits n ≠ [] := Nat.toDigits_ne_nil
    rw [List.head?_append_of_ne_nil _ ne] at zero
    exact absurd zero (head?_digits_ne pos)
  broken := .inl (by decide)

theorem spells_beforeZeros (pos : 0 < s.significand) {zeros : ℕ} (exponent : s.exponent = zeros)
    (few : (Number.digits s.significand).length + zeros ≤ 16) :
    (beforeZeros s.significand zeros pos).Spells s := by
  obtain ⟨n, e⟩ := s
  subst exponent
  have significand : ofDigitChars 10 (Number.digits n ++ List.replicate zeros '0' ++ ['0']) 0 =
      n * 10 ^ (zeros + 1) := by
    rw [List.append_assoc, ← List.replicate_succ', Nat.ofDigitChars_append,
      Nat.ofDigitChars_replicate_zero, ofDigitChars_digits, mul_comm]
  have lt : n < 10 ^ (Number.digits n).length :=
    (Nat.length_toDigits_le_iff (by norm_num) Nat.length_toDigits_pos).mp le_rfl
  have decimal : (beforeZeros n zeros pos).decimal = ⟨n * 10 ^ (zeros + 1), -1⟩ := by
    unfold Spelling.decimal beforeZeros
    rw [significand]
    rfl
  refine ⟨?_, ?_, fun _ => ?_⟩
  · rw [decimal, Scientific.value_natCast]
    unfold Scientific.value
    push_cast
    rw [zpow_neg_one, pow_succ]
    field_simp
  · rw [decimal]
    dsimp only at few ⊢
    calc n * 10 ^ (zeros + 1) ≤ 10 ^ (Number.digits n).length * 10 ^ (zeros + 1) :=
        Nat.mul_le_mul_right _ lt.le
      _ = 10 ^ ((Number.digits n).length + (zeros + 1)) := (pow_add ..).symm
      _ ≤ 10 ^ 17 := Nat.pow_le_pow_right (by norm_num) (by omega)
  · rw [decimal]
    exact neg_one_lt_zero

/-- The digits with a point or an exponent. -/
def pointedAt (n : ℕ) (place : ℕ) (exponent : Option ℤ) (pos : 0 < n) (place_pos : 0 < place)
    (broken : place < (Number.digits n).length ∨ exponent ≠ none) : Spelling where
  whole := (Number.digits n).take place
  part := (Number.digits n).drop place
  exponent := exponent
  whole_digits := fun _ mem => isDigit_of_mem_digits (List.mem_of_mem_take mem)
  part_digits := fun _ mem => isDigit_of_mem_digits (List.mem_of_mem_drop mem)
  whole_ne := by
    rw [Ne, List.take_eq_nil_iff, not_or]
    exact ⟨place_pos.ne', Nat.toDigits_ne_nil⟩
  leading := fun zero => by
    rw [List.head?_take, if_neg place_pos.ne'] at zero
    exact absurd zero (head?_digits_ne pos)
  broken := broken.imp_left fun lt => by
    rw [Ne, List.drop_eq_nil_iff]
    omega

theorem spells_pointedAt (place : ℕ) (exponent : Option ℤ) (pos : 0 < s.significand)
    (place_pos : 0 < place)
    (broken : place < (Number.digits s.significand).length ∨ exponent ≠ none)
    (le : s.significand ≤ 10 ^ 17)
    (same : exponent.getD 0 - ((Number.digits s.significand).length - place : ℕ) = s.exponent) :
    (pointedAt s.significand place exponent pos place_pos broken).Spells s := by
  refine spells_of_eq ?_ pos le
  unfold decimal pointedAt
  dsimp only
  rw [List.take_append_drop, ofDigitChars_digits, List.length_drop, same]

theorem pointed_of_ne (ne : part ≠ []) : pointed part = '.' :: part := by
  cases part with
  | nil => exact absurd rfl ne
  | cons c part => rfl

/-- Zero is spelled with a zero on both sides of the point. -/
def zero : Spelling where
  whole := ['0']
  part := ['0']
  exponent := none
  whole_digits := List.forall_mem_singleton.mpr rfl
  part_digits := List.forall_mem_singleton.mpr rfl
  whole_ne := List.cons_ne_nil _ _
  leading := fun _ => rfl
  broken := .inl (List.cons_ne_nil _ _)

theorem spells_zero (none : s.significand = 0) : zero.Spells s where
  value := by
    have decimal : zero.decimal = ⟨0, -1⟩ := rfl
    rw [decimal]
    unfold Scientific.value
    rw [none, Nat.cast_zero, zero_mul, zero_mul]
  le := Nat.zero_le _
  zero := fun _ => neg_one_lt_zero

/-- Every decimal of at most seventeen digits is written in a spelling of it. -/
theorem exists_spelling (le : s.significand ≤ 10 ^ 17) :
    ∃ spelling : Spelling, spelling.Spells s ∧ s.write = spelling.text := by
  have value := s.value_trim (Number.digits s.significand).length
  have few := (s.significand_trim_le (Number.digits s.significand).length).trans le
  unfold Scientific.write
  generalize s.trim (Number.digits s.significand).length = t at value few
  suffices written : ∃ spelling : Spelling, spelling.Spells t ∧ _ = spelling.text by
    obtain ⟨spelling, spells, text⟩ := written
    exact ⟨spelling, ⟨spells.value.trans value, spells.le, spells.zero⟩, text⟩
  obtain ⟨n, e⟩ := t
  have filled : 0 < (Number.digits n).length := Nat.length_toDigits_pos
  dsimp only at few ⊢
  by_cases none : n = 0
  · rw [if_pos none]
    exact ⟨zero, spells_zero none, rfl⟩
  have pos := Nat.pos_of_ne_zero none
  rw [if_neg none]
  by_cases plain : -4 ≤ (Number.digits n).length + e ∧ (Number.digits n).length + e ≤ 16
  · rw [if_pos plain]
    by_cases small : (Number.digits n).length + e ≤ 0
    · obtain ⟨zeros, point⟩ : ∃ zeros : ℕ, (Number.digits n).length + e = -(zeros : ℤ) :=
        ⟨(-((Number.digits n).length + e)).toNat, by omega⟩
      have behind : List.replicate zeros '0' ++ Number.digits n ≠ [] :=
        List.append_ne_nil_of_right_ne_nil _ Nat.toDigits_ne_nil
      refine ⟨_, spells_behindZeros pos few point, ?_⟩
      rw [if_pos small, point, neg_neg, Int.toNat_natCast]
      show _ = ['0'] ++ (pointed (_ ++ _) ++ [])
      rw [pointed_of_ne behind, List.append_nil]
      rfl
    rw [if_neg small]
    by_cases short : (Number.digits n).length ≤ ((Number.digits n).length + e).toNat
    · obtain ⟨zeros, exponent⟩ : ∃ zeros : ℕ, e = zeros := ⟨e.toNat, by omega⟩
      have width : ((Number.digits n).length + e).toNat - (Number.digits n).length = zeros := by
        omega
      refine ⟨_, spells_beforeZeros pos exponent (by dsimp only; omega), ?_⟩
      rw [if_pos short, width]
      rfl
    · obtain ⟨place, point⟩ : ∃ place : ℕ, (Number.digits n).length + e = place :=
        ⟨((Number.digits n).length + e).toNat, by omega⟩
      rw [point, Int.toNat_natCast] at short ⊢
      have behind : (Number.digits n).drop place ≠ [] := by
        rw [Ne, List.drop_eq_nil_iff]
        exact short
      refine ⟨_, spells_pointedAt place .none pos (by omega) (.inl (by dsimp only; omega)) few
        (by rw [Option.getD_none]; dsimp only; omega), ?_⟩
      rw [if_neg short]
      show _ = _ ++ (pointed (List.drop _ _) ++ [])
      rw [pointed_of_ne behind, List.append_nil]
      rfl
  · rw [if_neg plain]
    refine ⟨_, spells_pointedAt 1 (some ((Number.digits n).length + e - 1)) pos one_pos
      (.inr (Option.some_ne_none _)) few (by rw [Option.getD_some]; dsimp only; omega), ?_⟩
    rw [List.append_assoc]
    rfl

end Spelling

/-! ## Shortest decimals -/

/-- The text of a spelling behind a sign. -/
def Spelling.signed (spelling : Spelling) (negative : Bool) : List Char :=
  (if negative then ['-'] else []) ++ spelling.text

/-- A spelling in which a float is written: the float is nearest to its decimal, and the decimal has
a float when it is read. -/
structure Spelling.Writes (spelling : Spelling) (x : Double) : Prop where
  text : x.shortest = spelling.signed x.negative
  fits : spelling.decimal.significand ≤ maxSignificand
  nearest : ∀ num den : ℕ, 0 < den → (num : ℚ) / den = spelling.decimal.value →
    Number.Layout.double.nearest num den = x.size
  read : ∃ y : Double, toFloat x.negative spelling.decimal.significand spelling.decimal.exponent =
    some (.float y)

theorem exists_writes (finite : x.Finite) : ∃ spelling : Spelling, spelling.Writes x := by
  obtain ⟨num, den, exact, -, -⟩ := Double.exists_exact finite
  obtain ⟨le, small⟩ := Number.shortest_le finite exact
  obtain ⟨spelling, spells, text⟩ := Spelling.exists_spelling le
  have fits : spelling.decimal.significand ≤ maxSignificand := spells.le.trans (by decide)
  obtain ⟨v, scaled⟩ :=
    exists_toFloat spells.le (spells.value.trans_le small) spells.zero x.negative
  obtain ⟨y, -, rfl⟩ := finite_of_toFloat fits scaled
  refine ⟨spelling, ?_, fits, fun num' den' pos value =>
    Number.nearest_shortest finite exact pos (value.trans spells.value), y, scaled⟩
  have decoded : Number.Layout.double.decode x.bits.toNat = _ := exact
  unfold Double.shortest Number.writeShortest Spelling.signed
  rw [decoded, ← text]
  rfl

theorem number_signed (negative : Bool) (spelling : Spelling) (rest : List Char) :
    number (spelling.signed negative ++ rest) = unsigned negative (spelling.text ++ rest) := by
  cases negative with
  | true => rfl
  | false =>
    obtain ⟨c, tail, eq, digit⟩ := spelling.begins
    show number (spelling.text ++ rest) = _
    rw [eq, List.cons_append, number_digit digit]

/-- The float that is read from what is written of a float. -/
def rereadFloat (x : Double) : Double :=
  match number x.shortest with
  | some (.float y, _) => y
  | _ => x

theorem Spelling.Writes.reads {y : Double} {spelling : Spelling} (writes : spelling.Writes x)
    (scaled : toFloat x.negative spelling.decimal.significand spelling.decimal.exponent =
      some (.float y)) :
    rereadFloat x = y ∧ ∀ rest, EndsNumber rest →
      number (x.shortest ++ rest) = some (.float y, rest) := by
  have read (rest : List Char) (ends : EndsNumber rest) :
      number (x.shortest ++ rest) = some (.float y, rest) := by
    rw [writes.text, number_signed, spelling.unsigned_text writes.fits ends, scaled]
    rfl
  have alone := read [] endsNumber_nil
  rw [List.append_nil] at alone
  refine ⟨?_, read⟩
  unfold rereadFloat
  rw [alone]

/-- What is written of a finite float is read as a float. -/
theorem number_shortest (finite : x.Finite) (ends : EndsNumber rest) :
    number (x.shortest ++ rest) = some (.float (rereadFloat x), rest) := by
  obtain ⟨spelling, writes⟩ := exists_writes finite
  obtain ⟨y, scaled⟩ := writes.read
  obtain ⟨rfl, read⟩ := writes.reads scaled
  exact read rest ends

/-- The float is written with a significand of at most 53 bits and a power of ten that is a float.
-/
def FewDigits (x : Double) : Prop :=
  ∃ spelling : Spelling, x.shortest = spelling.signed x.negative ∧
    spelling.decimal.significand < 2 ^ 53 ∧ spelling.decimal.exponent.natAbs ≤ 22

/-- Such a float is read back as it is. -/
theorem FewDigits.rereadFloat_eq (finite : x.Finite) (few : FewDigits x) : rereadFloat x = x := by
  obtain ⟨spelling, writes⟩ := exists_writes finite
  obtain ⟨y, scaled⟩ := writes.read
  obtain ⟨spelling', text, few, near⟩ := few
  have same : spelling.decimal = spelling'.decimal :=
    Spelling.decimal_eq_of_text (List.append_cancel_left (writes.text.symm.trans text))
  rw [← same] at few near
  obtain ⟨negative, num, den, pos, value, size⟩ := toFloat_of_few few near scaled
  rw [(writes.reads scaled).1]
  exact Double.eq_of_size (size.trans (writes.nearest num den pos value)) negative

/-- A float begins with its sign or with a digit. -/
theorem shortest_begins (finite : x.Finite) :
    ∃ c tail, x.shortest = c :: tail ∧ (c = '-' ∨ c.isDigit) := by
  obtain ⟨spelling, writes⟩ := exists_writes finite
  obtain ⟨c, tail, text, digit⟩ := spelling.begins
  rw [writes.text]
  unfold Spelling.signed
  split_ifs
  · exact ⟨'-', _, rfl, .inl rfl⟩
  · exact ⟨c, tail, text, .inr digit⟩

/-- A float that is not the one it is read back as. -/
example : rereadFloat (.round (.ratio false 39 (10 ^ 23))) ≠ .round (.ratio false 39 (10 ^ 23)) := by
  decide +kernel

end Glance.Json
