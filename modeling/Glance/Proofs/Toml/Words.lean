import Glance.Proofs.Json.Numbers
import Glance.Toml.Parser

/-!
# Whole numbers in a settings file

The digits of a number that fits 64 bits with a sign are read as that number (`value_digits`): they
are no date and no time, and they do not begin with a needless zero.
-/

namespace Glance.Toml

open Nat (ofDigitChars)

variable {c : Char} {n : ℕ} {ds word rest : List Char}

/-! ## Digits -/

theorem digitValue?_of_isDigit (digit : c.isDigit) :
    Number.digitValue? 10 c = some (c.toNat - '0'.toNat) := by
  have range : '0'.toNat ≤ c.toNat ∧ c.toNat ≤ '9'.toNat := Char.isDigit_iff_toNat.mp digit
  have small : c.toNat - '0'.toNat < 10 := by
    have nine : '9'.toNat = 57 := rfl
    have zero : '0'.toNat = 48 := rfl
    omega
  unfold Number.digitValue?
  rw [if_pos digit, if_pos small]

theorem ne_of_isDigit {d : Char} (digit : c.isDigit) (other : d.isDigit = false) : c ≠ d := by
  rintro rfl
  rw [digit] at other
  cases other

theorem groups?_digits (digits : ∀ c ∈ ds, c.isDigit) (n : ℕ) :
    groups? 10 n true ds = some (ofDigitChars 10 ds n) := by
  induction ds generalizing n with
  | nil => rfl
  | cons c ds ih =>
    obtain ⟨digit, digits⟩ := List.forall_mem_cons.mp digits
    unfold groups?
    rw [if_neg (ne_of_isDigit digit rfl), digitValue?_of_isDigit digit]
    dsimp only
    rw [ih digits, Nat.ofDigitChars_cons]

theorem natural?_digits (filled : ds ≠ []) (digits : ∀ c ∈ ds, c.isDigit) :
    natural? 10 ds = some (ofDigitChars 10 ds 0) := by
  obtain ⟨c, ds, rfl⟩ := List.exists_cons_of_ne_nil filled
  obtain ⟨digit, digits⟩ := List.forall_mem_cons.mp digits
  unfold natural? groups?
  rw [if_neg (ne_of_isDigit digit rfl), digitValue?_of_isDigit digit]
  dsimp only
  rw [groups?_digits digits, Nat.ofDigitChars_cons]

theorem digits_ne_nil (n : ℕ) : Number.digits n ≠ [] :=
  Nat.toDigits_ne_nil

theorem decimal?_digits (n : ℕ) : decimal? (Number.digits n) = some n := by
  have read : natural? 10 (Number.digits n) = some n := by
    rw [natural?_digits (digits_ne_nil n) fun c => Json.isDigit_of_mem_digits]
    exact congrArg some Nat.ofDigitChars_ten_toDigits
  unfold decimal?
  split
  · next c rest split =>
    -- Only zero begins with a zero, and it has no other digit.
    have zero : n = 0 := by
      by_contra pos
      exact Json.head?_digits_ne (Nat.pos_of_ne_zero pos) (by rw [split]; rfl)
    rw [zero] at split
    exact absurd (congrArg List.length split) (by simp [Number.digits])
  · exact read

theorem integer?_digits (small : n < 2 ^ 63) : integer? (Number.digits n) = some (.integer n) := by
  have digits : ∀ c ∈ Number.digits n, c.isDigit := fun c => Json.isDigit_of_mem_digits
  have fits : int64? n = some (.integer n) := by
    unfold int64?
    rw [if_pos (by omega)]
  have sign : splitSign (Number.digits n) = (false, Number.digits n) := by
    unfold splitSign
    split
    · next split => exact absurd (digits '+' (by rw [split]; simp)) (by decide)
    · next split => exact absurd (digits '-' (by rw [split]; simp)) (by decide)
    · rfl
  unfold integer?
  split
  · next split => exact absurd (digits 'x' (by rw [split]; simp)) (by decide)
  · next split => exact absurd (digits 'o' (by rw [split]; simp)) (by decide)
  · next split => exact absurd (digits 'b' (by rw [split]; simp)) (by decide)
  · rw [sign]
    dsimp only
    rw [decimal?_digits, Option.bind_some, if_neg Bool.false_ne_true, fits]

/-! ## Digits are no point in time -/

theorem twoDigits_eq {low high n : ℕ} (read : twoDigits low high word = some (n, rest)) :
    ∃ a b, word = a :: b :: rest := by
  unfold twoDigits at read
  split at read
  · next a b _ =>
    split at read
    · dsimp only at read
      split_ifs at read
      cases read
      exact ⟨a, b, rfl⟩
    · cases read
  · cases read

theorem sign_digits {d : Char} (other : d.isDigit = false) (digits : ∀ c ∈ ds, c.isDigit) :
    sign d ds = none := by
  unfold sign
  split
  · next c rest =>
    exact if_neg (ne_of_isDigit (digits c (.head _)) other)
  · rfl

theorem twoDigits_digits {low high n : ℕ} (digits : ∀ c ∈ ds, c.isDigit)
    (read : twoDigits low high ds = some (n, rest)) : ∀ c ∈ rest, c.isDigit := by
  obtain ⟨a, b, rfl⟩ := twoDigits_eq read
  exact fun c mem => digits c (.tail _ (.tail _ mem))

theorem date?_digits (digits : ∀ c ∈ ds, c.isDigit) : date? ds = none := by
  unfold date?
  cases century : twoDigits 0 99 ds with
  | none => rfl
  | some found =>
    obtain ⟨n, word⟩ := found
    have digits' := twoDigits_digits digits century
    rw [Option.bind_eq_bind, Option.bind_some]
    dsimp only
    cases year : twoDigits 0 99 word with
    | none => rfl
    | some found =>
      obtain ⟨m, word'⟩ := found
      rw [Option.bind_some]
      dsimp only
      rw [sign_digits rfl (twoDigits_digits digits' year)]
      rfl

theorem time?_digits (digits : ∀ c ∈ ds, c.isDigit) : time? ds = none := by
  unfold time?
  cases hour : twoDigits 0 23 ds with
  | none => rfl
  | some found =>
    obtain ⟨n, word⟩ := found
    rw [Option.bind_eq_bind, Option.bind_some]
    dsimp only
    rw [sign_digits rfl (twoDigits_digits digits hour)]
    rfl

theorem word?_digits (small : n < 2 ^ 63) : word? (Number.digits n) = some (.integer n) := by
  have digits : ∀ c ∈ Number.digits n, c.isDigit := fun c => Json.isDigit_of_mem_digits
  have ne {word : List Char} (c : Char) (mem : c ∈ word) (other : c.isDigit = false) :
      Number.digits n ≠ word := by
    rintro rfl
    exact ne_of_isDigit (digits c mem) other rfl
  have timeless : isMoment (Number.digits n) = false := by
    unfold isMoment
    rw [date?_digits digits, time?_digits digits]
    rfl
  unfold word?
  rw [if_neg (ne 't' (by decide) rfl), if_neg (ne 'f' (by decide) rfl), timeless,
    if_neg Bool.false_ne_true, integer?_digits small]
  rfl

/-! ## A number in front of the end of its line -/

theorem isWordPart_of_isDigit (digit : c.isDigit) : isWordPart c := by
  unfold isWordPart Char.isAlphanum
  simp [digit]

theorem spanWord_digits (digits : ∀ c ∈ ds, c.isDigit) (rest : List Char) :
    spanWord (ds ++ '\n' :: rest) = (ds, '\n' :: rest) := by
  have parts : ∀ c ∈ ds, isWordPart c := fun c mem => isWordPart_of_isDigit (digits c mem)
  have stop : isWordPart '\n' = false := rfl
  unfold spanWord
  rw [List.takeWhile_append_of_pos parts, List.dropWhile_append_of_pos parts,
    List.takeWhile_cons_of_neg (by simp [stop]), List.dropWhile_cons_of_neg (by simp [stop]),
    List.append_nil]
  rfl

/-- A number is read at the end of its line. -/
theorem value_digits (most depth : ℕ) (small : n < 2 ^ 63) (rest : List Char) :
    value most depth (Number.digits n ++ '\n' :: rest) = some (.integer n, '\n' :: rest) := by
  have digits : ∀ c ∈ Number.digits n, c.isDigit := fun c => Json.isDigit_of_mem_digits
  have begins (c : Char) (text : List Char) (split : Number.digits n ++ '\n' :: rest = c :: text) :
      c.isDigit := by
    obtain ⟨d, ds, split'⟩ := List.exists_cons_of_ne_nil (digits_ne_nil n)
    rw [split', List.cons_append, List.cons.injEq] at split
    exact split.1 ▸ digits d (by rw [split']; simp)
  unfold value
  split
  · next split => exact absurd (begins _ _ split) (by decide)
  · next split => exact absurd (begins _ _ split) (by decide)
  · next split => exact absurd (begins _ _ split) (by decide)
  · next split => exact absurd (begins _ _ split) (by decide)
  · rw [spanWord_digits digits]
    dsimp only
    rw [word?_digits small]
    rfl

end Glance.Toml
