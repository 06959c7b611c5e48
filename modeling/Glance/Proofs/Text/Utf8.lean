import Glance.Proofs.Document
import Glance.Text.Utf8

/-!
# Decoding UTF-8

The bytes of a text are decoded to the text (`decode?_utf8`): the first byte of a character tells
how many follow it, and none of them is taken for anything else. Of bytes that are no text, every
single one may become U+FFFD, which has three bytes; more than that they never grow
(`utf8Length_decodeLossy_le`).
-/

namespace Glance.Text

/-! ## Classes of bytes -/

theorem toNat_byte {n : ℕ} (lt : n < 256) : (UInt8.ofNat n).toNat = n :=
  UInt8.toNat_ofNat_of_lt' lt

theorem isTail_iff {b : UInt8} : isTail b ↔ 128 ≤ b.toNat ∧ b.toNat ≤ 191 := by
  simp [isTail, UInt8.le_iff_toNat_le]

theorem isSecond_iff {a b : UInt8} : isSecond a b ↔
    (a.toNat = 0xE0 → 160 ≤ b.toNat) ∧ (a.toNat = 0xF0 → 144 ≤ b.toNat) ∧ 128 ≤ b.toNat ∧
      (a.toNat = 0xED → b.toNat ≤ 159) ∧ (a.toNat = 0xF4 → b.toNat ≤ 143) ∧ b.toNat ≤ 191 := by
  unfold isSecond secondRange
  simp only [← UInt8.toNat_inj, Bool.and_eq_true, decide_eq_true_eq, UInt8.le_iff_toNat_le]
  split_ifs <;> simp_all <;> omega

variable {a b c d : UInt8} {rest : List UInt8}

theorem between_iff {low high : UInt8} :
    low ≤ a ∧ a ≤ high ↔ low.toNat ≤ a.toNat ∧ a.toNat ≤ high.toNat := by
  rw [UInt8.le_iff_toNat_le, UInt8.le_iff_toNat_le]

/-! ## Characters, by the number of their bytes -/

theorem decodeFirst_one (first : a < 0x80) :
    decodeFirst a rest = ⟨some (Char.ofNat a.toNat), rest⟩ := by
  unfold decodeFirst
  rw [if_pos first]

theorem decodeFirst_two (first : 0xC2 ≤ a ∧ a ≤ 0xDF) (tail : isTail b) :
    decodeFirst a (b :: rest) =
      ⟨some (Char.ofNat ((a.toNat - 0xC0) * 0x40 + tailValue b)), rest⟩ := by
  unfold decodeFirst
  rw [if_neg (by grind), if_pos first]
  simp only [tail, if_true]

theorem decodeFirst_three (first : 0xE0 ≤ a ∧ a ≤ 0xEF) (second : isSecond a b)
    (third : isTail c) :
    decodeFirst a (b :: c :: rest) =
      ⟨some (Char.ofNat (((a.toNat - 0xE0) * 0x40 + tailValue b) * 0x40 + tailValue c)), rest⟩ := by
  unfold decodeFirst
  rw [if_neg (by grind), if_neg (by grind), if_pos first]
  simp only [second, third, if_true]

theorem decodeFirst_four (first : 0xF0 ≤ a ∧ a ≤ 0xF4) (second : isSecond a b)
    (third : isTail c) (fourth : isTail d) :
    decodeFirst a (b :: c :: d :: rest) =
      ⟨some (Char.ofNat ((((a.toNat - 0xF0) * 0x40 + tailValue b) * 0x40 + tailValue c) * 0x40 +
        tailValue d)), rest⟩ := by
  unfold decodeFirst
  rw [if_neg (by grind), if_neg (by grind), if_neg (by grind), if_pos first]
  simp only [second, third, fourth, if_true]

/-! ## Texts -/

theorem isTail_ofNat (n : ℕ) : isTail (UInt8.ofNat (n % 64 + 128)) := by
  rw [isTail_iff, toNat_byte (by omega)]
  omega

theorem tailValue_ofNat (n : ℕ) : tailValue (UInt8.ofNat (n % 64 + 128)) = n % 64 := by
  unfold tailValue
  rw [toNat_byte (by omega)]
  omega

theorem decodeParts_cons (seen : List (Option Char)) (first : UInt8) (rest : List UInt8) :
    decodeParts seen (first :: rest) =
      decodeParts ((decodeFirst first rest).char :: seen) (decodeFirst first rest).rest := by
  rw [decodeParts]

/-- The bytes of a character are read as this character, whatever follows them. -/
theorem decodeParts_char (seen : List (Option Char)) (c : Char) (rest : List UInt8) :
    decodeParts seen (String.utf8EncodeChar c ++ rest) = decodeParts (some c :: seen) rest := by
  have valid : c.val.toNat < 0xD800 ∨ 0xDFFF < c.val.toNat ∧ c.val.toNat < 0x110000 := c.valid
  have self : Char.ofNat c.val.toNat = c := Char.ofNat_toNat c
  unfold String.utf8EncodeChar
  dsimp only
  generalize c.val.toNat = v at *
  -- A surrogate would have a second byte above `0x9F` behind `0xED`: there `valid` is needed.
  split_ifs with one two three
  · have first := toNat_byte (n := v) (by omega)
    have range : UInt8.ofNat v < 0x80 := by
      rw [UInt8.lt_iff_toNat_lt, first]
      exact Nat.lt_succ_of_le one
    rw [List.singleton_append, decodeParts_cons, decodeFirst_one range, first, self]
  · have first := toNat_byte (n := v / 64 % 32 + 192) (by omega)
    have range : 0xC2 ≤ UInt8.ofNat (v / 64 % 32 + 192) ∧
        UInt8.ofNat (v / 64 % 32 + 192) ≤ 0xDF := by
      rw [between_iff, first]
      change 194 ≤ _ ∧ _ ≤ 223
      omega
    have value : (v / 64 % 32 + 192 - 192) * 64 + v % 64 = v := by omega
    rw [List.cons_append, List.singleton_append, decodeParts_cons,
      decodeFirst_two range (isTail_ofNat _), first, tailValue_ofNat, value, self]
  · have first := toNat_byte (n := v / 4096 % 16 + 224) (by omega)
    have range : 0xE0 ≤ UInt8.ofNat (v / 4096 % 16 + 224) ∧
        UInt8.ofNat (v / 4096 % 16 + 224) ≤ 0xEF := by
      rw [between_iff, first]
      change 224 ≤ _ ∧ _ ≤ 239
      omega
    have second : isSecond (UInt8.ofNat (v / 4096 % 16 + 224))
        (UInt8.ofNat (v / 64 % 64 + 128)) := by
      rw [isSecond_iff, first, toNat_byte (by omega)]
      omega
    have value : ((v / 4096 % 16 + 224 - 224) * 64 + v / 64 % 64) * 64 + v % 64 = v := by omega
    rw [List.cons_append, List.cons_append, List.singleton_append, decodeParts_cons,
      decodeFirst_three range second (isTail_ofNat _), first, tailValue_ofNat, tailValue_ofNat,
      value, self]
  · have first := toNat_byte (n := v / 262144 % 8 + 240) (by omega)
    have range : 0xF0 ≤ UInt8.ofNat (v / 262144 % 8 + 240) ∧
        UInt8.ofNat (v / 262144 % 8 + 240) ≤ 0xF4 := by
      rw [between_iff, first]
      change 240 ≤ _ ∧ _ ≤ 244
      omega
    have second : isSecond (UInt8.ofNat (v / 262144 % 8 + 240))
        (UInt8.ofNat (v / 4096 % 64 + 128)) := by
      rw [isSecond_iff, first, toNat_byte (by omega)]
      omega
    have value : (((v / 262144 % 8 + 240 - 240) * 64 + v / 4096 % 64) * 64 + v / 64 % 64) * 64 +
        v % 64 = v := by omega
    rw [List.cons_append, List.cons_append, List.cons_append, List.singleton_append,
      decodeParts_cons, decodeFirst_four range second (isTail_ofNat _) (isTail_ofNat _), first,
      tailValue_ofNat, tailValue_ofNat, tailValue_ofNat, value, self]

theorem decodeParts_utf8 (seen : List (Option Char)) (text : List Char) :
    decodeParts seen (utf8 text) = seen.reverse ++ text.map some := by
  induction text generalizing seen with
  | nil =>
    show decodeParts seen [] = _
    rw [decodeParts, List.map_nil, List.append_nil]
  | cons c text ih =>
    show decodeParts seen (String.utf8EncodeChar c ++ utf8 text) = _
    rw [decodeParts_char, ih, List.reverse_cons, List.append_assoc]
    rfl

theorem decode?_utf8 (text : List Char) : decode? (utf8 text) = some text := by
  unfold decode?
  rw [decodeParts_utf8, List.reverse_nil, List.nil_append]
  induction text with
  | nil => rfl
  | cons c text ih => simp [ih]

/-! ## Growth -/

/-- A character that is not ASCII takes a second byte. -/
theorem length_decodeFirst_lt {first : UInt8} {rest : List UInt8} (long : ¬ first < 0x80) :
    (decodeFirst first rest).char.isSome → (decodeFirst first rest).rest.length < rest.length := by
  unfold decodeFirst
  rw [if_neg long]
  repeat' split
  all_goals simp
  omega

theorem utf8Size_ofNat_of_lt {n : ℕ} (ascii : n < 0x80) : (Char.ofNat n).utf8Size = 1 := by
  have all : ∀ n < 0x80, (Char.ofNat n).utf8Size = 1 := by decide
  exact all n ascii

/-- What stands for the first character has at most three bytes for each of its own. -/
theorem size_decodeFirst_le (first : UInt8) (rest : List UInt8) :
    ((decodeFirst first rest).char.getD '\uFFFD').utf8Size +
      3 * (decodeFirst first rest).rest.length ≤ 3 * (rest.length + 1) := by
  by_cases ascii : first < 0x80
  · rw [decodeFirst_one ascii, Option.getD_some, utf8Size_ofNat_of_lt (UInt8.lt_iff_toNat_lt.mp ascii)]
    show 1 + 3 * rest.length ≤ 3 * (rest.length + 1)
    omega
  · cases read : (decodeFirst first rest).char with
    | none =>
      have le := length_decodeFirst_le first rest
      have unreadable : '\uFFFD'.utf8Size = 3 := rfl
      rw [Option.getD_none, unreadable]
      omega
    | some c =>
      have lt := length_decodeFirst_lt ascii (by rw [read]; rfl)
      have size := c.utf8Size_le_four
      rw [Option.getD_some]
      omega

theorem utf8Length_decodeParts_le (seen : List (Option Char)) (bytes : List UInt8) :
    Document.utf8Length ((decodeParts seen bytes).map (·.getD '\uFFFD')) ≤
      Document.utf8Length (seen.reverse.map (·.getD '\uFFFD')) + 3 * bytes.length := by
  induction seen, bytes using decodeParts.induct with
  | case1 seen =>
    rw [decodeParts]
    exact Nat.le_add_right _ _
  | case2 seen first rest d ih =>
    subst d
    have size := size_decodeFirst_le first rest
    rw [List.reverse_cons, List.map_append, List.map_singleton, Document.utf8Length_append,
      Document.utf8Length_cons, Document.utf8Length_nil] at ih
    rw [decodeParts_cons, List.length_cons]
    omega

/-- Text that is shown for any bytes has at most three bytes for each of them. -/
theorem utf8Length_decodeLossy_le (bytes : List UInt8) :
    Document.utf8Length (decodeLossy bytes) ≤ 3 * bytes.length := by
  have le := utf8Length_decodeParts_le [] bytes
  rwa [List.reverse_nil, List.map_nil, Document.utf8Length_nil, Nat.zero_add] at le

end Glance.Text
