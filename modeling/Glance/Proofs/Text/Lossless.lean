import Glance.Proofs.Text.Utf8

/-!
# Decoding loses nothing unseen

The bytes from which a character is read are the bytes of that character (`utf8_of_decodeFirst`): no
other bytes are taken for it. So a text without U+FFFD has exactly the bytes it was decoded from
(`utf8_decodeLossy`), and what is well formed is decoded without loss, and nothing else is
(`utf8_decodeLossy_iff`).
-/

namespace Glance.Text

variable {a b c d : UInt8} {n : ℕ} {char : Char} {seen : List (Option Char)}
  {rest bytes : List UInt8}

/-! ## The bytes of a character -/

theorem toNat_ofNat (valid : n.isValidChar) : (Char.ofNat n).val.toNat = n := by
  unfold Char.ofNat
  rw [dif_pos valid]
  rfl

theorem ofNat_eq (same : n = a.toNat) : UInt8.ofNat n = a := by
  rw [same, UInt8.ofNat_toNat]

theorem encode_one (first : a < 0x80) : String.utf8EncodeChar (Char.ofNat a.toNat) = [a] := by
  have lt : a.toNat < 128 := UInt8.lt_iff_toNat_lt.mp first
  unfold String.utf8EncodeChar
  rw [toNat_ofNat (.inl (by omega))]
  dsimp only
  rw [if_pos (by omega), ofNat_eq rfl]

theorem encode_two (first : 0xC2 ≤ a ∧ a ≤ 0xDF) (tail : isTail b) :
    String.utf8EncodeChar (Char.ofNat ((a.toNat - 0xC0) * 0x40 + tailValue b)) = [a, b] := by
  obtain ⟨low, high⟩ : 194 ≤ a.toNat ∧ a.toNat ≤ 223 := between_iff.mp first
  obtain ⟨low', high'⟩ := isTail_iff.mp tail
  unfold String.utf8EncodeChar tailValue
  rw [toNat_ofNat (.inl (by omega))]
  dsimp only
  rw [if_neg (by omega), if_pos (by omega), ofNat_eq (a := a) (by omega),
    ofNat_eq (a := b) (by omega)]

theorem encode_three (first : 0xE0 ≤ a ∧ a ≤ 0xEF) (second : isSecond a b) (third : isTail c) :
    String.utf8EncodeChar
      (Char.ofNat (((a.toNat - 0xE0) * 0x40 + tailValue b) * 0x40 + tailValue c)) = [a, b, c] := by
  obtain ⟨low, high⟩ : 224 ≤ a.toNat ∧ a.toNat ≤ 239 := between_iff.mp first
  obtain ⟨low', high'⟩ := isTail_iff.mp third
  have range := isSecond_iff.mp second
  unfold String.utf8EncodeChar tailValue
  -- Behind `0xED` the second byte stays below the surrogates.
  have valid : Nat.isValidChar
      (((a.toNat - 0xE0) * 0x40 + (b.toNat - 0x80)) * 0x40 + (c.toNat - 0x80)) := by
    unfold Nat.isValidChar
    omega
  rw [toNat_ofNat valid]
  dsimp only
  rw [if_neg (by omega), if_neg (by omega), if_pos (by omega), ofNat_eq (a := a) (by omega),
    ofNat_eq (a := b) (by omega), ofNat_eq (a := c) (by omega)]

theorem encode_four (first : 0xF0 ≤ a ∧ a ≤ 0xF4) (second : isSecond a b) (third : isTail c)
    (fourth : isTail d) :
    String.utf8EncodeChar (Char.ofNat ((((a.toNat - 0xF0) * 0x40 + tailValue b) * 0x40 +
      tailValue c) * 0x40 + tailValue d)) = [a, b, c, d] := by
  obtain ⟨low, high⟩ : 240 ≤ a.toNat ∧ a.toNat ≤ 244 := between_iff.mp first
  obtain ⟨low', high'⟩ := isTail_iff.mp third
  obtain ⟨low'', high''⟩ := isTail_iff.mp fourth
  have range := isSecond_iff.mp second
  unfold String.utf8EncodeChar tailValue
  rw [toNat_ofNat (.inr (by omega))]
  dsimp only
  rw [if_neg (by omega), if_neg (by omega), if_neg (by omega), ofNat_eq (a := a) (by omega),
    ofNat_eq (a := b) (by omega), ofNat_eq (a := c) (by omega), ofNat_eq (a := d) (by omega)]

/-! ## Reading a character -/

/-- The bytes that a character is read from, by the number of them. -/
inductive Reads (a : UInt8) : List UInt8 → Prop
  | one {rest : List UInt8} (first : a < 0x80) : Reads a rest
  | two {b : UInt8} {rest : List UInt8} (first : 0xC2 ≤ a ∧ a ≤ 0xDF) (second : isTail b) :
    Reads a (b :: rest)
  | three {b c : UInt8} {rest : List UInt8} (first : 0xE0 ≤ a ∧ a ≤ 0xEF) (second : isSecond a b)
      (third : isTail c) : Reads a (b :: c :: rest)
  | four {b c d : UInt8} {rest : List UInt8} (first : 0xF0 ≤ a ∧ a ≤ 0xF4) (second : isSecond a b)
      (third : isTail c) (fourth : isTail d) : Reads a (b :: c :: d :: rest)

theorem reads_of_decodeFirst (read : (decodeFirst a rest).char = some char) : Reads a rest := by
  unfold decodeFirst at read
  split_ifs at read with one two three four
  · exact .one one
  · split at read
    · split_ifs at read with second
      exact .two two second
    · cases read
  · split at read
    · split_ifs at read with second
      split at read
      · split_ifs at read with third
        exact .three three second third
      · cases read
    · cases read
  · split at read
    · split_ifs at read with second
      split at read
      · split_ifs at read with third
        split at read
        · split_ifs at read with fourth
          exact .four four second third fourth
        · cases read
      · cases read
    · cases read

/-- A character is read from its own bytes. -/
theorem utf8_of_decodeFirst (read : (decodeFirst a rest).char = some char) :
    String.utf8EncodeChar char ++ (decodeFirst a rest).rest = a :: rest := by
  cases reads_of_decodeFirst read with
  | one first =>
    rw [decodeFirst_one first] at read ⊢
    rw [← Option.some.inj read, encode_one first]
    rfl
  | two first second =>
    rw [decodeFirst_two first second] at read ⊢
    rw [← Option.some.inj read, encode_two first second]
    rfl
  | three first second third =>
    rw [decodeFirst_three first second third] at read ⊢
    rw [← Option.some.inj read, encode_three first second third]
    rfl
  | four first second third fourth =>
    rw [decodeFirst_four first second third fourth] at read ⊢
    rw [← Option.some.inj read, encode_four first second third fourth]
    rfl

/-! ## Whole texts -/

theorem utf8_append (front back : List Char) : utf8 (front ++ back) = utf8 front ++ utf8 back :=
  List.flatMap_append

theorem mem_decodeParts {part : Option Char} (mem : part ∈ seen) :
    part ∈ decodeParts seen bytes := by
  induction seen, bytes using decodeParts.induct with
  | case1 seen =>
    rw [decodeParts]
    exact List.mem_reverse.mpr mem
  | case2 seen first rest d ih =>
    rw [decodeParts_cons]
    exact ih (.tail _ mem)

/-- Where every part is a character, the characters have all the bytes. -/
theorem utf8_decodeParts (whole : none ∉ decodeParts seen bytes) :
    utf8 ((decodeParts seen bytes).map (·.getD '\uFFFD')) =
      utf8 (seen.reverse.map (·.getD '\uFFFD')) ++ bytes := by
  induction seen, bytes using decodeParts.induct with
  | case1 seen => rw [decodeParts, List.append_nil]
  | case2 seen first rest d ih =>
    subst d
    rw [decodeParts_cons] at whole ⊢
    rw [ih whole]
    cases read : (decodeFirst first rest).char with
    | none =>
      rw [read] at whole
      exact (whole (mem_decodeParts (.head _))).elim
    | some char =>
      have own : utf8 [char] = String.utf8EncodeChar char := List.append_nil _
      rw [List.reverse_cons, List.map_append, utf8_append, List.append_assoc, List.map_singleton,
        Option.getD_some, own, utf8_of_decodeFirst read]

/-- Without a sign of loss there is none. -/
theorem utf8_decodeLossy (clean : '\uFFFD' ∉ decodeLossy bytes) :
    utf8 (decodeLossy bytes) = bytes := by
  refine utf8_decodeParts fun lost => clean ?_
  exact List.mem_map.mpr ⟨none, lost, rfl⟩

theorem decodeLossy_utf8 (text : List Char) : decodeLossy (utf8 text) = text := by
  unfold decodeLossy
  rw [decodeParts_utf8, List.reverse_nil, List.nil_append, List.map_map]
  exact List.map_id text

theorem isValidUTF8_iff : bytes.toByteArray.IsValidUTF8 ↔ ∃ text, utf8 text = bytes := by
  have encode (text : List Char) : text.utf8Encode = (utf8 text).toByteArray := rfl
  constructor
  · rintro ⟨text, same⟩
    rw [encode] at same
    exact ⟨text, (List.toByteArray_inj.mp same).symm⟩
  · rintro ⟨text, rfl⟩
    exact ⟨text, rfl⟩

/-- Exactly well-formed bytes are decoded without loss. -/
theorem utf8_decodeLossy_iff :
    utf8 (decodeLossy bytes) = bytes ↔ bytes.toByteArray.IsValidUTF8 := by
  rw [isValidUTF8_iff]
  constructor
  · exact fun same => ⟨_, same⟩
  · rintro ⟨text, rfl⟩
    rw [decodeLossy_utf8]

end Glance.Text
