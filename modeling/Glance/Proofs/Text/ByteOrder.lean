import Glance.Text.Utf8
import Mathlib.Data.Char
import Mathlib.Data.List.Lex
import Mathlib.Tactic

/-!
# Texts are ordered as their bytes

A character with a larger code has a larger first byte, or the same bytes up to one that is larger.
The order of characters therefore is the order of their bytes in UTF-8, and so is that of texts.
-/

namespace Glance.Text

theorem ofNat_cons_lt_cons {a b : ℕ} {s t : List UInt8} (byte : b < 256) (le : a ≤ b)
    (next : a = b → s < t) : UInt8.ofNat a :: s < UInt8.ofNat b :: t := by
  rw [List.cons_lt_cons_iff]
  rcases Nat.lt_or_eq_of_le le with lt | rfl
  · left
    rw [UInt8.lt_iff_toNat_lt, UInt8.toNat_ofNat_of_lt' (lt.trans byte),
      UInt8.toNat_ofNat_of_lt' byte]
    exact lt
  · exact .inr ⟨rfl, next rfl⟩

theorem toNat_val_lt (c : Char) : c.val.toNat < 0x110000 := by
  rcases c.valid with h | h
  · exact Nat.lt_trans h (by decide)
  · exact h.2

theorem utf8EncodeChar_append_lt {c d : Char} (lt : c < d) (s t : List UInt8) :
    String.utf8EncodeChar c ++ s < String.utf8EncodeChar d ++ t := by
  have code : c.val.toNat < d.val.toNat := lt
  have bound := toNat_val_lt d
  unfold String.utf8EncodeChar
  dsimp only
  -- One case for each pair of lengths; the smaller character never has more bytes.
  split_ifs <;> try omega
  all_goals
    simp only [List.cons_append, List.nil_append]
    -- Byte by byte: not above the other, and if equal, the next decides.
    repeat refine ofNat_cons_lt_cons (by omega) (by omega) fun _ => ?_
    omega

theorem utf8_cons (c : Char) (text : List Char) :
    utf8 (c :: text) = String.utf8EncodeChar c ++ utf8 text := List.flatMap_cons

theorem utf8_lt_of_lt {a b : List Char} (lt : a < b) : utf8 a < utf8 b := by
  induction a generalizing b with
  | nil =>
    cases b with
    | nil => exact absurd lt (List.lt_irrefl _)
    | cons d b =>
      rw [utf8_cons]
      cases bytes : String.utf8EncodeChar d with
      | nil => exact absurd bytes String.utf8EncodeChar_ne_nil
      | cons => exact List.nil_lt_cons _ _
  | cons c a ih =>
    cases b with
    | nil => exact absurd lt (List.not_lt_nil _)
    | cons d b =>
      rw [utf8_cons, utf8_cons]
      rcases List.cons_lt_cons_iff.mp lt with less | ⟨rfl, rest⟩
      · exact utf8EncodeChar_append_lt less _ _
      · exact List.append_left_lt (ih rest)

/-- Of two texts the smaller one has the smaller bytes. -/
theorem utf8_lt_iff {a b : List Char} : utf8 a < utf8 b ↔ a < b := by
  refine ⟨fun lt => ?_, utf8_lt_of_lt⟩
  rcases lt_trichotomy a b with less | rfl | more
  · exact less
  · exact absurd lt (List.lt_irrefl _)
  · exact absurd (utf8_lt_of_lt more) (List.lt_asymm lt)

end Glance.Text
