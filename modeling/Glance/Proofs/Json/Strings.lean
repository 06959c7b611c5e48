import Glance.Json.Parser
import Glance.Json.Printer
import Mathlib.Tactic

/-!
# Reading strings back

A string is read back from its escaped form, whatever characters it has.
-/

namespace Glance.Json

variable {c : Char} {seen text rest : List Char}

theorem digitValue?_hexDigit : ∀ n < 16, Number.digitValue? 16 (hexDigit n) = some n := by
  decide

/-- The two digits of a control character are those of its code. -/
theorem stringBody_unit (control : c.toNat < 0x20) (seen rest : List Char) :
    stringBody (.unit none 4 0) seen
      ('0' :: '0' :: hexDigit (c.toNat / 16) :: hexDigit (c.toNat % 16) :: rest) =
        stringBody .character (c :: seen) rest := by
  have high := digitValue?_hexDigit (c.toNat / 16) (by omega)
  have low := digitValue?_hexDigit (c.toNat % 16) (by omega)
  have zero : Number.digitValue? 16 '0' = some 0 := by decide
  have value : 16 * (c.toNat / 16) + c.toNat % 16 = c.toNat := by omega
  have single : isHigh c.toNat = false ∧ isLow c.toNat = false := by
    simp [isHigh, isLow]
    omega
  simp [stringBody, zero, high, low, value, single, Char.ofNat_toNat]

theorem stringBody_escapeChar (c : Char) (seen rest : List Char) :
    stringBody .character seen (escapeChar c ++ rest) =
      stringBody .character (c :: seen) rest := by
  unfold escapeChar
  split_ifs with quote mark backspace feed newline carriage tab control
  · subst quote
    simp [stringBody, escaped?]
  · subst mark
    simp [stringBody, escaped?]
  · subst backspace
    simp [stringBody, escaped?]
  · subst feed
    simp [stringBody, escaped?]
  · subst newline
    simp [stringBody, escaped?]
  · subst carriage
    simp [stringBody, escaped?]
  · subst tab
    simp [stringBody, escaped?]
  · simpa [stringBody] using stringBody_unit control seen rest
  · simp [stringBody, quote, mark, control]

theorem stringBody_text (seen text rest : List Char) :
    stringBody .character seen (text.flatMap escapeChar ++ '"' :: rest) =
      some (seen.reverse ++ text, rest) := by
  induction text generalizing seen with
  | nil => simp [stringBody]
  | cons c text ih =>
    rw [List.flatMap_cons, List.append_assoc, stringBody_escapeChar, ih, List.reverse_cons,
      List.append_assoc]
    rfl

theorem string_text (s : String) (rest : List Char) :
    string (s.toList.flatMap escapeChar ++ '"' :: rest) = some (s, rest) := by
  unfold string
  rw [stringBody_text, List.reverse_nil, List.nil_append]
  show some (String.ofList s.toList, rest) = _
  rw [String.ofList_toList]

end Glance.Json
