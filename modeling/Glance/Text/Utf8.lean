/-!
# UTF-8

Reading bytes as text. Well-formed sequences are the ones of the standard: shortest form, no
surrogates, nothing above U+10FFFF. Where the bytes are not well formed, the longest stretch that
begins like a character counts as one unreadable part, and otherwise a single byte does. A strict
reader refuses unreadable parts; a tolerant one shows each as U+FFFD.
-/

namespace Glance.Text

/-- The bytes of a text. -/
def utf8 (text : List Char) : List UInt8 :=
  text.flatMap String.utf8EncodeChar

/-- What a text begins with: a character or an unreadable part, and the bytes behind it. -/
structure Decoded where
  char : Option Char
  rest : List UInt8

/-- A byte in the middle of a character. -/
def isTail (b : UInt8) : Bool :=
  0x80 ≤ b && b ≤ 0xBF

/-- The value that a byte in the middle of a character adds. -/
def tailValue (b : UInt8) : Nat :=
  b.toNat - 0x80

/-- The range of the second byte, by the first byte of a longer character. -/
def secondRange (b : UInt8) : UInt8 × UInt8 :=
  if b = 0xE0 then (0xA0, 0xBF)
  else if b = 0xED then (0x80, 0x9F)
  else if b = 0xF0 then (0x90, 0xBF)
  else if b = 0xF4 then (0x80, 0x8F)
  else (0x80, 0xBF)

/-- A second byte that can follow the first. -/
def isSecond (first second : UInt8) : Bool :=
  (secondRange first).1 ≤ second && second ≤ (secondRange first).2

/-- Reads the first character of `first :: rest`. -/
def decodeFirst (first : UInt8) (rest : List UInt8) : Decoded :=
  if first < 0x80 then ⟨some (Char.ofNat first.toNat), rest⟩
  else if 0xC2 ≤ first ∧ first ≤ 0xDF then
    match rest with
    | b :: rest' =>
      if isTail b then
        ⟨some (Char.ofNat ((first.toNat - 0xC0) * 0x40 + tailValue b)), rest'⟩
      else ⟨none, rest⟩
    | [] => ⟨none, []⟩
  else if 0xE0 ≤ first ∧ first ≤ 0xEF then
    match rest with
    | b :: rest' =>
      if isSecond first b then
        match rest' with
        | c :: rest'' =>
          if isTail c then
            let n := ((first.toNat - 0xE0) * 0x40 + tailValue b) * 0x40 + tailValue c
            ⟨some (Char.ofNat n), rest''⟩
          else ⟨none, rest'⟩
        | [] => ⟨none, []⟩
      else ⟨none, rest⟩
    | [] => ⟨none, []⟩
  else if 0xF0 ≤ first ∧ first ≤ 0xF4 then
    match rest with
    | b :: rest' =>
      if isSecond first b then
        match rest' with
        | c :: rest'' =>
          if isTail c then
            match rest'' with
            | d :: rest''' =>
              if isTail d then
                let n := ((first.toNat - 0xF0) * 0x40 + tailValue b) * 0x40 + tailValue c
                ⟨some (Char.ofNat (n * 0x40 + tailValue d)), rest'''⟩
              else ⟨none, rest''⟩
            | [] => ⟨none, []⟩
          else ⟨none, rest'⟩
        | [] => ⟨none, []⟩
      else ⟨none, rest⟩
    | [] => ⟨none, []⟩
  else ⟨none, rest⟩

theorem length_decodeFirst_le (first : UInt8) (rest : List UInt8) :
    (decodeFirst first rest).rest.length ≤ rest.length := by
  unfold decodeFirst
  repeat' split
  all_goals simp_all <;> omega

/-- The characters and unreadable parts of a text. `seen` holds those so far, last first. -/
def decodeParts (seen : List (Option Char)) : List UInt8 → List (Option Char)
  | [] => seen.reverse
  | first :: rest =>
    let d := decodeFirst first rest
    decodeParts (d.char :: seen) d.rest
  termination_by bytes => bytes.length
  decreasing_by
    have := length_decodeFirst_le first rest
    simp only [List.length_cons]
    omega

/-- The text of well-formed bytes. -/
def decode? (bytes : List UInt8) : Option (List Char) :=
  (decodeParts [] bytes).mapM id

/-- The text of any bytes, with U+FFFD for each unreadable part. -/
def decodeLossy (bytes : List UInt8) : List Char :=
  (decodeParts [] bytes).map (·.getD '\uFFFD')

end Glance.Text
