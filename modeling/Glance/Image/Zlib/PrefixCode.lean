import Glance.Image.Zlib.BitStream

/-!
# Prefix codes

A code gives every symbol a row of bits, and none begins with another. Only the lengths of the rows
are told: shorter rows come first, rows of one length have the order of their symbols, and each row
is the next number of its length.
-/

namespace Glance.Image.Zlib

/-- The most bits that a symbol may have. -/
def maxLength : Nat := 15

structure PrefixCode where
  /-- How many symbols have one bit, two bits, and so on. -/
  counts : List Nat
  /-- The symbols in the order of their bits. -/
  symbols : Array Nat

namespace PrefixCode

/-- The symbols with so many bits. -/
def ofLength (lengths : List Nat) (n : Nat) : List Nat :=
  lengths.zipIdx.filterMap fun (length, symbol) => if length = n then some symbol else none

/-- The code in which symbol `i` has `lengths[i]` bits, or does not occur if that is zero. -/
def ofLengths (lengths : List Nat) : PrefixCode :=
  let groups := (List.range' 1 maxLength).map (ofLength lengths)
  ⟨groups.map List.length, groups.flatten.toArray⟩

/-- The rows of the greatest length that begin with the bits of a symbol. -/
def covered (code : PrefixCode) : Nat :=
  code.counts.foldl (fun rows n => 2 * rows + n) 0

/-- Every row of bits begins with those of one symbol. -/
def isComplete (code : PrefixCode) : Bool :=
  code.covered == Nat.pow 2 code.counts.length

/-- There is no symbol, or one with a single bit. -/
def isTrivial (code : PrefixCode) : Bool :=
  code.symbols.size == 0 || (code.symbols.size == 1 && code.counts.head? == some 1)

/-- Follows bits to a symbol. The bits taken so far stand for a number that is greater by `above`
than the first row of their length which no symbol in front has; `passed` counts these symbols. -/
def follow (symbols : Array Nat) :
    (counts : List Nat) → (passed above : Nat) → BitStream → Option (Nat × BitStream)
  | [], _, _, _ => none
  | n :: counts, passed, above, s =>
    match s.bit? with
    | none => none
    | some (bit, s) =>
      let above := 2 * above + bit.toNat
      if above < n then symbols[passed + above]?.map (·, s)
      else follow symbols counts (passed + n) (above - n) s

/-- Takes one symbol. -/
def symbol? (code : PrefixCode) (s : BitStream) : Option (Nat × BitStream) :=
  follow code.symbols code.counts 0 0 s

end PrefixCode

end Glance.Image.Zlib
