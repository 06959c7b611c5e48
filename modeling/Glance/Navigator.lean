/-!
# Stepping through matches

A pointer into a list of matches that wraps around at both ends. It starts at the first match with
nothing emphasized; a step moves it and emphasizes the match it lands on.
-/

namespace Glance

inductive Direction where
  | forward
  | backward
  deriving DecidableEq, Repr

/-- A position among `count` matches, and the emphasized match once there is one. -/
structure Navigator where
  count : Nat
  pointer : Nat
  current : Option Nat
  deriving DecidableEq, Repr

namespace Navigator

/-- The navigator over `count` matches before the first step. -/
def start (count : Nat) : Navigator :=
  ⟨count, 0, none⟩

/-- The pointer after one step among `count` matches. -/
def advance (count pointer : Nat) : Direction → Nat
  | .forward => (pointer + 1) % count
  | .backward => (pointer + count - 1) % count

/-- Moves to the next or previous match. Without matches nothing happens. -/
def step (nav : Navigator) (dir : Direction) : Option Nat × Navigator :=
  if nav.count = 0 then (none, nav)
  else
    let target := advance nav.count nav.pointer dir
    (some target, { nav with pointer := target, current := some target })

/-- Jumps to match `i`. Outside the list nothing happens. -/
def select (nav : Navigator) (i : Nat) : Option Nat × Navigator :=
  if nav.count ≤ i then (none, nav)
  else (some i, { nav with pointer := i, current := some i })

/-- The pointer, when there is a match for it to point to. -/
def position (nav : Navigator) : Option Nat :=
  if nav.count = 0 then none else some nav.pointer

def isEmpty (nav : Navigator) : Bool :=
  nav.count == 0

end Navigator

end Glance
