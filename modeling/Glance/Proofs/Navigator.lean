import Glance.Navigator
import Mathlib.Tactic

/-!
# Steps around a ring

A step forward adds one to a place in a ring and a step backward takes one away, also across the
ends. Where many steps lead is therefore only a matter of how many went each way.
-/

namespace Glance

/-- How far one step leads. -/
def Direction.offset : Direction → ℤ
  | .forward => 1
  | .backward => -1

namespace Navigator

variable {count pointer : ℕ}

theorem advance_lt (pos : 0 < count) (dir : Direction) : advance count pointer dir < count := by
  cases dir <;> exact Nat.mod_lt _ pos

theorem cast_advance (pos : 0 < count) (pointer : ℕ) (dir : Direction) :
    (advance count pointer dir : ℤ) = (pointer + dir.offset) % count := by
  cases dir with
  | forward =>
    unfold advance Direction.offset
    push_cast
    rfl
  | backward =>
    unfold advance Direction.offset
    -- The step back is taken from the place one turn further on, so that it stays positive.
    have turn : ((pointer + count - 1 : ℕ) : ℤ) = pointer + -1 + count := by omega
    rw [Int.natCast_emod, turn, Int.add_emod_right]

theorem cast_foldl_advance (lt : pointer < count) (dirs : List Direction) :
    ((dirs.foldl (advance count) pointer : ℕ) : ℤ) =
      (pointer + dirs.count .forward - dirs.count .backward) % count := by
  induction dirs using List.reverseRecOn with
  | nil =>
    have small : ((pointer : ℤ) % count) = pointer := Int.emod_eq_of_lt (by omega) (by omega)
    simpa using small.symm
  | append_singleton dirs dir ih =>
    rw [List.foldl_append, List.foldl_cons, List.foldl_nil, cast_advance (by omega), ih,
      Int.emod_add_emod, List.count_append, List.count_append]
    congr 1
    cases dir <;> simp [Direction.offset] <;> omega

/-- Steps forward alone go as far as there are steps. -/
theorem foldl_advance_replicate (lt : pointer < count) (k : ℕ) :
    (List.replicate k .forward).foldl (advance count) pointer = (pointer + k) % count := by
  have place := cast_foldl_advance lt (List.replicate k .forward)
  rw [List.count_replicate_self, List.count_replicate, if_neg (by decide), Nat.cast_zero,
    sub_zero] at place
  exact_mod_cast place

/-- A step the other way takes a step back. -/
theorem advance_advance (lt : pointer < count) {dir back : Direction} (opposite : dir ≠ back) :
    advance count (advance count pointer dir) back = pointer := by
  have place := cast_foldl_advance lt [dir, back]
  have both : [dir, back].count .forward = 1 ∧ [dir, back].count .backward = 1 :=
    match dir, back, opposite with
    | .forward, .backward, _ | .backward, .forward, _ => ⟨rfl, rfl⟩
  rw [both.1, both.2, add_sub_cancel_right, Int.emod_eq_of_lt (by omega) (by omega)] at place
  exact_mod_cast place

end Navigator

end Glance
