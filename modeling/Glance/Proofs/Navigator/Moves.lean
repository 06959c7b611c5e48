import Glance.Proofs.Navigator

/-!
# Moves among matches

A navigator is stepped, sent to a match or given other matches, in any order. Where it points is
then the place it was last put at, turned once for every step since (`moves_turn_ring`). Moves that
find nothing to do leave it as it is.

All of this is done with machine words: as long as no more than `2 ^ 63` matches are there, no sum
on the way to a new pointer is too large for a word.
-/

namespace Glance.Navigator

/-! ## Moves -/

/-- What can be asked of a navigator. -/
inductive Move where
  | step (dir : Direction)
  | select (i : ℕ)
  /-- Other matches, so many of them, take the place of those before. -/
  | restart (count : ℕ)
  deriving DecidableEq

def move (nav : Navigator) : Move → Navigator
  | .step dir => (nav.step dir).2
  | .select i => (nav.select i).2
  | .restart count => start count

def run (nav : Navigator) (moves : List Move) : Navigator :=
  moves.foldl move nav

/-- The pointer at a match that is emphasized. -/
def land (nav : Navigator) (place : ℕ) : Navigator :=
  { nav with pointer := place, current := some place }

/-- The pointer is at a match if there is one, and what is emphasized is the match it is at. -/
structure Upright (nav : Navigator) : Prop where
  lt : nav.count ≠ 0 → nav.pointer < nav.count
  current : nav.current = none ∨ nav.current = nav.position

/-- Among `count` matches the move is no more than a step: it puts the pointer nowhere. -/
def Move.Turns (count : ℕ) : Move → Prop
  | .step _ => True
  | .select i => count ≤ i
  | .restart _ => False

/-- Among so many matches as `len` the pointer was last put at `base`, and the moves `after` came
since. -/
inductive LastPut (count : ℕ) : (moves : List Move) → (len base : ℕ) → (after : List Move) → Prop
  | start (after : List Move) : LastPut count after count 0 after
  | restart (before : List Move) (len : ℕ) (after : List Move) :
    LastPut count (before ++ .restart len :: after) len 0 after
  | select (before : List Move) (i : ℕ) (after : List Move)
    (lt : i < ((start count).run before).count) :
    LastPut count (before ++ .select i :: after) ((start count).run before).count i after

variable {nav : Navigator} {m : Move} {moves before after after' : List Move}
  {dirs dirs' : List Direction} {count len base pointer i : ℕ} {dir : Direction}

@[simp] theorem run_nil (nav : Navigator) : nav.run [] = nav := rfl

@[simp] theorem run_cons (nav : Navigator) (m : Move) (moves : List Move) :
    nav.run (m :: moves) = (nav.move m).run moves := rfl

theorem run_append (nav : Navigator) (before after : List Move) :
    nav.run (before ++ after) = (nav.run before).run after :=
  List.foldl_append

theorem step_of_empty (empty : nav.count = 0) (dir : Direction) : nav.step dir = (none, nav) :=
  if_pos empty

theorem step_of_ne (filled : nav.count ≠ 0) (dir : Direction) :
    nav.step dir = (some (advance nav.count nav.pointer dir),
      nav.land (advance nav.count nav.pointer dir)) :=
  if_neg filled

theorem select_of_le (le : nav.count ≤ i) : nav.select i = (none, nav) :=
  if_pos le

theorem select_of_lt (lt : i < nav.count) : nav.select i = (some i, nav.land i) :=
  if_neg (Nat.not_le.mpr lt)

theorem move_step_of_empty (empty : nav.count = 0) (dir : Direction) :
    nav.move (.step dir) = nav :=
  congrArg Prod.snd (step_of_empty empty dir)

theorem move_step_of_ne (filled : nav.count ≠ 0) (dir : Direction) :
    nav.move (.step dir) = nav.land (advance nav.count nav.pointer dir) :=
  congrArg Prod.snd (step_of_ne filled dir)

theorem move_select_of_le (le : nav.count ≤ i) : nav.move (.select i) = nav :=
  congrArg Prod.snd (select_of_le le)

theorem move_select_of_lt (lt : i < nav.count) : nav.move (.select i) = nav.land i :=
  congrArg Prod.snd (select_of_lt lt)

/-! ## In machine words -/

/-- A number, if a machine word holds it. -/
def word (n : ℤ) : Option ℕ :=
  if 0 ≤ n ∧ n < 2 ^ 64 then some n.toNat else none

/-- The pointer after one step, if every sum and difference on the way is a word. -/
def advanceInWords (count pointer : ℕ) : Direction → Option ℕ
  | .forward => do
    let sum ← word (pointer + 1)
    return sum % count
  | .backward => do
    let sum ← word (pointer + count)
    let less ← word (sum - 1)
    return less % count

def moveInWords (nav : Navigator) : Move → Option Navigator
  | .step dir =>
    if nav.count = 0 then some nav else (advanceInWords nav.count nav.pointer dir).map nav.land
  | m => some (nav.move m)

theorem word_of_eq {n : ℤ} {k : ℕ} (eq : n = k) (lt : k < 2 ^ 64) : word n = some k := by
  rw [eq]
  exact if_pos ⟨Int.natCast_nonneg k, by exact_mod_cast lt⟩

theorem advanceInWords_eq (lt : pointer < count) (small : count ≤ 2 ^ 63) (dir : Direction) :
    advanceInWords count pointer dir = some (advance count pointer dir) := by
  cases dir with
  | forward =>
    have sum : word (pointer + 1) = some (pointer + 1) := word_of_eq (by omega) (by omega)
    simp only [advanceInWords, advance, sum, Option.bind_eq_bind, Option.bind_some, pure]
  | backward =>
    have sum : word (pointer + count) = some (pointer + count) :=
      word_of_eq (by omega) (by omega)
    have less : word ((pointer + count : ℕ) - 1) = some (pointer + count - 1) :=
      word_of_eq (by omega) (by omega)
    simp only [advanceInWords, advance, sum, less, Option.bind_eq_bind, Option.bind_some, pure]

theorem moveInWords_step (nav : Navigator) (dir : Direction) :
    nav.moveInWords (.step dir) = if nav.count = 0 then some nav
      else (advanceInWords nav.count nav.pointer dir).map nav.land := rfl

/-! ## Upright -/

theorem upright_start (count : ℕ) : (start count).Upright :=
  ⟨Nat.pos_of_ne_zero, .inl rfl⟩

theorem upright_land {place : ℕ} (lt : place < nav.count) : (nav.land place).Upright :=
  ⟨fun _ => lt, .inr (if_neg (Nat.ne_zero_of_lt lt)).symm⟩

theorem Upright.move (upright : nav.Upright) (m : Move) : (nav.move m).Upright := by
  cases m with
  | step dir =>
    by_cases empty : nav.count = 0
    · rwa [move_step_of_empty empty]
    · rw [move_step_of_ne empty]
      exact upright_land (advance_lt (Nat.pos_of_ne_zero empty) dir)
  | select i =>
    rcases Nat.lt_or_ge i nav.count with lt | le
    · rw [move_select_of_lt lt]
      exact upright_land lt
    · rwa [move_select_of_le le]
  | restart count => exact upright_start count

theorem Upright.run (upright : nav.Upright) (moves : List Move) : (nav.run moves).Upright := by
  induction moves generalizing nav with
  | nil => exact upright
  | cons m moves ih => exact ih (upright.move m)

theorem moveInWords_eq (upright : nav.Upright) (small : nav.count ≤ 2 ^ 63) (m : Move) :
    nav.moveInWords m = some (nav.move m) := by
  cases m with
  | step dir =>
    by_cases empty : nav.count = 0
    · rw [moveInWords_step, if_pos empty, move_step_of_empty empty]
    · rw [moveInWords_step, if_neg empty, advanceInWords_eq (upright.lt empty) small, move_step_of_ne empty]
      rfl
  | select i => rfl
  | restart count => rfl

theorem count_move (small : nav.count ≤ len) (restarts : ∀ n, m = .restart n → n ≤ len) :
    (nav.move m).count ≤ len := by
  cases m with
  | step dir =>
    by_cases empty : nav.count = 0
    · rwa [move_step_of_empty empty]
    · rwa [move_step_of_ne empty]
  | select i =>
    rcases Nat.lt_or_ge i nav.count with lt | le
    · rwa [move_select_of_lt lt]
    · rwa [move_select_of_le le]
  | restart count => exact restarts count rfl

/-- With few enough matches nothing overflows, however many moves there are. -/
theorem foldlM_moveInWords (upright : nav.Upright) (small : nav.count ≤ 2 ^ 63)
    (restarts : ∀ n, .restart n ∈ moves → n ≤ 2 ^ 63) :
    moves.foldlM moveInWords nav = some (nav.run moves) := by
  induction moves generalizing nav with
  | nil => rfl
  | cons m moves ih =>
    have few := count_move small fun n (eq : m = .restart n) => restarts n (eq ▸ .head _)
    rw [List.foldlM_cons, moveInWords_eq upright small]
    exact ih (upright.move m) few fun n mem => restarts n (.tail _ mem)

/-! ## Steps -/

/-- The directions of the steps among the moves. -/
def turns (moves : List Move) : List Direction :=
  moves.filterMap fun m =>
    match m with
    | .step dir => some dir
    | _ => none

theorem turns_step (dir : Direction) (moves : List Move) :
    turns (.step dir :: moves) = dir :: turns moves := rfl

theorem count_turns (moves : List Move) (dir : Direction) :
    (turns moves).count dir = moves.count (.step dir) := by
  induction moves with
  | nil => rfl
  | cons m moves ih =>
    unfold turns at ih ⊢
    cases m <;> simp [ih, List.count_cons]

theorem run_of_empty (empty : nav.count = 0) (turn : ∀ m ∈ after, m.Turns nav.count) :
    nav.run after = nav := by
  induction after with
  | nil => rfl
  | cons m after ih =>
    obtain ⟨here, behind⟩ := List.forall_mem_cons.mp turn
    have same : nav.move m = nav := by
      cases m with
      | step dir => exact move_step_of_empty empty dir
      | select i => exact move_select_of_le here
      | restart count => exact here.elim
    rw [run_cons, same, ih behind]

/-- Steps land where their directions lead, if there is a step at all. -/
theorem run_of_ne (filled : nav.count ≠ 0) (turn : ∀ m ∈ after, m.Turns nav.count) :
    nav.run after = if turns after = [] then nav
      else nav.land ((turns after).foldl (advance nav.count) nav.pointer) := by
  induction after generalizing nav with
  | nil => rfl
  | cons m after ih =>
    obtain ⟨here, behind⟩ := List.forall_mem_cons.mp turn
    cases m with
    | step dir =>
      have onward := @ih (nav.land (advance nav.count nav.pointer dir)) filled behind
      rw [run_cons, move_step_of_ne filled, onward, turns_step, if_neg (List.cons_ne_nil _ _)]
      by_cases last : turns after = []
      · rw [if_pos last, last]
        rfl
      · rw [if_neg last]
        rfl
    | select i =>
      rw [run_cons, move_select_of_le here, ih filled behind]
      rfl
    | restart count => exact here.elim

theorem pointer_run_of_ne (filled : nav.count ≠ 0) (turn : ∀ m ∈ after, m.Turns nav.count) :
    (nav.run after).pointer = (turns after).foldl (advance nav.count) nav.pointer := by
  rw [run_of_ne filled turn]
  split_ifs with still
  · rw [still]
    rfl
  · rfl

theorem count_run (turn : ∀ m ∈ after, m.Turns nav.count) : (nav.run after).count = nav.count := by
  by_cases empty : nav.count = 0
  · rw [run_of_empty empty turn]
  · rw [run_of_ne empty turn]
    split_ifs <;> rfl

/-- Steps turn the pointer around the ring. -/
theorem pointer_run (upright : nav.Upright) (filled : nav.count ≠ 0)
    (turn : ∀ m ∈ after, m.Turns nav.count) :
    ((nav.run after).pointer : ℤ) =
      (nav.pointer + after.count (.step .forward) - after.count (.step .backward)) %
        nav.count := by
  rw [pointer_run_of_ne filled turn, cast_foldl_advance (upright.lt filled), count_turns,
    count_turns]

/-- Steps lead to the same place in any order. -/
theorem run_perm (upright : nav.Upright) (turn : ∀ m ∈ after, m.Turns nav.count)
    (perm : after.Perm after') : nav.run after = nav.run after' := by
  have turn' : ∀ m ∈ after', m.Turns nav.count := fun m mem => turn m (perm.mem_iff.mpr mem)
  by_cases empty : nav.count = 0
  · rw [run_of_empty empty turn, run_of_empty empty turn']
  · have lt := upright.lt empty
    have turned : (turns after).Perm (turns after') := perm.filterMap _
    have place : (turns after).foldl (advance nav.count) nav.pointer =
        (turns after').foldl (advance nav.count) nav.pointer := by
      rw [← Nat.cast_inj (R := ℤ), cast_foldl_advance lt, cast_foldl_advance lt,
        turned.count_eq, turned.count_eq]
    have still : turns after = [] ↔ turns after' = [] := by
      rw [← List.length_eq_zero_iff, ← List.length_eq_zero_iff, turned.length_eq]
    rw [run_of_ne empty turn, run_of_ne empty turn', place, if_congr still rfl rfl]

theorem pointer_run_replicate (upright : nav.Upright) (filled : nav.count ≠ 0) (k : ℕ) :
    (nav.run (List.replicate k (.step .forward))).pointer = (nav.pointer + k) % nav.count := by
  have turn : ∀ m ∈ List.replicate k (Move.step .forward), m.Turns nav.count := fun m mem => by
    rw [List.eq_of_mem_replicate mem]
    trivial
  have place := pointer_run upright filled turn
  rw [List.count_replicate_self, List.count_replicate, if_neg (by decide), Nat.cast_zero,
    sub_zero] at place
  exact_mod_cast place

theorem current_run_replicate (upright : nav.Upright) (filled : nav.count ≠ 0) (k : ℕ) :
    (nav.run (List.replicate (k + 1) (.step .forward))).current =
      some ((nav.pointer + (k + 1)) % nav.count) := by
  have turn : ∀ m ∈ List.replicate (k + 1) (Move.step .forward), m.Turns nav.count :=
    fun m mem => by
      rw [List.eq_of_mem_replicate mem]
      trivial
  rw [← pointer_run_replicate upright filled, run_of_ne filled turn, List.replicate_succ,
    turns_step, if_neg (List.cons_ne_nil _ _)]
  rfl

/-- Of so many steps as there are places in a ring, exactly one leads to each place. -/
theorem existsUnique_add_mod (lt : pointer < count) (i_lt : i < count) :
    ∃! k, k < count ∧ (pointer + (k + 1)) % count = i := by
  refine existsUnique_of_exists_of_unique ?_ fun k k' h h' => ?_
  · rcases Nat.lt_or_ge pointer i with before | after
    · refine ⟨i - pointer - 1, by omega, ?_⟩
      rw [show pointer + (i - pointer - 1 + 1) = i by omega, Nat.mod_eq_of_lt i_lt]
    · refine ⟨i + count - pointer - 1, by omega, ?_⟩
      rw [show pointer + (i + count - pointer - 1 + 1) = i + count by omega, Nat.add_mod_right,
        Nat.mod_eq_of_lt i_lt]
  · have same : pointer + (k + 1) ≡ pointer + (k' + 1) [MOD count] := h.2.trans h'.2.symm
    have back : k ≡ k' [MOD count] :=
      Nat.ModEq.add_right_cancel' 1 (Nat.ModEq.add_left_cancel' pointer same)
    exact back.eq_of_lt_of_lt h.1 h'.1

/-! ## Whole runs -/

/-- Since the pointer was last put somewhere it has turned once for every step. -/
theorem pointer_of_lastPut (put : LastPut count moves len base after)
    (turn : ∀ m ∈ after, m.Turns len) :
    ((start count).run moves).count = len ∧
      (len ≠ 0 → (((start count).run moves).pointer : ℤ) =
        (base + after.count (.step .forward) - after.count (.step .backward)) % len) := by
  cases put with
  | start =>
    exact ⟨count_run turn, fun filled =>
      pointer_run (upright_start count) filled turn⟩
  | restart before =>
    rw [run_append, run_cons]
    exact ⟨@count_run (start len) _ turn, fun filled =>
      pointer_run (upright_start len) filled turn⟩
  | select before i after lt =>
    rw [run_append, run_cons, move_select_of_lt lt]
    exact ⟨@count_run (land _ base) _ turn, fun filled =>
      pointer_run (upright_land lt) filled turn⟩

/-- What holds of a navigator that began with `count` matches, when the moves have been made. -/
structure TurnsRing (count : ℕ) (moves : List Move) (nav : Navigator) : Prop where
  /-- The pointer is at a match if there is one. -/
  lt : nav.count ≠ 0 → nav.pointer < nav.count
  /-- Nothing is emphasized but the match that the pointer is at. -/
  current : nav.current = none ∨ nav.current = nav.position
  /-- Nothing was too large for a machine word, or less than zero. -/
  words : moves.foldlM moveInWords (start count) = some nav
  select : ∀ i, nav.count ≤ i → nav.select i = (none, nav)
  empty : nav.count = 0 → ∀ dir, nav.step dir = (none, nav)
  place : ∀ len base after, LastPut count moves len base after → (∀ m ∈ after, m.Turns len) →
    nav.count = len ∧ (len ≠ 0 → (nav.pointer : ℤ) =
      (base + after.count (.step .forward) - after.count (.step .backward)) % len)
  order : ∀ after after' : List Move, (∀ m ∈ after, m.Turns nav.count) → after.Perm after' →
    nav.run after = nav.run after'
  /-- A lap forward emphasizes every match once, and ends where it began. -/
  lap : nav.count ≠ 0 →
    (nav.run (List.replicate nav.count (.step .forward))).pointer = nav.pointer ∧
    ∀ i < nav.count, ∃! k, k < nav.count ∧
      (nav.run (List.replicate (k + 1) (.step .forward))).current = some i

/-- Moves in any order turn the pointer around the ring of matches. -/
theorem moves_turn_ring (small : count < 2 ^ 63)
    (restarts : ∀ n, .restart n ∈ moves → n < 2 ^ 63) :
    TurnsRing count moves ((start count).run moves) := by
  have upright := (upright_start count).run moves
  refine
    { lt := upright.lt
      current := upright.current
      words := foldlM_moveInWords (upright_start count) small.le fun n mem => (restarts n mem).le
      select := fun i => select_of_le
      empty := step_of_empty
      place := fun len base after put turn => pointer_of_lastPut put turn
      order := fun after after' turn perm => run_perm upright turn perm
      lap := fun filled => ⟨?_, fun i lt => ?_⟩ }
  · rw [pointer_run_replicate upright filled, Nat.add_mod_right,
      Nat.mod_eq_of_lt (upright.lt filled)]
  · simp only [current_run_replicate upright filled, Option.some_inj]
    exact existsUnique_add_mod (upright.lt filled) lt

/-- Three matches: back over the first, to the second, out of the list, on over the last, and on. -/
theorem moves_turn_ring_three :
    let moves : List Move :=
      [.step .backward, .select 1, .step .forward, .select 3, .step .forward, .step .forward]
    3 < 2 ^ 63 ∧ (∀ n, .restart n ∈ moves → n < 2 ^ 63) ∧ TurnsRing 3 moves ⟨3, 1, some 1⟩ := by
  intro moves
  have small : 3 < 2 ^ 63 := by decide
  have restarts : ∀ n, .restart n ∈ moves → n < 2 ^ 63 := by simp [moves]
  exact ⟨small, restarts, moves_turn_ring small restarts⟩

end Glance.Navigator
