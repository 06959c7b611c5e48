import Glance.Proofs.Page.Rows
import Glance.Proofs.Token.Cut

/-!
# Matching brackets of a file

The brackets of a file stand in one sequence, each with its place: the depth before a bracket is the
one of a file that ends there (`Bracket.depthBefore`), and the depth behind it that of one that ends
behind it. From each bracket to the next the depth is handed on (`Threaded`), over whatever stands
between them and from line to line.

Where no closer is without its opener the depth counts brackets: an opener is not stopped by the
ceiling when there are few enough of them, and a closer not by the floor, since its opener came from
there. So a bracket and the one that closes it have the same depth outside them, and its colour.
-/

namespace Glance

/-- A bracket of a file, in its place. -/
structure Bracket where
  /-- The lines above. -/
  above : List (List Char)
  /-- What stands before it on its line. -/
  start : List Char
  text : List Char
  color : Fin bracketColors
  deriving DecidableEq, Repr

namespace Bracket

def opens (b : Bracket) : Bool := b.text.any Token.isOpener

def closes (b : Bracket) : Bool := b.text.any Token.isCloser

/-- The depth behind a file that ends before the bracket. -/
def depthBefore (lang : Language) (b : Bracket) : BracketDepth :=
  Page.depthAfter lang (b.above ++ [b.start])

/-- The depth behind a file that ends with the bracket. -/
def depthBehind (lang : Language) (b : Bracket) : BracketDepth :=
  Page.depthAfter lang (b.above ++ [b.start ++ b.text])

end Bracket

namespace Page

open Token (Tiles Steps depthThrough)

variable {lang : Language} {depth next last : BracketDepth} {b o c : Bracket}
  {before between after rest : List Bracket} {above lines : List (List Char)}

/-! ## The brackets of a file -/

/-- The brackets among tokens that stand behind `start` on their line. -/
def bracketsFrom (above : List (List Char)) (start : List Char) : List Token → List Bracket
  | [] => []
  | t :: rest =>
    match t.kind with
    | .bracket color => ⟨above, start, t.text, color⟩ :: bracketsFrom above (start ++ t.text) rest
    | _ => bracketsFrom above (start ++ t.text) rest

/-- The brackets of lines below others, from first to last. -/
def bracketsBelow (lang : Language) : (above : List (List Char)) → List (List Char) → List Bracket
  | _, [] => []
  | above, line :: rest =>
    bracketsFrom above [] (Token.scan lang (depthAfter lang above) line).1 ++
      bracketsBelow lang (above ++ [line]) rest

/-- The brackets of a file. -/
def brackets (lang : Language) (lines : List (List Char)) : List Bracket :=
  bracketsBelow lang [] lines

/-- The first closer behind an opener such that the brackets between the two balance. -/
structure Matching (o : Bracket) (between : List Bracket) (c : Bracket) : Prop where
  opens : o.opens
  closes : c.closes
  balanced : between.countP Bracket.opens = between.countP Bracket.closes
  first : ∀ u b v, between = u ++ b :: v → b.closes →
    u.countP Bracket.opens ≠ u.countP Bracket.closes

/-! ## From bracket to bracket -/

/-- From the first depth to the last, each bracket takes its step from the depth before it to the
depth behind it, which is the depth before the next one. -/
inductive Threaded (lang : Language) : BracketDepth → List Bracket → BracketDepth → Prop
  | nil {depth : BracketDepth} : Threaded lang depth [] depth
  | cons {depth last : BracketDepth} {b : Bracket} {rest : List Bracket} :
    b.depthBefore lang = depth → Steps depth ⟨.bracket b.color, b.text⟩ (b.depthBehind lang) →
    Threaded lang (b.depthBehind lang) rest last → Threaded lang depth (b :: rest) last

theorem Threaded.append (first : Threaded lang depth before next)
    (second : Threaded lang next after last) : Threaded lang depth (before ++ after) last := by
  induction first with
  | nil => exact second
  | cons place steps _ ih => exact .cons place steps (ih second)

theorem Threaded.split (threaded : Threaded lang depth (before ++ after) last) :
    ∃ next, Threaded lang depth before next ∧ Threaded lang next after last := by
  induction before generalizing depth with
  | nil => exact ⟨depth, .nil, threaded⟩
  | cons b before ih =>
    rw [List.cons_append] at threaded
    cases threaded with
    | cons place steps threaded =>
      obtain ⟨next, first, second⟩ := ih threaded
      exact ⟨next, .cons place steps first, second⟩

theorem depthAfter_concat (lang : Language) (above : List (List Char)) (line : List Char) :
    depthAfter lang (above ++ [line]) = (Token.scan lang (depthAfter lang above) line).2 := by
  unfold depthAfter
  rw [List.foldl_append]
  rfl

theorem threaded_bracketsFrom (done tokens : List Token) {last : BracketDepth}
    (tiles : Tiles lang [] (depthAfter lang above) (done ++ tokens) last) :
    Threaded lang (depthThrough (depthAfter lang above) done)
      (bracketsFrom above (done.flatMap Token.text) tokens) last := by
  induction tokens generalizing done with
  | nil =>
    rw [List.append_nil] at tiles
    rw [tiles.last_eq]
    exact .nil
  | cons t tokens ih =>
    have threaded := ih (done ++ [t]) (by rwa [List.append_assoc])
    rw [List.flatMap_append, List.flatMap_singleton] at threaded
    rw [bracketsFrom]
    split
    · rename_i color kind
      obtain ⟨before, behind, steps⟩ := Token.scan_bracket kind tiles
      rw [← depthAfter_concat] at before behind
      have same : (⟨.bracket color, t.text⟩ : Token) = t := by rw [← kind]
      refine .cons before ?_ (by rwa [Bracket.depthBehind, behind])
      rw [same, Bracket.depthBehind, behind]
      exact steps
    · rename_i plain
      have same : Token.depthBehind (depthThrough (depthAfter lang above) done) t =
          depthThrough (depthAfter lang above) done := by
        unfold Token.depthBehind
        split
        · rename_i color kind
          exact absurd kind (plain color)
        · rfl
      rwa [depthThrough, List.foldl_append, List.foldl_cons, List.foldl_nil, ← depthThrough,
        same] at threaded

theorem threaded_bracketsBelow (lang : Language) (above lines : List (List Char)) :
    Threaded lang (depthAfter lang above) (bracketsBelow lang above lines)
      (depthAfter lang (above ++ lines)) := by
  induction lines generalizing above with
  | nil =>
    rw [List.append_nil]
    exact .nil
  | cons line lines ih =>
    have tiles := (Token.tiles_scan lang (depthAfter lang above) (.nil line)).2
    have first := threaded_bracketsFrom [] _ tiles
    rw [← depthAfter_concat] at first
    have rest := ih (above ++ [line])
    rw [List.append_assoc] at rest
    exact first.append rest

/-! ## Counting -/

/-- An opener has the colour of the depth before it, and a closer that of the depth behind it. -/
theorem turn_cases (steps : Steps depth ⟨.bracket b.color, b.text⟩ next) :
    (b.opens ∧ ¬ b.closes ∧ next = depth.opened ∧ b.color = depth.color) ∨
      (b.closes ∧ ¬ b.opens ∧ next = depth.closed ∧ b.color = next.color) := by
  obtain ⟨above, start, text, color⟩ := b
  unfold Bracket.opens Bracket.closes
  cases steps with
  | opener opener =>
    refine .inl ⟨by simpa using opener, ?_, rfl, rfl⟩
    simpa using Token.not_isCloser_of_isOpener opener
  | closer closer =>
    refine .inr ⟨by simpa using closer, ?_, rfl, rfl⟩
    simpa using fun opener => Token.not_isCloser_of_isOpener opener closer
  | other no => exact absurd rfl (no color)

variable {bs : List Bracket}

/-- The depth stays above the floor, and openers alone make it grow. -/
theorem Threaded.bounds (threaded : Threaded lang depth bs last)
    (low : BracketDepth.floor ≤ depth.value) :
    BracketDepth.floor ≤ last.value ∧ last.value ≤ depth.value + bs.countP Bracket.opens := by
  induction threaded with
  | nil => simp [low]
  | cons _ steps _ ih =>
    rcases turn_cases steps with ⟨opens, -, next, -⟩ | ⟨-, opens, next, -⟩
    · rw [List.countP_cons_of_pos opens]
      rw [next] at ih
      simp only [BracketDepth.opened, BracketDepth.floor, BracketDepth.ceiling] at *
      omega
    · rw [List.countP_cons_of_neg opens]
      rw [next] at ih
      simp only [BracketDepth.closed, BracketDepth.floor] at *
      omega

/-- Brackets that reach neither the ceiling nor the floor are counted. -/
theorem Threaded.counts (threaded : Threaded lang depth bs last)
    (room : depth.value + bs.countP Bracket.opens ≤ BracketDepth.ceiling)
    (low : ∀ u, u <+: bs → BracketDepth.floor + u.countP Bracket.closes ≤
      depth.value + u.countP Bracket.opens) :
    last.value + bs.countP Bracket.closes = depth.value + bs.countP Bracket.opens := by
  induction threaded with
  | nil => rfl
  | @cons depth last b rest _ steps _ ih =>
    have low' (u : List Bracket) (begins : u <+: rest) := low (b :: u) (by simpa using begins)
    rcases turn_cases steps with ⟨opens, closes, next, -⟩ | ⟨closes, opens, next, -⟩
    · simp only [List.countP_cons_of_pos opens, List.countP_cons_of_neg closes] at room low' ⊢
      have value : (b.depthBehind lang).value = depth.value + 1 := by
        rw [next, BracketDepth.opened]
        exact min_eq_left (by omega)
      rw [value] at ih
      have behind := ih (by omega) fun u begins => by have := low' u begins; omega
      omega
    · simp only [List.countP_cons_of_pos closes, List.countP_cons_of_neg opens] at room low' ⊢
      have value : (b.depthBehind lang).value = depth.value - 1 := by
        have := low' [] (List.nil_prefix)
        rw [next, BracketDepth.closed]
        exact max_eq_left (by simp at this; omega)
      rw [value] at ih
      have behind := ih (by omega) fun u begins => by have := low' u begins; omega
      omega

/-! ## Matching brackets -/

/-- No closer between the two brackets is without its opener. -/
theorem Matching.closers_le (matching : Matching o between c) {u : List Bracket}
    (begins : u <+: between) : u.countP Bracket.closes ≤ u.countP Bracket.opens := by
  induction u using List.reverseRecOn with
  | nil => simp
  | append_singleton u b ih =>
    obtain ⟨v, rfl⟩ := begins
    have le := ih ⟨b :: v, by simp⟩
    rw [List.countP_append, List.countP_append]
    by_cases closes : b.closes
    · have ne := matching.first u b v (by simp) closes
      rw [List.countP_cons_of_pos closes]
      simp
      omega
    · rw [List.countP_cons_of_neg closes]
      simp
      omega

/-- From an opener to the bracket that closes it the depth comes back to where it was. -/
theorem Threaded.matching (threaded : Threaded lang depth (o :: between ++ [c]) last)
    (matching : Matching o between c) (low : BracketDepth.floor ≤ depth.value)
    (room : depth.value + between.countP Bracket.opens < BracketDepth.ceiling) :
    last = depth ∧ o.depthBefore lang = depth ∧ c.depthBehind lang = last ∧
      o.color = depth.color ∧ c.color = last.color := by
  obtain ⟨inside, first, ends⟩ := threaded.split
  rcases first with _ | ⟨place, steps, -⟩
  rcases ends with _ | ⟨-, steps', nothing⟩
  cases nothing
  obtain ⟨opens, closes, -, color⟩ | ⟨-, opens, -⟩ := turn_cases steps
  swap
  · exact absurd matching.opens opens
  obtain ⟨-, closes', -⟩ | ⟨closes', opens', -, color'⟩ := turn_cases steps'
  · exact absurd matching.closes closes'
  have openers : (o :: between ++ [c]).countP Bracket.opens =
      between.countP Bracket.opens + 1 := by
    rw [List.countP_append, List.countP_cons_of_pos opens, List.countP_cons_of_neg opens']
    rfl
  have closers : (o :: between ++ [c]).countP Bracket.closes =
      between.countP Bracket.closes + 1 := by
    rw [List.countP_append, List.countP_cons_of_neg closes, List.countP_cons_of_pos closes']
    rfl
  have counts := threaded.counts (by rw [openers]; omega) ?_
  · rw [openers, closers, matching.balanced] at counts
    have value : (c.depthBehind lang).value = depth.value := by omega
    exact ⟨congrArg BracketDepth.mk value, place, rfl, color, color'⟩
  · intro u begins
    rcases List.prefix_concat_iff.mp begins with rfl | begins
    · rw [openers, closers, matching.balanced]
      omega
    · rcases List.prefix_cons_iff.mp begins with rfl | ⟨u, rfl, inner⟩
      · simpa using low
      · have := matching.closers_le inner
        rw [List.countP_cons_of_pos opens, List.countP_cons_of_neg closes]
        omega

/-- A bracket and the one that closes it have one colour, and the depth outside them is the same,
whatever stands between them and before them. -/
theorem matching_brackets_agree {lang : Language} {lines : List (List Char)}
    {before between after : List Bracket} {o c : Bracket}
    (few : (brackets lang lines).countP Bracket.opens < 2 ^ 31 - 1)
    (found : brackets lang lines = before ++ o :: (between ++ c :: after))
    (matching : Matching o between c) :
    o.color = c.color ∧ c.depthBehind lang = o.depthBefore lang := by
  have threaded : Threaded lang .zero (brackets lang lines) (depthAfter lang lines) :=
    threaded_bracketsBelow lang [] lines
  rw [found] at threaded few
  obtain ⟨outside, front, threaded⟩ := threaded.split
  obtain ⟨low, high⟩ := front.bounds (by decide)
  rw [← List.cons_append, List.append_cons] at threaded
  obtain ⟨last, pair, -⟩ := threaded.split
  have room : outside.value + between.countP Bracket.opens < BracketDepth.ceiling := by
    simp only [List.countP_append, List.countP_cons] at few
    simp only [BracketDepth.zero, BracketDepth.ceiling] at high ⊢
    omega
  obtain ⟨rfl, place, behind, color, color'⟩ := pair.matching matching low room
  exact ⟨color.trans color'.symm, behind.trans place.symm⟩

/-- Two closers without openers, then a call over three lines with a closer in a text and one in a
comment. -/
theorem matching_brackets_agree_call :
    let lines := [")]".toList, "f(\")\", x[".toList, "0]) // )".toList]
    ∃ before o between c after,
      (brackets .rust lines).countP Bracket.opens < 2 ^ 31 - 1 ∧
      brackets .rust lines = before ++ o :: (between ++ c :: after) ∧ Matching o between c ∧
      o.color = c.color ∧ c.depthBehind .rust = o.depthBefore .rust := by
  intro lines
  let o : Bracket := ⟨[")]".toList], "f".toList, "(".toList, 0⟩
  let x : Bracket := ⟨[")]".toList], "f(\")\", x".toList, "[".toList, 0⟩
  let y : Bracket := ⟨[")]".toList, "f(\")\", x[".toList], "0".toList, "]".toList, 0⟩
  let c : Bracket := ⟨[")]".toList, "f(\")\", x[".toList], "0]".toList, ")".toList, 0⟩
  have few : (brackets .rust lines).countP Bracket.opens < 2 ^ 31 - 1 := by decide +kernel
  have found : brackets .rust lines =
      [⟨[], [], ")".toList, 0⟩, ⟨[], ")".toList, "]".toList, 0⟩] ++ o :: ([x, y] ++ c :: []) := by
    decide +kernel
  have matching : Matching o [x, y] c := by
    refine ⟨rfl, rfl, rfl, ?_⟩
    intro u b v eq closes
    rcases u with _ | ⟨a, _ | ⟨a', u⟩⟩
    · obtain ⟨rfl, -⟩ := List.cons.inj eq
      exact absurd closes (by decide)
    · obtain ⟨rfl, -⟩ := List.cons.inj eq
      decide
    · simp at eq
  exact ⟨_, o, [x, y], c, [], few, found, matching, matching_brackets_agree few found matching⟩

end Page

end Glance
