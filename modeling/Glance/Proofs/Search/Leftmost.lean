import Glance.Proofs.Search.Hits
import Mathlib

/-!
# The hits are the leftmost occurrences

The query occurs wherever its characters stand in the text, letter case apart; occurrences may
overlap. The scan takes the first one, goes on behind it, and so on. Its hits are the only list of
occurrences from left to right without overlap that leaves no further occurrence untouched
(`hits_eq_leftmost`).

No other choice of occurrences without overlap has more of them (`count_greatest`). Each chosen one
begins inside a hit, and no two of them begin inside the same one: both would hold its last
character.
-/

namespace Glance.Search

variable {needle text query : List Char} {m : Match} {ms others : List Match} {k p : ℕ}

/-! ## Occurrences -/

/-- The characters of the text from `p` on are those of the query, letter case apart. -/
def Occurs (text query : List Char) (p : ℕ) : Prop :=
  ((text.drop p).take query.length).map Text.foldChar = query.map Text.foldChar

instance : DecidablePred (Occurs text query) :=
  fun _ => inferInstanceAs (Decidable (_ = _))

theorem Occurs.length_le (h : Occurs text query p) : query.length ≤ text.length - p := by
  have length := congrArg List.length h
  rw [List.length_map, List.length_map, List.length_take, List.length_drop] at length
  omega

theorem Occurs.isPrefixOf (h : Occurs text query p) :
    (Text.fold query).isPrefixOf ((Text.fold text).drop p) := by
  rw [List.isPrefixOf_iff_prefix, List.prefix_iff_eq_take, Text.length_fold]
  unfold Text.fold
  rw [← List.map_drop, ← List.map_take]
  exact h.symm

theorem occurs_of_mem_hits (h : m ∈ hits text query) :
    m.length = query.length ∧ Occurs text query m.start := by
  have length : m.length = query.length := by
    unfold hits at h
    split_ifs at h
    · simp at h
    · rw [length_of_mem_scan h, Text.length_fold]
  refine ⟨length, ?_⟩
  have same := fold_of_mem_hits h
  rwa [length] at same

/-! ## No occurrence is left out -/

/-- Behind the previous hit, the needle only stands where a hit has begun that is not over. -/
theorem covers_scan (filled : needle ≠ []) {wait pos : ℕ} (behind : pos + wait ≤ p)
    (stands : needle.isPrefixOf (text.drop (p - pos))) :
    ∃ m ∈ scan needle [] wait pos text, m.start ≤ p ∧ p < m.stop := by
  induction text generalizing wait pos with
  | nil =>
    rw [List.drop_nil, List.isPrefixOf_iff_prefix] at stands
    exact absurd (List.prefix_nil.mp stands) filled
  | cons c rest ih =>
    have later {wait : ℕ} (behind : pos + 1 + wait ≤ p) :
        ∃ m ∈ scan needle [] wait (pos + 1) rest, m.start ≤ p ∧ p < m.stop := by
      apply ih behind
      rwa [show p - pos = p - (pos + 1) + 1 by omega, List.drop_succ_cons] at stands
    cases wait with
    | succ wait => exact later (by omega)
    | zero =>
      by_cases hit : needle.isPrefixOf (c :: rest)
      · rw [scan_hit hit]
        by_cases inside : p < pos + needle.length
        · exact ⟨_, .head _, behind, inside⟩
        · have pos_length := List.length_pos_of_ne_nil filled
          obtain ⟨m, mem, covers⟩ := @later (needle.length - 1) (by omega)
          exact ⟨m, .tail _ mem, covers⟩
      · rw [scan_miss hit]
        apply later
        have : p ≠ pos := by
          rintro rfl
          rw [Nat.sub_self] at stands
          exact hit stands
        omega

theorem exists_hit_of_occurs (filled : query ≠ []) (h : Occurs text query p) :
    ∃ m ∈ hits text query, m.start ≤ p ∧ p < m.stop := by
  unfold hits
  rw [if_neg (by simpa using filled)]
  have filled' : Text.fold query ≠ [] := by simpa [Text.fold] using filled
  exact covers_scan filled' (Nat.zero_le p) h.isPrefixOf

/-! ## From left to right -/

/-- Occurrences from offset `k` on, from left to right and without overlap, such that every further
occurrence begins inside one of them. -/
structure Covers (text query : List Char) (k : ℕ) (ms : List Match) : Prop where
  occurs : ∀ m ∈ ms, k ≤ m.start ∧ m.length = query.length ∧ Occurs text query m.start
  ordered : ms.Pairwise fun a b => a.start < b.start ∧ a.stop ≤ b.start
  covered : ∀ p, k ≤ p → Occurs text query p → ∃ m ∈ ms, m.start ≤ p ∧ p < m.stop

/-- Each match begins at the first occurrence behind the one before it, and the first match at the
first occurrence of all. -/
structure Leftmost (text query : List Char) (ms : List Match) : Prop extends
    Covers text query 0 ms where
  first : ∀ before m after, ms = before ++ m :: after →
    (before.getLast?.map Match.stop).getD 0 ≤ m.start ∧
      ∀ p, (before.getLast?.map Match.stop).getD 0 ≤ p → p < m.start → ¬ Occurs text query p

theorem covers_hits (filled : query ≠ []) : Covers text query 0 (hits text query) where
  occurs m mem := ⟨Nat.zero_le _, occurs_of_mem_hits mem⟩
  ordered := by
    refine (pairwise_hits text query).imp_of_mem fun {a b} mem _ apart => ⟨?_, apart⟩
    exact (start_lt_stop_of_mem_hits mem).trans_le apart
  covered _ _ occurs := exists_hit_of_occurs filled occurs

/-- Nothing occurs in front of the first match. -/
theorem Covers.head (h : Covers text query k (m :: ms)) :
    k ≤ m.start ∧ ∀ p, k ≤ p → p < m.start → ¬ Occurs text query p := by
  refine ⟨(h.occurs m (.head _)).1, fun p from_k before occurs => ?_⟩
  obtain ⟨other, mem, start_le, -⟩ := h.covered p from_k occurs
  rcases List.mem_cons.mp mem with rfl | mem
  · omega
  · have := (List.pairwise_cons.mp h.ordered).1 other mem
    omega

theorem Covers.tail (h : Covers text query k (m :: ms)) : Covers text query m.stop ms := by
  obtain ⟨apart, ordered⟩ := List.pairwise_cons.mp h.ordered
  refine ⟨fun other mem => ⟨(apart other mem).2, (h.occurs other (.tail _ mem)).2⟩, ordered,
    fun p behind occurs => ?_⟩
  have start_le := (h.occurs m (.head _)).1
  have stop_eq : m.stop = m.start + m.length := rfl
  obtain ⟨other, mem, covers⟩ := h.covered p (by omega) occurs
  rcases List.mem_cons.mp mem with rfl | mem
  · omega
  · exact ⟨other, mem, covers⟩

theorem Covers.behind {before : List Match} (h : Covers text query k (before ++ ms)) :
    Covers text query ((before.getLast?.map Match.stop).getD k) ms := by
  induction before generalizing k with
  | nil => exact h
  | cons first before ih =>
    have behind := ih h.tail
    cases before with
    | nil => exact behind
    | cons second before => rwa [List.getLast?_cons_cons, List.getLast?_cons] at *

/-- Where nothing occurs any more there is no match. -/
theorem Covers.eq_nil (h : Covers text query k ms)
    (none : ∀ p, k ≤ p → ¬ Occurs text query p) : ms = [] := by
  refine List.eq_nil_iff_forall_not_mem.mpr fun m mem => ?_
  obtain ⟨start_le, -, occurs⟩ := h.occurs m mem
  exact none _ start_le occurs

/-- The first match is the first occurrence, and the others are determined in the same way. -/
theorem Covers.unique (h : Covers text query k ms) (other : Covers text query k others) :
    ms = others := by
  induction ms generalizing k others with
  | nil =>
    refine (other.eq_nil fun p from_k occurs => ?_).symm
    obtain ⟨m, mem, -⟩ := h.covered p from_k occurs
    cases mem
  | cons m ms ih =>
    cases others with
    | nil =>
      refine h.eq_nil fun p from_k occurs => ?_
      obtain ⟨m, mem, -⟩ := other.covered p from_k occurs
      cases mem
    | cons m' others =>
      obtain ⟨start_le, length, occurs⟩ := h.occurs m (.head _)
      obtain ⟨start_le', length', occurs'⟩ := other.occurs m' (.head _)
      have same : m = m' := by
        rw [Match.mk.injEq, length, length']
        refine ⟨le_antisymm ?_ ?_, rfl⟩
        · exact not_lt.mp fun lt => h.head.2 _ start_le' lt occurs'
        · exact not_lt.mp fun lt => other.head.2 _ start_le lt occurs
      subst same
      rw [ih h.tail other.tail]

theorem Covers.leftmost (h : Covers text query 0 ms) : Leftmost text query ms where
  toCovers := h
  first := by
    rintro before m after rfl
    exact h.behind.head

/-- The hits of a query are the leftmost occurrences without overlap, and there is no other such
list. They lie inside the text. -/
theorem hits_eq_leftmost (text query : List Char) :
    (query ≠ [] → ∀ ms, Leftmost text query ms ↔ ms = hits text query) ∧
    (∀ m ∈ hits text query, m.stop ≤ text.length) ∧
    (query = [] ∨ text.length < query.length → hits text query = []) := by
  refine ⟨fun filled ms => ⟨fun h => ?_, ?_⟩, fun m mem => stop_le_of_mem_hits mem, ?_⟩
  · exact h.toCovers.unique (covers_hits filled)
  · rintro rfl
    exact (covers_hits filled).leftmost
  · rintro (rfl | short)
    · rfl
    · refine List.eq_nil_iff_forall_not_mem.mpr fun m mem => ?_
      have := (occurs_of_mem_hits mem).2.length_le
      omega

/-- A query that overlaps itself, behind a character whose small form is longer. -/
theorem hits_eq_leftmost_overlapping :
    let text := ['İ', 'a', 'A', 'a', 'A', 'a']
    let query := ['A', 'A']
    query ≠ [] ∧ Leftmost text query [⟨1, 2⟩, ⟨3, 2⟩] ∧
      ∀ ms, Leftmost text query ms → ms = [⟨1, 2⟩, ⟨3, 2⟩] := by
  intro text query
  have filled : query ≠ [] := by decide
  have found : hits text query = [⟨1, 2⟩, ⟨3, 2⟩] := by decide +kernel
  have leftmost := (hits_eq_leftmost text query).1 filled
  rw [found] at leftmost
  exact ⟨filled, (leftmost _).mpr rfl, fun ms => (leftmost ms).mp⟩

/-! ## As many as possible -/

/-- Occurrences of which no two share a character. -/
structure DisjointOccurrences (text query : List Char) (s : Set ℕ) : Prop where
  occurs : ∀ p ∈ s, Occurs text query p
  apart : s.PairwiseDisjoint fun p => Set.Ico p (p + query.length)

/-- Two occurrences that begin inside the same match share a character or are the same. -/
theorem DisjointOccurrences.eq_of_inside {s : Set ℕ} (h : DisjointOccurrences text query s)
    (length : m.length = query.length) {p q : ℕ} (mem : p ∈ s) (mem' : q ∈ s)
    (inside : m.start ≤ p ∧ p < m.stop) (inside' : m.start ≤ q ∧ q < m.stop) : p = q := by
  unfold Match.stop at inside inside'
  apply h.apart.elim_set mem mem' (max p q)
  · constructor <;> omega
  · constructor <;> omega

theorem apart_of_mem_hits {other : Match} (mem : m ∈ hits text query)
    (mem' : other ∈ hits text query) (ne : m ≠ other) :
    m.stop ≤ other.start ∨ other.stop ≤ m.start := by
  have apart : (hits text query).Pairwise fun a b : Match => a.stop ≤ b.start ∨ b.stop ≤ a.start :=
    (pairwise_hits text query).imp Or.inl
  have : Std.Symm fun a b : Match => a.stop ≤ b.start ∨ b.stop ≤ a.start := ⟨fun _ _ => Or.symm⟩
  exact apart.forall mem mem' ne

/-- The offsets at which the hits begin. -/
def starts (text query : List Char) : Set ℕ :=
  {p | ∃ m ∈ hits text query, m.start = p}

theorem disjoint_starts (text query : List Char) :
    DisjointOccurrences text query (starts text query) where
  occurs := by
    rintro p ⟨m, mem, rfl⟩
    exact (occurs_of_mem_hits mem).2
  apart := by
    rintro p ⟨m, mem, rfl⟩ q ⟨m', mem', rfl⟩ ne
    have apart := apart_of_mem_hits mem mem' fun same => ne (congrArg Match.start same)
    unfold Match.stop at apart
    rw [(occurs_of_mem_hits mem).1, (occurs_of_mem_hits mem').1] at apart
    refine Set.disjoint_left.mpr fun i => ?_
    rintro ⟨from_start, before⟩ ⟨from_start', before'⟩
    omega

/-- Different hits begin at different offsets. -/
theorem encard_starts (text query : List Char) :
    (starts text query).encard = count text query := by
  have injective : ((hits text query).map Match.start).Nodup := by
    refine List.pairwise_map.mpr ((pairwise_hits text query).imp_of_mem fun {a b} mem _ apart => ?_)
    exact ((start_lt_stop_of_mem_hits mem).trans_le apart).ne
  have eq : starts text query = ((hits text query).map Match.start).toFinset := by
    ext p
    simp [starts]
  rw [eq, Set.encard_coe_eq_coe_finsetCard, List.toFinset_card_of_nodup injective, List.length_map]
  rfl

/-- Each occurrence begins inside a hit of its own. -/
theorem DisjointOccurrences.encard_le {s : Set ℕ} (h : DisjointOccurrences text query s)
    (filled : query ≠ []) : s.encard ≤ count text query := by
  have inside : ∀ p ∈ s, ∃ m ∈ hits text query, m.start ≤ p ∧ p < m.stop :=
    fun p mem => exists_hit_of_occurs filled (h.occurs p mem)
  have : Nonempty Match := ⟨⟨0, 0⟩⟩
  choose! hit mem_hits inside using inside
  have injective : s.InjOn hit := by
    intro p mem q mem' same
    refine h.eq_of_inside (occurs_of_mem_hits (mem_hits p mem)).1 mem mem' (inside p mem) ?_
    rw [same]
    exact inside q mem'
  have maps : s.MapsTo hit (hits text query).toFinset := fun p mem => by
    simpa using mem_hits p mem
  calc s.encard ≤ ((hits text query).toFinset : Set Match).encard :=
        Set.encard_le_encard_of_injOn maps injective
    _ = (hits text query).toFinset.card := Set.encard_coe_eq_coe_finsetCard _
    _ ≤ count text query := by exact_mod_cast List.toFinset_card_le _

/-- The number of hits is the greatest number of occurrences without overlap. -/
theorem count_greatest (filled : query ≠ []) :
    IsGreatest (Set.encard '' {s | DisjointOccurrences text query s}) (count text query) := by
  constructor
  · exact ⟨_, disjoint_starts text query, encard_starts text query⟩
  · rintro _ ⟨s, disjoint, rfl⟩
    exact disjoint.encard_le filled

/-- Of the five occurrences of `aba` in a text no more than three are apart. -/
theorem count_greatest_overlapping :
    let text := ['a', 'b', 'a', 'b', 'A', 'b', 'a', 'x', 'a', 'B', 'a', 'b', 'a']
    ['a', 'b', 'a'] ≠ [] ∧
      IsGreatest (Set.encard '' {s | DisjointOccurrences text ['a', 'b', 'a'] s}) 3 := by
  intro text
  have filled : ['a', 'b', 'a'] ≠ [] := by decide
  have found : count text ['a', 'b', 'a'] = 3 := by decide +kernel
  have greatest : IsGreatest _ ((count text ['a', 'b', 'a'] : ℕ) : ℕ∞) := count_greatest filled
  rw [found] at greatest
  exact ⟨filled, by exact_mod_cast greatest⟩

end Glance.Search
