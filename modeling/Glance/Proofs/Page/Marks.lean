import Glance.Page
import Glance.Proofs.Markup.Marks
import Glance.Proofs.Search.Hits

/-!
# Marks of one row

The hits of a search are in order and apart, so the ones a row may show are those that end behind
the beginning of its line and begin before its end. Clipped to the line, they put the same emphasis
on its characters as the hits put on the characters of the text.
-/

namespace Glance

/-- The hit lies on the character at the offset. -/
def Match.Covers (m : Match) (i : ℕ) : Prop :=
  m.start ≤ i ∧ i < m.stop

instance (m : Match) (i : ℕ) : Decidable (m.Covers i) :=
  inferInstanceAs (Decidable (_ ∧ _))

/-- The emphasis of the character at an offset of the text, when `current` is the number of the
emphasized hit. -/
def MatchIndex.emphasisAt (index : MatchIndex) (current : Option ℕ) (i : ℕ) : Markup.Emphasis :=
  if (current.bind index.get?).any fun m => m.Covers i then .current
  else if index.hits.any fun m => m.Covers i then .found
  else .unmarked

namespace Page

variable {current : Option ℕ} {low high i k l : ℕ} {hits : List Match} {a b : Match}

/-! ## Sorted lists -/

theorem takeWhile_eq_filter {α : Type} {p : α → Bool} {l : List α}
    (h : l.Pairwise fun a b => p b → p a) : l.takeWhile p = l.filter p := by
  induction l with
  | nil => rfl
  | cons a l ih =>
    obtain ⟨first, rest⟩ := List.pairwise_cons.mp h
    by_cases here : p a
    · rw [List.takeWhile_cons_of_pos here, List.filter_cons_of_pos here, ih rest]
    · rw [List.takeWhile_cons_of_neg here, List.filter_cons_of_neg here]
      symm
      exact List.filter_eq_nil_iff.mpr fun b mem some => here (first b mem some)

theorem dropWhile_eq_filter {α : Type} {p : α → Bool} {l : List α}
    (h : l.Pairwise fun a b => p b → p a) : l.dropWhile p = l.filter fun a => !p a := by
  induction l with
  | nil => rfl
  | cons a l ih =>
    obtain ⟨first, rest⟩ := List.pairwise_cons.mp h
    by_cases here : p a
    · rw [List.dropWhile_cons_of_pos here, List.filter_cons_of_neg (by simp [here]), ih rest]
    · rw [List.dropWhile_cons_of_neg here, List.filter_cons_of_pos (by simp [here])]
      refine congrArg _ (List.filter_eq_self.mpr fun b mem => ?_).symm
      by_contra some
      exact here (first b mem (by simpa using some))

/-! ## Numbered hits -/

/-- Hits as a search finds them: none is empty, and each ends where the next begins or before. -/
structure Ordered (hits : List Match) : Prop where
  filled : ∀ m ∈ hits, m.start < m.stop
  apart : hits.Pairwise fun a b => a.stop ≤ b.start

theorem ordered_hits (text query : List Char) : Ordered (Search.hits text query) :=
  ⟨fun _ => Search.start_lt_stop_of_mem_hits, Search.pairwise_hits text query⟩

theorem Ordered.zipIdx (ordered : Ordered hits) :
    hits.zipIdx.Pairwise fun a b =>
      a.1.start < a.1.stop ∧ a.1.stop ≤ b.1.start ∧ b.1.start < b.1.stop := by
  have apart : hits.zipIdx.Pairwise fun a b => a.1.stop ≤ b.1.start := by
    rw [← List.pairwise_map (f := Prod.fst) (R := fun a b : Match => a.stop ≤ b.start),
      List.zipIdx_map_fst]
    exact ordered.apart
  exact apart.imp_of_mem fun mem mem' le =>
    ⟨ordered.filled _ (List.fst_mem_of_mem_zipIdx mem), le,
      ordered.filled _ (List.fst_mem_of_mem_zipIdx mem')⟩

/-- No character lies under two hits. -/
theorem Ordered.unique (ordered : Ordered hits) (left : hits[k]? = some a)
    (right : hits[l]? = some b) (on : a.Covers i) (on' : b.Covers i) : k = l := by
  obtain ⟨begins, ends⟩ := on
  obtain ⟨begins', ends'⟩ := on'
  obtain ⟨lt, rfl⟩ := List.getElem?_eq_some_iff.mp left
  obtain ⟨lt', rfl⟩ := List.getElem?_eq_some_iff.mp right
  have apart := List.pairwise_iff_getElem.mp ordered.apart
  rcases lt_trichotomy k l with less | eq | more
  · have := apart k l lt lt' less
    omega
  · exact eq
  · have := apart l k lt' lt more
    omega

/-- The only hit on a character gives it its emphasis. -/
theorem emphasisAt_of_covers {index : MatchIndex} (ordered : Ordered index.hits)
    (known : index.hits[k]? = some a) (on : a.Covers i) :
    index.emphasisAt current i = if current == some k then .current else .found := by
  unfold MatchIndex.emphasisAt
  by_cases emphasized : current = some k
  · subst emphasized
    have here : ((some k).bind index.get?).any (fun m => m.Covers i) := by
      show (index.hits[k]?).any _
      rw [known]
      simpa using on
    rw [if_pos here, if_pos BEq.rfl]
  · have elsewhere : ¬ (current.bind index.get?).any (fun m => m.Covers i) := by
      intro some
      obtain ⟨b, found, on'⟩ := Option.any_eq_true _ _ |>.mp some
      obtain ⟨l, rfl, known'⟩ := Option.bind_eq_some_iff.mp found
      obtain rfl := ordered.unique known known' on (by simpa using on')
      exact emphasized rfl
    have here : index.hits.any fun m => m.Covers i :=
      List.any_eq_true.mpr ⟨a, List.mem_of_getElem? known, by simpa using on⟩
    rw [if_neg elsewhere, if_pos here, if_neg (by simpa using emphasized)]

theorem emphasisAt_of_not_covers {index : MatchIndex}
    (h : ∀ (k : ℕ) (a : Match), index.hits[k]? = some a → ¬ a.Covers i) :
    index.emphasisAt current i = .unmarked := by
  unfold MatchIndex.emphasisAt
  rw [if_neg, if_neg]
  · intro some
    obtain ⟨a, mem, on⟩ := List.any_eq_true.mp some
    obtain ⟨k, known⟩ := List.mem_iff_getElem?.mp mem
    exact h k a known (by simpa using on)
  · intro some
    obtain ⟨a, found, on⟩ := Option.any_eq_true _ _ |>.mp some
    obtain ⟨k, -, known⟩ := Option.bind_eq_some_iff.mp found
    exact h k a known (by simpa using on)

/-! ## The hits a row looks at -/

/-- The hits that are not over at an offset. -/
def notOver (hits : List Match) (offset : ℕ) : Numbered :=
  hits.zipIdx.filter fun hit => offset < hit.1.stop

theorem dropWhile_notOver (ordered : Ordered hits) (le : low ≤ high) :
    (notOver hits low).dropWhile (fun hit => hit.1.stop ≤ high) = notOver hits high := by
  have sorted : (notOver hits low).Pairwise fun a b =>
      decide (b.1.stop ≤ high) → decide (a.1.stop ≤ high) := by
    refine (ordered.zipIdx.filter _).imp fun ⟨_, apart, filled⟩ past => ?_
    rw [decide_eq_true_eq] at past ⊢
    omega
  rw [dropWhile_eq_filter sorted]
  unfold notOver
  rw [List.filter_filter]
  refine List.filter_congr fun hit _ => ?_
  rw [Bool.eq_iff_iff]
  simp only [Bool.and_eq_true, Bool.not_eq_true', decide_eq_true_eq, decide_eq_false_iff_not]
  omega

theorem marksOn_notOver (ordered : Ordered hits) :
    marksOn current low high (notOver hits low) =
      ((notOver hits low).filter fun hit => hit.1.start < high).map (clip current low high) := by
  have sorted : (notOver hits low).Pairwise fun a b =>
      decide (b.1.start < high) → decide (a.1.start < high) := by
    refine (ordered.zipIdx.filter _).imp fun ⟨filled, apart, _⟩ begun => ?_
    rw [decide_eq_true_eq] at begun ⊢
    omega
  unfold marksOn
  rw [takeWhile_eq_filter sorted]

theorem mem_marksOn (ordered : Ordered hits) {m : Markup.Mark} :
    m ∈ marksOn current low high (notOver hits low) ↔
      ∃ k a, hits[k]? = some a ∧ low < a.stop ∧ a.start < high ∧
        clip current low high (a, k) = m := by
  rw [marksOn_notOver ordered, List.mem_map]
  unfold notOver
  constructor
  · rintro ⟨⟨a, k⟩, mem, rfl⟩
    simp only [List.mem_filter, decide_eq_true_eq] at mem
    exact ⟨k, a, List.mk_mem_zipIdx_iff_getElem?.mp mem.1.1, mem.1.2, mem.2, rfl⟩
  · rintro ⟨k, a, known, past, begun, rfl⟩
    refine ⟨(a, k), ?_, rfl⟩
    simp only [List.mem_filter, decide_eq_true_eq]
    exact ⟨⟨List.mk_mem_zipIdx_iff_getElem?.mpr known, past⟩, begun⟩

theorem pairwise_marksOn (ordered : Ordered hits) :
    (marksOn current low high (notOver hits low)).Pairwise Markup.Mark.Before := by
  rw [marksOn_notOver ordered, List.pairwise_map]
  refine ((ordered.zipIdx.filter _).filter _).imp fun ⟨_, apart, _⟩ _ _ => ?_
  show min _ high - low ≤ max _ low - low
  omega

/-- The marks of a row are the hits, seen from the line. -/
theorem emphasisAt_marksOn {index : MatchIndex} (ordered : Ordered index.hits) {j : ℕ}
    (inside : low + j < high) :
    Markup.emphasisAt (marksOn current low high (notOver index.hits low)) j =
      index.emphasisAt current (low + j) := by
  have covers (a : Match) (k : ℕ) :
      (clip current low high (a, k)).Covers j ↔ a.Covers (low + j) := by
    unfold Markup.Mark.Covers Match.Covers clip
    dsimp only
    omega
  by_cases hit : ∃ (k : ℕ) (a : Match), index.hits[k]? = some a ∧ a.Covers (low + j)
  · -- The hit is not over and begins on the line, so it has a mark; no other hit has one here.
    obtain ⟨k, a, known, on⟩ := hit
    have mem : clip current low high (a, k) ∈
        marksOn current low high (notOver index.hits low) := by
      obtain ⟨begins, ends⟩ := on
      exact (mem_marksOn ordered).mpr ⟨k, a, known, by omega, by omega, rfl⟩
    rw [Markup.emphasisAt_eq mem ((covers a k).mpr on), emphasisAt_of_covers ordered known on]
    · rfl
    · intro m' mem' on'
      obtain ⟨l, b, known', -, -, rfl⟩ := (mem_marksOn ordered).mp mem'
      obtain rfl := ordered.unique known known' on ((covers b l).mp on')
      obtain rfl := Option.some.inj (known.symm.trans known')
      rfl
  · rw [Markup.emphasisAt_eq_unmarked, emphasisAt_of_not_covers]
    · exact fun k a known on => hit ⟨k, a, known, on⟩
    · intro m' mem' on'
      obtain ⟨l, b, known', -, -, rfl⟩ := (mem_marksOn ordered).mp mem'
      exact hit ⟨l, b, known', (covers b l).mp on'⟩

end Page

end Glance
