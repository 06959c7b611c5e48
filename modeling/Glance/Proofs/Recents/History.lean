import Glance.Proofs.Recents.Stored

/-!
# The recent files are the newest ten of the history

Of everything opened since the list was cleared, the newest entry of each file counts, and of these
the newest ten. The list remembers no more than that, and yet it always is that: pushing a file
takes at most one other entry out, so none that has left the list before is missed.
-/

namespace Glance.Recents

variable {rs : Recents} {r other : Recent} {files : List Recent}

/-! ## Histories -/

inductive Operation where
  | push (r : Recent)
  | clear

def perform (rs : Recents) : Operation → Recents
  | .push r => rs.push r
  | .clear => .empty

/-- The files pushed since the list was last cleared; the last operation comes first, and so does
the newest file. -/
def sinceClear : List Operation → List Recent
  | [] => []
  | .push r :: earlier => r :: sinceClear earlier
  | .clear :: _ => []

/-- Of files listed with the newest one first, the newest entry of each kind and identifier. -/
def newest (files : List Recent) : List Recent :=
  files.eraseDupsBy fun r newer => r.kind = newer.kind ∧ r.identifier = newer.identifier

/-! ## The newest entry of each file -/

theorem sameFile_iff : r.sameFile other ↔ r.kind = other.kind ∧ r.identifier = other.identifier := by
  unfold Recent.sameFile
  rw [Bool.and_eq_true, decide_eq_true_eq, decide_eq_true_eq]

theorem sameFile_congr {a b : Recent} (same : a.sameFile b) (r : Recent) :
    a.sameFile r = b.sameFile r := by
  obtain ⟨kind, identifier⟩ := sameFile_iff.mp same
  unfold Recent.sameFile
  rw [kind, identifier]

theorem newest_cons_newest (r : Recent) (files : List Recent) :
    newest (r :: files) = r :: newest (files.filter fun other => !other.sameFile r) := by
  unfold newest Recent.sameFile
  rw [List.eraseDupsBy_cons]
  simp only [Bool.decide_and, Bool.decide_eq_false]

/-- Where all entries of a file are kept or none, it does not matter whether the older ones leave
before or after. -/
theorem newest_filter {p : Recent → Bool} (respects : ∀ a b, a.sameFile b → p a = p b)
    (files : List Recent) : newest (files.filter p) = (newest files).filter p := by
  induction h : files.length using Nat.strong_induction_on generalizing files with
  | _ n ih =>
    cases files with
    | nil => rfl
    | cons r files =>
      have shorter : (files.filter fun other => !other.sameFile r).length < n := by
        rw [← h, List.length_cons]
        exact Nat.lt_succ_of_le (List.length_filter_le _ _)
      have others := ih _ shorter _ rfl
      rw [newest_cons_newest]
      by_cases kept : p r
      · rw [List.filter_cons_of_pos kept, List.filter_cons_of_pos kept, newest_cons_newest,
          ← others, List.filter_filter, List.filter_filter]
        simp only [Bool.and_comm]
      · rw [List.filter_cons_of_neg kept, List.filter_cons_of_neg kept, ← others,
          List.filter_filter]
        congr 1
        refine List.filter_congr fun other _ => ?_
        by_cases same : other.sameFile r
        · simp [respects other r same, kept]
        · simp [same]

theorem newest_cons (r : Recent) (files : List Recent) :
    newest (r :: files) = r :: (newest files).filter fun other => !other.sameFile r := by
  rw [newest_cons_newest, newest_filter fun a b same => by rw [sameFile_congr same r]]

theorem pairwise_newest (files : List Recent) :
    (newest files).Pairwise fun a b => a.sameFile b = false := by
  induction files with
  | nil => exact .nil
  | cons r files ih =>
    rw [newest_cons]
    refine List.pairwise_cons.mpr ⟨fun other mem => ?_, ih.filter _⟩
    rw [Recent.sameFile_comm]
    simpa using (List.mem_filter.mp mem).2

/-- No file has two newest entries. -/
theorem length_filter_newest_le (r : Recent) (files : List Recent) :
    ((newest files).filter fun other => other.sameFile r).length ≤ 1 := by
  have apart := (pairwise_newest files).filter fun other => other.sameFile r
  have all (a : Recent) (mem : a ∈ (newest files).filter fun other => other.sameFile r) :
      a.sameFile r := (List.mem_filter.mp mem).2
  match found : (newest files).filter fun other => other.sameFile r with
  | [] | [_] =>
    rw [found]
    simp
  | a :: b :: more =>
    rw [found] at apart all
    have differ := (List.pairwise_cons.mp apart).1 b List.mem_cons_self
    rw [sameFile_congr (all a List.mem_cons_self), Recent.sameFile_comm,
      all b (List.mem_cons_of_mem _ List.mem_cons_self)] at differ
    cases differ

/-! ## What the list keeps -/

/-- When a filter takes out at most one entry, `n + 1` entries are enough to know the first `n` that
stay. -/
theorem take_filter_take {α : Type} {p : α → Bool} {l : List α} (n : ℕ)
    (one : (l.filter fun a => !p a).length ≤ 1) :
    ((l.take (n + 1)).filter p).take n = (l.filter p).take n := by
  by_cases short : l.length ≤ n + 1
  · rw [List.take_of_length_le short]
  · have out : ((l.take (n + 1)).filter fun a => !p a).length ≤ 1 :=
      ((List.take_sublist (n + 1) l).filter _).length_le.trans one
    have count := List.length_eq_length_filter_add (l := l.take (n + 1)) p
    have whole : l.filter p = (l.take (n + 1)).filter p ++ (l.drop (n + 1)).filter p := by
      rw [← List.filter_append, List.take_append_drop]
    rw [List.length_take] at count
    rw [whole, List.take_append_of_le_length (by omega)]

theorem entries_push (h : rs.entries = (newest files).take 10) (r : Recent) :
    (rs.push r).entries = (newest (r :: files)).take 10 := by
  have one : ((newest files).filter fun other => !!other.sameFile r).length ≤ 1 := by
    simpa only [Bool.not_not] using length_filter_newest_le r files
  show (r :: rs.entries.filter fun other => !other.sameFile r).take 10 = _
  rw [newest_cons, List.take_succ_cons, List.take_succ_cons, h, take_filter_take 9 one]

/-- Whatever was done to the list, it is the newest ten of what was pushed since it was cleared. -/
theorem entries_foldl_perform (operations : List Operation) :
    (operations.foldl perform empty).entries =
      (newest (sinceClear operations.reverse)).take 10 := by
  induction operations using List.reverseRecOn with
  | nil => rfl
  | append_singleton earlier last ih =>
    rw [List.foldl_append, List.reverse_append]
    cases last with
    | push r => exact entries_push ih r
    | clear => rfl

theorem proper_foldl_perform (operations : List Operation) :
    (operations.foldl perform empty).Proper := by
  induction operations using List.reverseRecOn with
  | nil => exact proper_empty
  | append_singleton earlier last ih =>
    rw [List.foldl_append]
    cases last with
    | push r => exact ih.push r
    | clear => exact proper_empty

/-! ## Slots and rows -/

theorem inSlot_eq_some_iff {slot : ℕ} :
    rs.inSlot slot = some r ↔ 1 ≤ slot ∧ slot ≤ 9 ∧ rs.entries[slot - 1]? = some r := by
  unfold inSlot slots
  split_ifs with outside
  · constructor
    · nofun
    · omega
  · constructor
    · exact fun h => ⟨by omega, by omega, h⟩
    · exact fun h => h.2.2

/-- Only one slot can address an entry. -/
theorem Proper.inSlot_iff (h : rs.Proper) {i slot : ℕ} (known : rs.entries[i]? = some r) :
    rs.inSlot slot = some r ↔ slot = i + 1 ∧ i < 9 := by
  rw [inSlot_eq_some_iff]
  constructor
  · rintro ⟨pos, le, addressed⟩
    obtain ⟨lt, rfl⟩ := List.getElem?_eq_some_iff.mp known
    obtain ⟨lt', same⟩ := List.getElem?_eq_some_iff.mp addressed
    have apart := List.pairwise_iff_getElem.mp h.distinct
    have self : ∀ a : Recent, a.sameFile a := fun a => sameFile_iff.mpr ⟨rfl, rfl⟩
    rcases lt_trichotomy (slot - 1) i with less | eq | more
    · have differ := apart _ _ lt' lt less
      rw [same, self] at differ
      cases differ
    · omega
    · have differ := apart _ _ lt lt' more
      rw [same, self] at differ
      cases differ
  · rintro ⟨rfl, lt⟩
    exact ⟨by omega, by omega, known⟩

theorem getElem?_rows (rs : Recents) (i : ℕ) :
    rs.rows[i]? = rs.entries[i]?.map fun r =>
      if i < 9 then (i + 1).repr ++ ": " ++ r.displayLabel else "   " ++ r.displayLabel := by
  unfold rows
  rw [List.getElem?_map, List.getElem?_zipIdx, Option.map_map]
  simp only [Nat.zero_add]
  rfl

/-- A number and a colon do not look like the gap in their place. -/
theorem repr_append_ne_gap (slot : ℕ) (label : String) :
    slot.repr ++ ": " ++ label ≠ "   " ++ label := by
  intro eq
  have gap := congrArg String.toList ((String.append_left_inj label).mp eq)
  have two : slot.repr.toList ++ [':', ' '] = [' '] ++ [' ', ' '] :=
    String.toList_append.symm.trans gap
  exact absurd (List.append_inj' two rfl).2 (by decide)

theorem repr_append_inj {slot k : ℕ} {label : String} :
    slot.repr ++ ": " ++ label = k.repr ++ ": " ++ label ↔ slot = k := by
  rw [String.append_left_inj, String.append_left_inj]
  constructor
  · intro eq
    have digits := congrArg String.toList eq
    rw [Nat.toList_repr, Nat.toList_repr] at digits
    calc slot = Nat.ofDigitChars 10 (Nat.toDigits 10 slot) 0 := Nat.ofDigitChars_ten_toDigits.symm
      _ = Nat.ofDigitChars 10 (Nat.toDigits 10 k) 0 := by rw [digits]
      _ = k := Nat.ofDigitChars_ten_toDigits
  · rintro rfl
    rfl

/-- The row of an entry shows the number of its slot, or a gap if it has none. -/
theorem Proper.row_iff (h : rs.Proper) {i : ℕ} (known : rs.entries[i]? = some r) :
    ∃ row, rs.rows[i]? = some row ∧
      (∀ slot, row = slot.repr ++ ": " ++ r.displayLabel ↔ rs.inSlot slot = some r) ∧
      (row = "   " ++ r.displayLabel ↔ ∀ slot, rs.inSlot slot ≠ some r) := by
  refine ⟨_, by rw [getElem?_rows, known]; rfl, ?_⟩
  split_ifs with numbered
  · constructor
    · intro slot
      rw [h.inSlot_iff known, repr_append_inj]
      omega
    · refine iff_of_false (repr_append_ne_gap _ _) fun none => ?_
      exact none (i + 1) ((h.inSlot_iff known).mpr ⟨rfl, numbered⟩)
  · have none (slot : ℕ) : rs.inSlot slot ≠ some r := by
      rw [Ne, h.inSlot_iff known]
      omega
    exact ⟨fun slot => iff_of_false (repr_append_ne_gap _ _).symm (none slot), iff_of_true rfl none⟩

theorem inSlot_eq_none (rs : Recents) {slot : ℕ} (outside : ¬ (1 ≤ slot ∧ slot ≤ min 9 rs.count)) :
    rs.inSlot slot = none := by
  rw [Option.eq_none_iff_forall_ne_some]
  intro r addressed
  obtain ⟨pos, le, known⟩ := inSlot_eq_some_iff.mp addressed
  have lt := (List.getElem?_eq_some_iff.mp known).1
  unfold count at outside
  omega

theorem exists_inSlot (rs : Recents) {slot : ℕ} (pos : 1 ≤ slot) (le : slot ≤ min 9 rs.count) :
    ∃ r, rs.entries[slot - 1]? = some r ∧ rs.inSlot slot = some r := by
  unfold count at le
  have known : rs.entries[slot - 1]? = some rs.entries[slot - 1] :=
    List.getElem?_eq_getElem (by omega)
  exact ⟨_, known, inSlot_eq_some_iff.mpr ⟨pos, by omega, known⟩⟩

/-! ## The whole list -/

/-- After any operations the list holds the newest ten files since it was cleared, the slots from
one to nine address its entries in order, and the list on the screen shows each entry under the
number of its slot. A list that is stored is the outcome of pushing its files. -/
theorem newest_ten_of_history (operations : List Operation) :
    let rs := operations.foldl perform empty
    rs.entries = (newest (sinceClear operations.reverse)).take 10 ∧
      (∀ slot, if 1 ≤ slot ∧ slot ≤ min 9 rs.count
        then ∃ r, rs.entries[slot - 1]? = some r ∧ rs.inSlot slot = some r
        else rs.inSlot slot = none) ∧
      rs.rows.length = rs.count ∧
      (∀ (i : ℕ) (r : Recent), rs.entries[i]? = some r → ∃ row, rs.rows[i]? = some row ∧
        (∀ slot : ℕ, row = slot.repr ++ ": " ++ r.displayLabel ↔ rs.inSlot slot = some r) ∧
        (row = "   " ++ r.displayLabel ↔ ∀ slot, rs.inSlot slot ≠ some r)) ∧
      ∀ {σ : Type} [Store σ] (store : σ) (items : List Json) (files : List Recent),
        Store.get store key = .ok (some (.arr items)) → List.Forall₂ Recent.Stored items files →
          load store = (files.map .push).foldl perform empty := by
  intro rs
  have proper : rs.Proper := proper_foldl_perform operations
  refine ⟨entries_foldl_perform operations, fun slot => ?_, ?_, fun i r known => proper.row_iff known,
    fun store items files get stored => ?_⟩
  · split_ifs with inside
    · exact rs.exists_inSlot inside.1 inside.2
    · exact rs.inSlot_eq_none inside
  · unfold rows count
    rw [List.length_map, List.length_zipIdx]
  · rw [load_of_stored get stored, List.foldl_map]
    rfl

end Glance.Recents
