import Glance.Proofs.Navigator
import Glance.Proofs.Search.Hits
import Glance.Proofs.Viewer.Request

/-!
# The search state of a viewer

Content, query, index and navigator are four fields that different requests change. `Fresh` ties
them together: the index is the one a new search would give, and the navigator points into it. Every
request keeps a fresh viewer fresh, so a whole run does, and what is emphasized can be told from the
moments of the run alone.
-/

namespace Glance.Viewer

variable {σ : Type} {v : Viewer σ}

/-! ## The invariant -/

/-- The search belongs to what is open, and the navigator to the search. -/
structure Fresh (v : Viewer σ) : Prop where
  index_eq : v.index = indexOf v.content v.query
  count_eq : v.navigator.count = v.index.count
  pointer_lt : 0 < v.navigator.count → v.navigator.pointer < v.navigator.count
  current_eq : ∀ i, v.navigator.current = some i → i = v.navigator.pointer ∧ 0 < v.navigator.count

/-- Equal search fields are fresh together. -/
theorem Fresh.congr {w : Viewer σ} (h : Fresh v) (index : w.index = v.index)
    (content : indexOf w.content w.query = indexOf v.content v.query)
    (navigator : w.navigator = v.navigator) : Fresh w where
  index_eq := by rw [index, content, h.index_eq]
  count_eq := by rw [navigator, index, h.count_eq]
  pointer_lt := by rw [navigator]; exact h.pointer_lt
  current_eq := by rw [navigator]; exact h.current_eq

theorem fresh_search (v : Viewer σ) : Fresh v.search where
  index_eq := rfl
  count_eq := rfl
  pointer_lt := id
  current_eq := by
    intro i h
    cases h

theorem fresh_start [Store σ] (store : σ) (config : Config) : Fresh (start store config) where
  index_eq := rfl
  count_eq := rfl
  pointer_lt := id
  current_eq := by
    intro i h
    cases h

theorem fresh_present (v : Viewer σ) (content : Content) : Fresh (v.present content) :=
  (fresh_search { v with content := some content }).congr rfl rfl rfl

/-! ## Requests keep it -/

theorem Fresh.showFile [Store σ] (h : Fresh v) (file : OpenedFile) : Fresh (v.showFile file).2 := by
  cases file with
  | text path content token => exact fresh_present _ _
  | image path image token => exact fresh_present _ _
  | failed path message => exact h.congr rfl rfl rfl

theorem Fresh.setQuery (h : Fresh v) (query : List Char) : Fresh (v.setQuery query) := by
  unfold Viewer.setQuery
  split_ifs
  · exact h
  · exact fresh_search _

/-- A navigator that landed on match `i` points to it. -/
theorem Fresh.land (h : Fresh v) {i : Nat} (lt : i < v.navigator.count) :
    Fresh { v with navigator := { v.navigator with pointer := i, current := some i } } where
  index_eq := h.index_eq
  count_eq := h.count_eq
  pointer_lt := fun _ => lt
  current_eq := by
    intro j hj
    cases hj
    exact ⟨rfl, Nat.zero_lt_of_lt lt⟩

theorem Fresh.step (h : Fresh v) (dir : Direction) : Fresh (v.step dir).2 := by
  unfold Viewer.step Navigator.step
  split_ifs with empty
  · exact h
  · exact h.land (Navigator.advance_lt (Nat.pos_of_ne_zero empty) dir)

theorem Fresh.select (h : Fresh v) (i : Nat) : Fresh (v.select i).2 := by
  unfold Viewer.select Navigator.select
  split_ifs with outside
  · exact h
  · exact h.land (Nat.lt_of_not_le outside)

theorem Fresh.setLanguage (h : Fresh v) (lang : Language) : Fresh (v.setLanguage lang).2 := by
  obtain same | ⟨path, doc, old, content, eq⟩ := setLanguage_cases v lang
  · rw [same]
    exact h
  · rw [eq]
    exact h.congr rfl (by rw [content]; rfl) rfl

theorem Fresh.respond [Store σ] (h : Fresh v) (request : Request) :
    Fresh (v.respond request).2 := by
  by_cases opening : request.IsOpening
  · obtain ⟨answer, eq, ⟨file, rfl⟩ | ⟨rfl, -⟩⟩ := opening_cases v opening <;> rw [eq]
    · exact h.showFile file
    · exact h
  cases request with
  | close => exact fresh_search _
  | setLanguage lang => exact h.setLanguage lang
  | setQuery query => exact h.setQuery query
  | step dir => exact h.step dir
  | select i => exact h.select i
  | setViewport area => exact h.congr rfl rfl rfl
  | copyPath clipboard =>
    obtain ⟨result, -, same | eq⟩ := respond_copyPath_cases v clipboard
    · rw [same]
      exact h
    · rw [eq]
      exact h.congr rfl rfl rfl
  | adjust a =>
    show Fresh (v.adjust a)
    rw [adjust_eq_prefer]
    exact h.congr rfl rfl rfl
  | clearRecents => exact h.congr rfl rfl rfl
  | _ => exact (opening trivial).elim

theorem fresh_run [Store σ] (store : σ) (config : Config) (requests : List Request) :
    Fresh ((start store config).run requests) :=
  run_induction (fun _ request h => h.respond request) (fresh_start store config) requests

/-! ## Matches of a fresh viewer -/

theorem Fresh.get?_current (h : Fresh v) {i : Nat} (current : v.navigator.current = some i) :
    (v.index.get? i).isSome := by
  obtain ⟨rfl, pos⟩ := h.current_eq i current
  have lt := h.pointer_lt pos
  rw [h.count_eq] at lt
  unfold MatchIndex.get?
  rw [List.getElem?_eq_getElem lt]
  rfl

theorem Fresh.isSome_currentMatch (h : Fresh v) :
    v.currentMatch.isSome ↔ v.navigator.current.isSome := by
  unfold currentMatch
  cases current : v.navigator.current with
  | none => simp
  | some i => simpa using h.get?_current current

theorem mem_hits_of_currentMatch {m : Match} (h : v.currentMatch = some m) : m ∈ v.index.hits := by
  obtain ⟨i, -, get⟩ := Option.bind_eq_some_iff.mp h
  exact List.mem_of_getElem? get

section TextOpen

variable {path : String} {doc : Document} {lang : Language}

theorem Fresh.hits_eq (h : Fresh v) (text : v.content = some (.text path doc lang)) :
    v.index.hits = Search.hits doc.text v.query := by
  rw [h.index_eq, text]
  rfl

/-- A match of the open text lies on a line of it. -/
theorem Fresh.lineOfChar_start (h : Fresh v) (text : v.content = some (.text path doc lang))
    {m : Match} (mem : m ∈ v.index.hits) :
    doc.lineOfChar m.start = .ok ((doc.text.take m.start).count '\n') := by
  rw [h.hits_eq text] at mem
  have le := Search.stop_le_of_mem_hits mem
  have lt := Search.start_lt_stop_of_mem_hits mem
  unfold Document.lineOfChar
  rw [if_neg (by omega)]

theorem Fresh.isSome_currentLine (h : Fresh v) (text : v.content = some (.text path doc lang))
    (some : v.currentMatch.isSome) : v.currentLine.isSome := by
  obtain ⟨m, current⟩ := Option.isSome_iff_exists.mp some
  have line := h.lineOfChar_start text (mem_hits_of_currentMatch current)
  unfold currentLine
  rw [text, current]
  simp only [line]
  rfl

/-- The list of matches never falls back on line 0. -/
theorem Fresh.matchRows_eq (h : Fresh v) (text : v.content = some (.text path doc lang)) :
    (Session.matchRows v).map Session.MatchRow.hit = v.index.hits ∧
      ∀ row ∈ Session.matchRows v, doc.lineOfChar row.hit.start = .ok row.line := by
  unfold Session.matchRows
  rw [text]
  constructor
  · simp [Function.comp_def]
  · intro row mem
    obtain ⟨m, hit, rfl⟩ := List.mem_map.mp mem
    simp only [h.lineOfChar_start text hit]
    rfl

end TextOpen

/-! ## What is emphasized -/

/-- A step or a selection led to a match. -/
def Moment.Lands (m : Moment σ) : Prop :=
  ∃ i, m.response = .landed (some i)

/-- What is open was replaced or closed, or another query was asked for. -/
def Moment.Restarts (m : Moment σ) : Prop :=
  m.response = .opening (.ok .opened) ∨ m.request = .close ∨
    ∃ query, m.request = .setQuery query ∧ query ≠ m.viewer.query

/-- A match was landed on, and nothing restarted the search since. -/
def Emphasized (past : List (Moment σ)) : Prop :=
  ∃ before m after, past = before ++ m :: after ∧ m.Lands ∧ ∀ n ∈ after, ¬ n.Restarts

theorem emphasized_cons (m : Moment σ) (rest : List (Moment σ)) :
    Emphasized (m :: rest) ↔ (m.Lands ∧ ∀ n ∈ rest, ¬ n.Restarts) ∨ Emphasized rest := by
  constructor
  · rintro ⟨before, n, after, eq, lands, quiet⟩
    cases before with
    | nil =>
      obtain ⟨rfl, rfl⟩ := List.cons.inj eq
      exact .inl ⟨lands, quiet⟩
    | cons first before =>
      obtain ⟨rfl, rfl⟩ := List.cons.inj eq
      exact .inr ⟨before, n, after, rfl, lands, quiet⟩
  · rintro (⟨lands, quiet⟩ | ⟨before, n, after, rfl, lands, quiet⟩)
    · exact ⟨[], m, rest, rfl, lands, quiet⟩
    · exact ⟨m :: before, n, after, rfl, lands, quiet⟩

/-- What one moment does to the emphasis: it sets it, takes it away, or leaves it as it was. -/
def Moment.Accounts (m : Moment σ) (after : Viewer σ) : Prop :=
  after.navigator.current.isSome ↔ m.Lands ∨ m.viewer.navigator.current.isSome ∧ ¬ m.Restarts

theorem Moment.accounts_of_restarts {m : Moment σ} {after : Viewer σ} (lands : ¬ m.Lands)
    (restarts : m.Restarts) (none : after.navigator.current = none) : m.Accounts after := by
  simp [Accounts, lands, restarts, none]

theorem Moment.accounts_of_same {m : Moment σ} {after : Viewer σ} (lands : ¬ m.Lands)
    (restarts : ¬ m.Restarts) (same : after.navigator = m.viewer.navigator) :
    m.Accounts after := by
  simp [Accounts, lands, restarts, same]

theorem not_lands_opening (v : Viewer σ) (request : Request)
    (outcome : Except ViewerError Outcome) :
    ¬ Moment.Lands ⟨v, request, .opening outcome⟩ := by
  rintro ⟨i, h⟩
  cases h

theorem restarts_opening (v : Viewer σ) {request : Request} (opening : request.IsOpening)
    (outcome : Except ViewerError Outcome) :
    Moment.Restarts ⟨v, request, .opening outcome⟩ ↔ outcome = .ok .opened := by
  constructor
  · rintro (h | h | ⟨query, h, -⟩)
    · cases h
      rfl
    · cases h
      exact opening.elim
    · cases h
      exact opening.elim
  · rintro rfl
    exact .inl rfl

theorem accounts_opening [Store σ] (v : Viewer σ) {request : Request}
    (opening : request.IsOpening) :
    Moment.Accounts ⟨v, request, (v.respond request).1⟩ (v.respond request).2 := by
  obtain ⟨answer, eq, ⟨file, rfl⟩ | ⟨same, declined⟩⟩ := opening_cases v opening <;> rw [eq]
  · cases file with
    | failed path message =>
      refine Moment.accounts_of_same (not_lands_opening _ _ _) ?_ rfl
      rw [restarts_opening v opening]
      intro h
      cases h
    | _ =>
      refine Moment.accounts_of_restarts (not_lands_opening _ _ _) ?_ rfl
      rw [restarts_opening v opening]
      rfl
  · refine Moment.accounts_of_same (not_lands_opening _ _ _) ?_ (by rw [same])
    rw [restarts_opening v opening]
    rcases declined with h | ⟨cause, h⟩ <;> rw [h] <;> intro h <;> cases h

/-- A moment with neither of the three kinds of restart is quiet. -/
theorem not_restarts {v : Viewer σ} {request : Request} {response : Response}
    (opened : response ≠ .opening (.ok .opened)) (close : request ≠ .close)
    (query : ∀ q, request = .setQuery q → q = v.query) :
    ¬ Moment.Restarts ⟨v, request, response⟩ := by
  rintro (h | h | ⟨q, h, ne⟩)
  · exact opened h
  · exact close h
  · exact ne (query q h)

theorem accounts_setQuery [Store σ] (v : Viewer σ) (query : List Char) :
    Moment.Accounts ⟨v, .setQuery query, .done⟩ (v.setQuery query) := by
  have lands : ¬ Moment.Lands ⟨v, .setQuery query, .done⟩ := by
    rintro ⟨i, h⟩
    cases h
  unfold setQuery
  split_ifs with same
  · refine Moment.accounts_of_same lands (not_restarts nofun nofun ?_) rfl
    intro q h
    cases h
    exact same.symm
  · exact Moment.accounts_of_restarts lands (.inr (.inr ⟨query, rfl, Ne.symm same⟩)) rfl

theorem accounts_step (v : Viewer σ) (dir : Direction) :
    Moment.Accounts ⟨v, .step dir, .landed (v.step dir).1⟩ (v.step dir).2 := by
  unfold Viewer.step Navigator.step
  split_ifs
  · exact Moment.accounts_of_same nofun (not_restarts nofun nofun nofun) rfl
  · exact iff_of_true rfl (.inl ⟨_, rfl⟩)

theorem accounts_select (v : Viewer σ) (i : Nat) :
    Moment.Accounts ⟨v, .select i, .landed (v.select i).1⟩ (v.select i).2 := by
  unfold Viewer.select Navigator.select
  split_ifs
  · exact Moment.accounts_of_same nofun (not_restarts nofun nofun nofun) rfl
  · exact iff_of_true rfl (.inl ⟨_, rfl⟩)

theorem accounts_respond [Store σ] (v : Viewer σ) (request : Request) :
    Moment.Accounts ⟨v, request, (v.respond request).1⟩ (v.respond request).2 := by
  by_cases opening : request.IsOpening
  · exact accounts_opening v opening
  cases request with
  | close => exact Moment.accounts_of_restarts nofun (.inr (.inl rfl)) rfl
  | setQuery query => exact accounts_setQuery v query
  | step dir => exact accounts_step v dir
  | select i => exact accounts_select v i
  | setLanguage lang =>
    refine Moment.accounts_of_same nofun (not_restarts nofun nofun nofun) ?_
    obtain same | ⟨path, doc, old, -, eq⟩ := setLanguage_cases v lang
    · exact congrArg navigator same
    · have kept := congrArg navigator eq
      exact kept
  | setViewport area =>
    exact Moment.accounts_of_same nofun (not_restarts nofun nofun nofun) rfl
  | copyPath clipboard =>
    obtain ⟨result, response, same | eq⟩ := respond_copyPath_cases v clipboard <;> rw [response]
    · exact Moment.accounts_of_same nofun (not_restarts nofun nofun nofun)
        (congrArg navigator same)
    · have kept := congrArg navigator eq
      exact Moment.accounts_of_same nofun (not_restarts nofun nofun nofun) kept
  | adjust a =>
    refine Moment.accounts_of_same nofun (not_restarts nofun nofun nofun) ?_
    show (v.adjust a).navigator = v.navigator
    rw [adjust_eq_prefer]
    rfl
  | clearRecents => exact Moment.accounts_of_same nofun (not_restarts nofun nofun nofun) rfl
  | _ => exact (opening trivial).elim

/-- Over a run, what the viewer began with counts only as long as nothing restarts the search. -/
theorem isSome_current_run [Store σ] (v : Viewer σ) (requests : List Request) :
    (v.run requests).navigator.current.isSome ↔
      Emphasized (v.moments requests) ∨
        v.navigator.current.isSome ∧ ∀ m ∈ v.moments requests, ¬ m.Restarts := by
  induction requests generalizing v with
  | nil => simp [moments, Emphasized]
  | cons request rest ih =>
    have step := accounts_respond v request
    unfold Moment.Accounts at step
    simp only [run_cons, moments, emphasized_cons, ih, step, List.forall_mem_cons]
    tauto

/-! ## The whole state -/

/-- In every state of every run, the search state is the one that a new search would give, up to
what was emphasized since; and whatever is emphasized has a match and a line. -/
theorem search_state_never_stale [Store σ] (store : σ) (config : Config)
    (requests : List Request) :
    let v := (start store config).run requests
    (∀ path doc lang, v.content = some (.text path doc lang) →
      v.index = .ofText doc.text v.query ∧
      (∀ m ∈ v.index.hits, m.stop ≤ doc.charCount) ∧
      (v.currentMatch.isSome → v.currentLine.isSome) ∧
      (Session.matchRows v).map Session.MatchRow.hit = v.index.hits ∧
      ∀ row ∈ Session.matchRows v, doc.lineOfChar row.hit.start = .ok row.line) ∧
    ((∀ path doc lang, v.content ≠ some (.text path doc lang)) → v.index = .empty) ∧
    v.navigator.count = v.index.count ∧
    (0 < v.index.count → v.navigator.pointer < v.index.count) ∧
    (v.navigator.current = none ∨ v.navigator.current = some v.navigator.pointer) ∧
    (∀ i, v.navigator.current = some i → (v.index.get? i).isSome) ∧
    (v.currentMatch.isSome ↔ Emphasized ((start store config).moments requests)) ∧
    v.setQuery v.query = v ∧ v.search.index = v.index := by
  intro v
  have fresh : Fresh v := fresh_run store config requests
  refine ⟨?_, ?_, fresh.count_eq, ?_, ?_, fun i h => fresh.get?_current h, ?_, ?_, ?_⟩
  · intro path doc lang text
    refine ⟨?_, ?_, fresh.isSome_currentLine text, fresh.matchRows_eq text⟩
    · rw [fresh.index_eq, text]
      rfl
    · intro m mem
      rw [fresh.hits_eq text] at mem
      exact Search.stop_le_of_mem_hits mem
  · intro noText
    rw [fresh.index_eq]
    unfold indexOf
    split
    · rename_i path doc lang text
      exact absurd text (noText path doc lang)
    · rfl
  · rw [← fresh.count_eq]
    exact fresh.pointer_lt
  · cases current : v.navigator.current with
    | none => exact .inl rfl
    | some i => exact .inr (congrArg some (fresh.current_eq i current).1)
  · rw [fresh.isSome_currentMatch, isSome_current_run]
    simp [start, Navigator.start]
  · exact if_pos rfl
  · exact fresh.index_eq.symm

end Glance.Viewer
