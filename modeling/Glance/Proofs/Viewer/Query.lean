import Glance.Proofs.Viewer.Request

/-!
# Asking before or behind a request

Another query is a search of what is open with nothing emphasized (`ask`), and so is what every
request that opens or closes something ends in. Nothing of the old search is left either way, so it
makes no difference whether the query is set before such a request or behind it; the requests that
leave what is open alone do not touch the search at all (`respond_ask`).
-/

namespace Glance.Viewer

variable {σ : Type}

/-- Searches what is open for a query, whatever was asked for before. -/
def ask (query : List Char) (v : Viewer σ) : Viewer σ :=
  search { v with query := query }

theorem setQuery_of_eq {v : Viewer σ} {query : List Char} (same : v.query = query) :
    v.setQuery query = v :=
  if_pos same

theorem setQuery_of_ne {v : Viewer σ} {query : List Char} (other : v.query ≠ query) :
    v.setQuery query = v.ask query :=
  if_neg other

/-- Requests that are not about the search. -/
def Request.LeavesSearch : Request → Prop
  | .setQuery _ | .step _ | .select _ => False
  | _ => True

/-! ## One request -/

theorem unnoticed_ask [Store σ] (query : List Char) :
    Unnoticed (ask query : Viewer σ → Viewer σ) where
  content _ := rfl
  recents _ := rfl
  shows v file := by cases file <;> rfl
  copies _ := rfl
  -- The search reads the text alone, which another language leaves as it is.
  reads v path doc old lang shown := by simp [ask, search, indexOf, shown]

/-- A request is answered alike before and behind a search, and leaves the same viewer. -/
theorem respond_ask [Store σ] (v : Viewer σ) (query : List Char) {request : Request}
    (leaves : request.LeavesSearch) :
    (v.ask query).respond request = ((v.respond request).1, (v.respond request).2.ask query) := by
  cases request with
  | openPicked r => exact (unnoticed_ask query).opening v trivial
  | openPath r path => exact (unnoticed_ask query).opening v trivial
  | openRecent r slot => exact (unnoticed_ask query).opening v trivial
  | openNeighbor r dir => exact (unnoticed_ask query).opening v trivial
  | setLanguage lang => exact (unnoticed_ask query).setLanguage v lang
  | setQuery _ => exact leaves.elim
  | step _ => exact leaves.elim
  | select _ => exact leaves.elim
  | copyPath clipboard => exact (unnoticed_ask query).copyPath v clipboard
  | adjust a =>
    simp only [respond, adjust_eq_prefer]
    rfl
  | _ => rfl

theorem query_showFile [Store σ] (v : Viewer σ) (file : OpenedFile) :
    (v.showFile file).2.query = v.query := by
  cases file <;> rfl

theorem query_respond [Store σ] (v : Viewer σ) {request : Request}
    (leaves : request.LeavesSearch) : (v.respond request).2.query = v.query := by
  by_cases opening : request.IsOpening
  · obtain ⟨answer, eq, ⟨file, shown⟩ | ⟨same, -⟩⟩ := opening_cases v opening
    · rw [eq, shown]
      exact query_showFile v file
    · rw [eq, same]
  · cases request with
    | setLanguage lang =>
      rcases setLanguage_cases v lang with same | ⟨path, doc, old, -, set⟩
      · simp only [respond, same]
      · simp only [respond, set]
    | copyPath clipboard =>
      obtain ⟨-, -, same | told⟩ := respond_copyPath_cases v clipboard
      · rw [same]
      · rw [told]
    | adjust a =>
      simp only [respond, adjust_eq_prefer]
      rfl
    | close => rfl
    | setViewport area => rfl
    | clearRecents => rfl
    | setQuery _ => exact leaves.elim
    | step _ => exact leaves.elim
    | select _ => exact leaves.elim
    | _ => exact absurd trivial opening

theorem respond_setQuery [Store σ] (v : Viewer σ) (query : List Char) {request : Request}
    (leaves : request.LeavesSearch) :
    (v.setQuery query).respond request =
      ((v.respond request).1, (v.respond request).2.setQuery query) := by
  have kept := query_respond v leaves
  by_cases same : v.query = query
  · rw [setQuery_of_eq same, setQuery_of_eq (kept.trans same)]
  · rw [setQuery_of_ne same, setQuery_of_ne (kept.trans_ne same), respond_ask v query leaves]

/-! ## Many requests -/

theorem run_setQuery [Store σ] (v : Viewer σ) (query : List Char) {requests : List Request}
    (leave : ∀ request ∈ requests, request.LeavesSearch) :
    (v.setQuery query).run requests = (v.run requests).setQuery query := by
  induction requests generalizing v with
  | nil => rfl
  | cons request rest ih =>
    obtain ⟨first, others⟩ := List.forall_mem_cons.mp leave
    rw [run_cons, run_cons, respond_setQuery v query first]
    exact ih _ others

/-- A query can be set before requests that are not about the search, or behind them: whatever
comes of them they are answered the same, and nothing tells the two viewers apart. -/
theorem setQuery_commutes [Store σ] (v : Viewer σ) (query : List Char) :
    (∀ request : Request, request.LeavesSearch → (v.setQuery query).respond request =
        ((v.respond request).1, (v.respond request).2.setQuery query)) ∧
      ∀ requests : List Request, (∀ request ∈ requests, request.LeavesSearch) →
        (v.setQuery query).run requests = (v.run requests).setQuery query := by
  constructor
  · intro request leaves
    exact respond_setQuery v query leaves
  · intro requests leave
    exact run_setQuery v query leave

end Glance.Viewer
