import Glance.Proofs.Page.Emphasis
import Glance.Proofs.Search.Lines
import Glance.Proofs.Viewer.SearchState

/-!
# Scrolling to the emphasized match

A window that shows a page scrolls to the line of the emphasized match, which the viewer computes
from the document alone. The page computes it too, on its own way: it goes through the lines with
the matches at hand and clips each match to the line. The two agree because both follow the
characters: a line of the page is emphasized exactly if the match lies on a character of it, and the
first of these characters is the one that the line to scroll to was computed from.
-/

namespace Glance.Viewer

variable {σ : Type} {v : Viewer σ} {path : String} {doc : Document} {lang : Language} {m : Match}

theorem Fresh.hit_current (h : Fresh v) (text : v.content = some (.text path doc lang))
    (current : v.currentMatch = some m) : m ∈ Search.hits doc.text v.query := by
  rw [← h.hits_eq text]
  exact mem_hits_of_currentMatch current

theorem Fresh.ordered (h : Fresh v) (text : v.content = some (.text path doc lang)) :
    Page.Ordered v.index.hits := by
  rw [h.hits_eq text]
  exact Page.ordered_hits doc.text v.query

/-- The line to scroll to is the one that the list of matches gives for the emphasized match. -/
theorem Fresh.matchRow_current (h : Fresh v) (text : v.content = some (.text path doc lang))
    (current : v.currentMatch = some m) :
    ∃ L i, doc.lineOfChar m.start = .ok L ∧ v.currentLine = some L ∧
      v.navigator.current = some i ∧ (Session.matchRows v)[i]? = some ⟨m, L⟩ := by
  have line := h.lineOfChar_start text (mem_hits_of_currentMatch current)
  obtain ⟨i, landed, known⟩ := Option.bind_eq_some_iff.mp current
  refine ⟨_, i, line, ?_, landed, ?_⟩
  · unfold currentLine
    rw [text, current]
    simp only [line]
    rfl
  · unfold Session.matchRows
    rw [text]
    dsimp only
    rw [List.getElem?_map, show v.index.hits[i]? = some m from known, Option.map_some, line]
    rfl

/-- The emphasized lines of a page are those that the emphasized match lies on. -/
theorem Fresh.tagOn_iff (h : Fresh v) (text : v.content = some (.text path doc lang))
    (current : v.currentMatch = some m) (options : PageOptions) (k : ℕ) :
    Markup.TagOn .current (doc.render lang v.index v.navigator.current options) k ↔
      ∃ c a, m.Covers c ∧ doc.text[c]? = some a ∧ a ≠ '\n' ∧ doc.lineOfChar c = .ok k := by
  have emphasized (c : ℕ) :
      v.index.emphasisAt v.navigator.current c = .current ↔ m.Covers c := by
    rw [MatchIndex.emphasisAt_eq_current_iff]
    constructor
    · rintro ⟨m', known, on⟩
      obtain rfl := Option.some.inj (known.symm.trans current)
      exact on
    · exact fun on => ⟨m, current, on⟩
  rw [Document.tagOn_render_iff (h.ordered text) (by decide)]
  constructor
  · rintro ⟨c, a, known, other, line, on⟩
    exact ⟨c, a, (emphasized c).mp on, known, other, line⟩
  · rintro ⟨c, a, on, known, other, line⟩
    exact ⟨c, a, known, other, line, (emphasized c).mpr on⟩

/-- The first of the emphasized lines is that of the first character, unless this is a line feed. -/
theorem Fresh.tagOn_first (h : Fresh v) (text : v.content = some (.text path doc lang))
    (current : v.currentMatch = some m) (first : doc.text[m.start]? ≠ some '\n') {L : ℕ}
    (line : doc.lineOfChar m.start = .ok L) (options : PageOptions) :
    Markup.TagOn .current (doc.render lang v.index v.navigator.current options) L ∧
      ∀ k < L, ¬ Markup.TagOn .current (doc.render lang v.index v.navigator.current options) k := by
  have hit := h.hit_current text current
  have filled := Search.start_lt_stop_of_mem_hits hit
  have stop := Search.stop_le_of_mem_hits hit
  constructor
  · obtain ⟨a, known⟩ : ∃ a, doc.text[m.start]? = some a :=
      ⟨_, List.getElem?_eq_getElem (filled.trans_le stop)⟩
    have other : a ≠ '\n' := fun feed => first (feed ▸ known)
    exact (h.tagOn_iff text current options L).mpr
      ⟨m.start, a, ⟨le_rfl, filled⟩, known, other, line⟩
  · intro k lt tag
    obtain ⟨c, -, on, -, -, line'⟩ := (h.tagOn_iff text current options k).mp tag
    have := Document.lineOfChar_mono on.1 line line'
    omega

/-- A match without a line feed is on one line. -/
theorem Fresh.lineOfChar_of_covers (h : Fresh v)
    (text : v.content = some (.text path doc lang)) (current : v.currentMatch = some m)
    (clear : '\n' ∉ v.query) {c : ℕ} (on : m.Covers c) :
    doc.lineOfChar c = doc.lineOfChar m.start := by
  have hit := h.hit_current text current
  have stop : m.stop ≤ doc.charCount := Search.stop_le_of_mem_hits hit
  obtain ⟨begins, ends⟩ := on
  refine Document.lineOfChar_eq_of_clear begins (ends.le.trans stop) ?_
  intro i low high a known
  exact Search.ne_newline_of_mem_hits clear hit low (high.trans ends) known

/-- The line to scroll to is the one that the list of matches gives for the emphasized match, and
the first emphasized line of the page; the emphasized lines are those that the match lies on. -/
theorem scrolls_to_emphasis [Store σ] (store : σ) (config : Config) (requests : List Request)
    {path : String} {doc : Document} {lang : Language} {m : Match}
    (text : ((start store config).run requests).content = some (.text path doc lang))
    (current : ((start store config).run requests).currentMatch = some m)
    (first : doc.text[m.start]? ≠ some '\n') :
    let v := (start store config).run requests
    ∃ L i markup, v.currentLine = some L ∧ v.navigator.current = some i ∧
      (Session.matchRows v)[i]? = some ⟨m, L⟩ ∧ v.render = some markup ∧
      Markup.TagOn .current markup L ∧ (∀ k < L, ¬ Markup.TagOn .current markup k) ∧
      (∀ k, Markup.TagOn .current markup k ↔
        ∃ c a, m.Covers c ∧ doc.text[c]? = some a ∧ a ≠ '\n' ∧ doc.lineOfChar c = .ok k) ∧
      ('\n' ∉ v.query → ∀ k, Markup.TagOn .current markup k ↔ k = L) := by
  intro v
  have h : Fresh v := fresh_run store config requests
  obtain ⟨L, i, line, scroll, landed, row⟩ := h.matchRow_current text current
  have tagged := h.tagOn_iff text current v.renderOptions
  obtain ⟨here, above⟩ := h.tagOn_first text current first line v.renderOptions
  have shown : v.render =
      some (doc.render lang v.index v.navigator.current v.renderOptions) := by
    unfold render renderWith
    rw [text]
  refine ⟨L, i, _, scroll, landed, row, shown, here, above, tagged, ?_⟩
  intro clear k
  constructor
  · intro tag
    obtain ⟨c, -, on, -, -, line'⟩ := (tagged k).mp tag
    rw [h.lineOfChar_of_covers text current clear on, line] at line'
    exact (Except.ok.inj line').symm
  · rintro rfl
    exact here

/-- A step to the match on the second of two lines, shown without colours and line numbers because
every text counts as large. -/
theorem scrolls_to_emphasis_large :
    let r : Resolver :=
      { pick := none, resolve := fun path => .text path.text "a\nba".toList none
        siblings := fun _ _ => [] }
    let config : Config := { Config.initial with text.largeBytes := 0 }
    let v := (start MemoryStore.empty config).run
      [.openPath r ⟨"t.txt"⟩, .setQuery ['b'], .step .forward]
    v.content = some (.text "t.txt" ⟨"a\nba".toList⟩ .plain) ∧ v.currentMatch = some ⟨2, 1⟩ ∧
      v.currentLine = some 1 ∧ ∃ markup, v.render = some markup ∧
        Markup.TagOn .current markup 1 ∧ ¬ Markup.TagOn .current markup 0 := by
  intro r config v
  have text : v.content = some (.text "t.txt" ⟨"a\nba".toList⟩ .plain) := by decide +kernel
  have current : v.currentMatch = some ⟨2, 1⟩ := by decide +kernel
  have line : v.currentLine = some 1 := by decide +kernel
  obtain ⟨L, -, markup, scroll, -, -, shown, here, above, -⟩ :=
    scrolls_to_emphasis MemoryStore.empty config
      [.openPath r ⟨"t.txt"⟩, .setQuery ['b'], .step .forward] text current (by decide)
  obtain rfl := Option.some.inj (line.symm.trans scroll)
  exact ⟨text, current, line, markup, shown, here, above 0 (by decide)⟩

end Glance.Viewer
