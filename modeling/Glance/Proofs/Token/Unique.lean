import Glance.Proofs.Document
import Glance.Proofs.Token.Tiling

/-!
# The tokens of a line are unique

The byte ranges that satisfy the grammar are those of a tiling: their ends tell where to cut the
line. So the ranges of the scan satisfy it, and no others do.
-/

namespace Glance.Span

open Document (utf8Length utf8Length_append utf8Length_pos prefix_unique)

variable {lang : Language} {s : Span} {spans : List Span} {tokens : List Token} {start : ℕ}
  {depth last : BracketDepth} {line before text after rest : List Char}

/-! ## Where a span cuts the line -/

theorem Cuts.unique {before' text' after' : List Char} (cut : s.Cuts line before text after)
    (cut' : s.Cuts line before' text' after') :
    before = before' ∧ text = text' ∧ after = after' := by
  have lines := cut.line_eq.symm.trans cut'.line_eq
  obtain ⟨whole, rfl⟩ := prefix_unique lines (cut.stop_eq.trans cut'.stop_eq.symm)
  obtain ⟨rfl, rfl⟩ := prefix_unique whole (cut.start_eq.trans cut'.start_eq.symm)
  exact ⟨rfl, rfl, rfl⟩

theorem cuts_mk (kind : TokenKind) (before text after : List Char) :
    (Span.mk kind (utf8Length before) (utf8Length before + utf8Length text)).Cuts
      (before ++ text ++ after) before text after :=
  ⟨rfl, rfl, utf8Length_append before text⟩

theorem depths_cons_iff (cut : s.Cuts line before text after) :
    Depths line depth (s :: spans) last ↔
      ∃ next, Token.Steps depth ⟨s.kind, text⟩ next ∧ Depths line next spans last := by
  constructor
  · intro depths
    cases depths with
    | cons cut' steps depths =>
      obtain ⟨-, rfl, -⟩ := cut.unique cut'
      exact ⟨_, steps, depths⟩
  · rintro ⟨next, steps, depths⟩
    exact .cons cut steps depths

/-! ## One span after the other -/

theorem grammar_nil_iff :
    Grammar lang line start depth [] last ↔ start = utf8Length line ∧ depth = last := by
  constructor
  · intro grammar
    refine ⟨grammar.cover, ?_⟩
    cases grammar.depths
    rfl
  · rintro ⟨rfl, rfl⟩
    exact ⟨rfl, by simp, .nil, by simp, .nil⟩

theorem grammar_cons_iff (cut : s.Cuts line before text after) :
    Grammar lang line (utf8Length before) depth (s :: spans) last ↔
      text ≠ [] ∧ Token.Fits lang before text after s.kind ∧
        (∀ u ∈ spans.head?, ¬ (s.kind = .plain ∧ u.kind = .plain)) ∧
        ∃ next, Token.Steps depth ⟨s.kind, text⟩ next ∧
          Grammar lang line (utf8Length (before ++ text)) next spans last := by
  constructor
  · intro grammar
    obtain ⟨-, lt, cover⟩ := grammar.cover
    obtain ⟨apart, chain⟩ := List.isChain_cons.mp grammar.apart
    obtain ⟨next, steps, depths⟩ := (depths_cons_iff cut).mp grammar.depths
    refine ⟨?_, grammar.fits s (.head _) _ _ _ cut, apart, next, steps, ?_, ?_, chain, ?_, depths⟩
    · rw [← cut.start_eq, ← cut.stop_eq, utf8Length_append] at lt
      exact utf8Length_pos.mp (by omega)
    · rw [cut.stop_eq]
      exact cover
    · exact fun u mem => grammar.cuts u (.tail s mem)
    · exact fun u mem => grammar.fits u (.tail s mem)
  · rintro ⟨ne, fits, apart, next, steps, grammar⟩
    have pos := utf8Length_pos.mpr ne
    refine ⟨⟨cut.start_eq.symm, ?_, ?_⟩, ?_, List.isChain_cons.mpr ⟨apart, grammar.apart⟩, ?_,
      (depths_cons_iff cut).mpr ⟨next, steps, grammar.depths⟩⟩
    · rw [← cut.start_eq, ← cut.stop_eq, utf8Length_append]
      omega
    · rw [← cut.stop_eq]
      exact grammar.cover
    · intro u mem
      rcases List.mem_cons.mp mem with rfl | mem
      · exact ⟨_, _, _, cut⟩
      · exact grammar.cuts u mem
    · intro u mem before' text' after' cut'
      rcases List.mem_cons.mp mem with rfl | mem
      · obtain ⟨rfl, rfl, rfl⟩ := cut.unique cut'
        exact fits
      · exact grammar.fits u mem _ _ _ cut'

/-! ## Spans and tokens -/

theorem head?_ofTokens (start : ℕ) (tokens : List Token) :
    (ofTokens start tokens).head? =
      tokens.head?.map fun t => ⟨t.kind, start, start + utf8Length t.text⟩ := by
  cases tokens <;> rfl

theorem grammar_ofTokens (tiles : Token.Tiles lang before depth tokens last)
    (eq : line = before ++ tokens.flatMap Token.text) :
    Grammar lang line (utf8Length before) depth (ofTokens (utf8Length before) tokens) last := by
  induction tiles with
  | @nil before depth =>
    rw [List.flatMap_nil, List.append_nil] at eq
    rw [eq]
    exact grammar_nil_iff.mpr ⟨rfl, rfl⟩
  | @cons before depth next last t tokens ne fits steps apart tiles ih =>
    rw [List.flatMap_cons, ← List.append_assoc] at eq
    rw [ofTokens]
    have cut := cuts_mk t.kind before t.text (tokens.flatMap Token.text)
    rw [← eq] at cut
    refine (grammar_cons_iff cut).mpr ⟨ne, fits, ?_, next, steps, ?_⟩
    · rw [head?_ofTokens]
      intro u mem
      obtain ⟨v, known, rfl⟩ := Option.mem_map.mp mem
      exact apart v known
    · rw [← utf8Length_append]
      exact ih eq

theorem Grammar.tiles (grammar : Grammar lang line start depth spans last)
    (begins : utf8Length before = start) (eq : line = before ++ rest) :
    ∃ tokens, spans = ofTokens start tokens ∧ tokens.flatMap Token.text = rest ∧
      Token.Tiles lang before depth tokens last := by
  induction spans generalizing start depth before rest with
  | nil =>
    obtain ⟨stop, rfl⟩ := grammar_nil_iff.mp grammar
    obtain ⟨-, rfl⟩ := prefix_unique ((List.append_nil line).trans eq) (stop ▸ begins.symm)
    exact ⟨[], rfl, rfl, .nil⟩
  | cons s spans ih =>
    obtain ⟨before', text, after, cut⟩ := grammar.cuts s (.head _)
    have here : utf8Length before' = utf8Length before :=
      cut.start_eq.trans (grammar.cover.1.trans begins.symm)
    obtain ⟨rfl, rfl⟩ : before' = before ∧ text ++ after = rest :=
      prefix_unique ((List.append_assoc ..).symm.trans (cut.line_eq.symm.trans eq)) here
    subst begins
    obtain ⟨ne, fits, apart, next, steps, grammar⟩ := (grammar_cons_iff cut).mp grammar
    obtain ⟨tokens, rfl, rfl, tiles⟩ := ih grammar rfl cut.line_eq
    have span : s = ⟨s.kind, utf8Length before', utf8Length before' + utf8Length text⟩ := by
      rw [← utf8Length_append, cut.start_eq, cut.stop_eq]
    refine ⟨⟨s.kind, text⟩ :: tokens, ?_, rfl, .cons ne fits steps ?_ tiles⟩
    · rw [ofTokens, ← span, utf8Length_append]
    · intro u mem
      rw [head?_ofTokens] at apart
      exact apart ⟨u.kind, _, _⟩ (Option.mem_map_of_mem _ mem)

/-! ## The scan -/

theorem grammar_iff_scan (lang : Language) (line : List Char) (depth last : BracketDepth)
    (spans : List Span) :
    Grammar lang line 0 depth spans last ↔
      spans = ofTokens 0 (Token.scan lang depth line).1 ∧
        last = (Token.scan lang depth line).2 := by
  constructor
  · intro grammar
    obtain ⟨tokens, rfl, text, tiles⟩ := grammar.tiles rfl (List.nil_append line).symm
    have scan := tiles.scan_eq (.nil _)
    rw [text] at scan
    rw [scan]
    exact ⟨rfl, rfl⟩
  · rintro ⟨rfl, rfl⟩
    obtain ⟨text, tiles⟩ := Token.tiles_scan lang depth (.nil line)
    exact grammar_ofTokens tiles text.symm

end Glance.Span
