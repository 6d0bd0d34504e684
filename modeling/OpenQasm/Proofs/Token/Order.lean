import OpenQasm.Proofs.Grammar.Row
import OpenQasm.Token.Lexer

/-!
# The order of tokens

The tokens of a text stand in a row from its start to its end. A lexer passes over as many bytes as
it takes off the text ahead, so that its offset and what is ahead always make up the whole text. All
that it reports are lexical errors.
-/

namespace OpenQasm

namespace Lexer

variable {lexer next : Lexer} {token : Token}

/-- The offset at the end of the text. -/
def stop (lexer : Lexer) : Nat := lexer.offset + Text.width lexer.rest

/-- What becomes of a lexer that passes over some text. -/
structure Passed (lexer next : Lexer) : Prop where
  source : next.source = lexer.source
  offset : lexer.offset ≤ next.offset
  stop : next.stop = lexer.stop
  reports : ∀ diagnostic ∈ next.diagnostics.items,
    diagnostic ∈ lexer.diagnostics.items ∨ diagnostic.code = .lexicalError

/-- Two stretches that are passed are one. -/
theorem Passed.trans {last : Lexer} (h : Passed lexer next) (h' : Passed next last) :
    Passed lexer last where
  source := h'.source.trans h.source
  offset := Nat.le_trans h.offset h'.offset
  stop := h'.stop.trans h.stop
  reports := fun diagnostic hd => (h'.reports diagnostic hd).elim (h.reports diagnostic) .inr

/-- Advancing passes a stretch. -/
theorem passed_advance (lexer : Lexer) (n : Nat) : Passed lexer (lexer.advance n) where
  source := rfl
  offset := Nat.le_add_right _ _
  stop := by
    have := Text.width_append (lexer.rest.take n) (lexer.rest.drop n)
    rw [List.take_append_drop] at this
    simp only [Lexer.stop, advance, this, Nat.add_assoc]
  reports := fun _ => .inl

/-- A token spans what the lexer passed over. -/
def Spans (lexer : Lexer) (token : Token) (next : Lexer) : Prop :=
  Passed lexer next ∧ token.span = .ofRange lexer.source lexer.offset next.offset

/-- Whether a calibration body is expected does not matter to what is passed over. -/
theorem spans_cut (lexer : Lexer) (calibrationPending : Bool) (kind : TokenKind) (n : Nat) :
    Spans lexer ({ lexer with calibrationPending }.cut kind n).1
      ({ lexer with calibrationPending }.cut kind n).2 := by
  have ⟨h1, h2, h3, h4⟩ := passed_advance lexer n
  exact ⟨⟨h1, h2, h3, h4⟩, rfl⟩

/-- A token at fault spans what is passed. -/
theorem spans_fail (lexer : Lexer) (calibrationPending : Bool) (n : Nat) (message : String) :
    Spans lexer ({ lexer with calibrationPending }.fail n message).1
      ({ lexer with calibrationPending }.fail n message).2 := by
  have ⟨⟨h1, h2, h3, h4⟩, hs⟩ := spans_cut lexer calibrationPending .error n
  refine ⟨⟨h1, h2, h3, fun diagnostic hd => ?_⟩, hs⟩
  rcases List.mem_append.1 hd with hd | hd
  · exact h4 diagnostic hd
  · exact .inr (List.mem_singleton.1 hd ▸ rfl)

/-- So does a calibration body. -/
theorem spans_calibrationBody (lexer : Lexer) :
    Spans lexer lexer.calibrationBody.1 lexer.calibrationBody.2 := by
  unfold calibrationBody
  dsimp only
  split
  · exact spans_cut lexer _ _ _
  · exact spans_fail lexer _ _ _

/-- So does any token. -/
theorem spans_token (lexer : Lexer) (c : Char) (text : List Char) :
    Spans lexer (lexer.token c text).1 (lexer.token c text).2 := by
  unfold Lexer.token
  dsimp only
  split
  · split
    · exact spans_calibrationBody lexer
    · exact spans_cut lexer _ _ _
  · exact spans_cut lexer _ _ _
  · exact spans_cut lexer _ _ _
  · exact spans_fail lexer _ _ _
  · exact spans_fail lexer _ _ _
  · exact spans_fail lexer _ _ _

/-- The next token stands behind the blanks ahead. -/
theorem next?_spans (h : lexer.next? = some (token, next)) :
    ∃ behind, Passed lexer behind ∧ Spans behind token next := by
  unfold next? at h
  dsimp only at h
  split at h
  · cases h
  · have := spans_token lexer.skipSpace
    exact ⟨lexer.skipSpace, passed_advance _ _, by
      rw [← (Prod.mk.inj (Option.some.inj h)).1, ← (Prod.mk.inj (Option.some.inj h)).2]
      exact this _ _⟩

/-- The tokens ahead stand in a row. -/
theorem drain_inRow (lexer : Lexer) :
    Span.InRow lexer.source (min lexer.offset maxOffset) (min lexer.stop maxOffset)
      (lexer.drain.1.map Token.span) := by
  fun_induction drain lexer with
  | case1 => trivial
  | case2 lexer token after h _ tokens last hdrain ih =>
    obtain ⟨behind, hbehind, hafter, hspan⟩ := next?_spans h
    rw [hdrain] at ih
    have hle : after.offset ≤ after.stop := Nat.le_add_right _ _
    have h1 := hbehind.offset
    have h2 := hafter.offset
    rw [hafter.source, hafter.stop, hbehind.source, hbehind.stop] at ih
    rw [hafter.stop, hbehind.stop] at hle
    rw [List.map_cons, Span.InRow, hspan]
    exact ⟨hbehind.source, by simp only [Span.ofRange]; omega, by simp only [Span.ofRange]; omega,
      by simp only [Span.ofRange]; omega, ih⟩

/-- Draining a lexer reports lexical errors only. -/
theorem drain_reports (lexer : Lexer) : ∀ diagnostic ∈ lexer.drain.2.diagnostics.items,
    diagnostic ∈ lexer.diagnostics.items ∨ diagnostic.code = .lexicalError := by
  fun_induction drain lexer with
  | case1 => exact fun _ => .inl
  | case2 lexer token after h _ tokens last hdrain ih =>
    obtain ⟨behind, hbehind, hafter, -⟩ := next?_spans h
    rw [hdrain] at ih
    exact fun diagnostic hd =>
      (ih diagnostic hd).elim ((hbehind.trans hafter).reports diagnostic) .inr

end Lexer

/-- Tokens that are left out leave the others in a row. -/
theorem Span.InRow.sublist {source : SourceId} {low high : Nat} {row row' : List Span}
    (h : InRow source low high row) (hs : row'.Sublist row) : InRow source low high row' := by
  induction hs generalizing low with
  | slnil => trivial
  | cons span _ ih => exact ih (h.2.2.2.2.mono (Nat.le_trans h.2.1 h.2.2.1) (Nat.le_refl _))
  | cons_cons span _ ih => exact ⟨h.1, h.2.1, h.2.2.1, h.2.2.2.1, ih h.2.2.2.2⟩

/-- The tokens of a text stand in a row between its two ends. -/
theorem tokenize_inRow (source : SourceId) (text : List Char) :
    Span.InRow source 0 (min (Text.width text) maxOffset)
      ((tokenize source text).1.map Token.span) := by
  have := (Lexer.ofText source text).drain_inRow
  simpa [Lexer.ofText, Lexer.stop, tokenize] using this

/-- What is reported about the tokens of a text are lexical errors. -/
theorem tokenize_reports (source : SourceId) (text : List Char) :
    ∀ diagnostic ∈ (tokenize source text).2, diagnostic.code = .lexicalError := fun diagnostic hd =>
  ((Lexer.ofText source text).drain_reports diagnostic hd).resolve_left List.not_mem_nil

end OpenQasm
