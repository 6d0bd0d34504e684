import OpenQasm.Proofs.Token.Scanning
import OpenQasm.Proofs.Token.Tiling

/-!
# Reports about tokens

Every error token has been reported with its span, in the order of the text, and nothing else is
reported about tokens.
-/

namespace OpenQasm

namespace Lexer

section
variable {lexer last : Lexer} {tokens : List Token}

/-- A token is reported if it is an error, and nothing else is. -/
def Reports (lexer : Lexer) (token : Token) (next : Lexer) : Prop :=
  token.kind ≠ .error ∧ next.diagnostics = lexer.diagnostics ∨
  token.kind = .error ∧
    ∃ message, next.diagnostics = lexer.diagnostics.report .lexicalError token.span message

theorem token_reports (lexer : Lexer) (c : Char) (text : List Char) :
    lexer.Reports (lexer.token c text).1 (lexer.token c text).2 := by
  have hcut : ∀ pending kind n, kind ≠ .error →
      lexer.Reports ({ lexer with calibrationPending := pending }.cut kind n).1
        ({ lexer with calibrationPending := pending }.cut kind n).2 :=
    fun _ _ _ h => .inl ⟨h, rfl⟩
  have hfail : ∀ pending n message,
      lexer.Reports ({ lexer with calibrationPending := pending }.fail n message).1
        ({ lexer with calibrationPending := pending }.fail n message).2 :=
    fun _ _ message => .inr ⟨rfl, message, rfl⟩
  unfold Lexer.token
  dsimp only
  split
  · split
    · unfold calibrationBody
      dsimp only
      split
      · exact hcut _ _ _ nofun
      · exact hfail _ _ _
    · exact hcut _ _ _ nofun
  · refine hcut _ _ _ ?_
    unfold stringKind
    dsimp only
    split <;> exact nofun
  · next kind hverdict =>
    exact hcut _ _ _ (Token.scan_told hverdict).ne_error
  · exact hfail _ _ _
  · exact hfail _ _ _
  · exact hfail _ _ _

/-- The reports of a lexer that is drained are about the error tokens, and say nothing but a
message. -/
theorem Drained.reports (h : Drained lexer tokens last) :
    ∃ reports, last.diagnostics.items = lexer.diagnostics.items ++ reports ∧
      reports.map Diagnostic.span = (tokens.filter (·.kind = .error)).map Token.span ∧
      ∀ diagnostic ∈ reports, ∃ span message,
        diagnostic = { code := .lexicalError, span, message } := by
  induction h with
  | stop => exact ⟨[], by simp, rfl, fun _ hm => nomatch hm⟩
  | @next lexer after last token tokens hnext _ ih =>
    obtain ⟨reports, hitems, hspans, hcodes⟩ := ih
    have hone : lexer.Reports token after := by
      unfold next? at hnext
      dsimp only at hnext
      split at hnext
      · cases hnext
      · next c text hrest =>
        rw [← (Prod.mk.inj (Option.some.inj hnext)).1, ← (Prod.mk.inj (Option.some.inj hnext)).2]
        exact token_reports lexer.skipSpace c text
    rcases hone with ⟨hkind, hsame⟩ | ⟨hkind, message, hmore⟩
    · refine ⟨reports, by rw [hitems, hsame], ?_, hcodes⟩
      rw [List.filter_cons_of_neg (by simpa using hkind), hspans]
    · refine ⟨{ code := .lexicalError, span := token.span, message } :: reports, ?_, ?_, ?_⟩
      · rw [hitems, hmore]
        simp [Diagnostics.report]
      · rw [List.filter_cons_of_pos (by simpa using hkind), List.map_cons, List.map_cons, hspans]
      · intro diagnostic hd
        rcases List.mem_cons.1 hd with rfl | hd
        · exact ⟨token.span, message, rfl⟩
        · exact hcodes diagnostic hd

end

end Lexer

/-- The reports about the tokens of a text are errors at the spans of the error tokens. -/
theorem tokenize_faults (source : SourceId) (text : List Char) :
    (tokenize source text).2.map Diagnostic.span =
        ((tokenize source text).1.filter (·.kind = .error)).map Token.span ∧
      ∀ diagnostic ∈ (tokenize source text).2,
        diagnostic.code = .lexicalError ∧ diagnostic.severity = .error := by
  obtain ⟨reports, hitems, hspans, hplain⟩ := (Lexer.drained_drain (.ofText source text)).reports
  have hreports : (tokenize source text).2 = reports := hitems
  rw [hreports]
  refine ⟨hspans, fun diagnostic hd => ?_⟩
  obtain ⟨span, message, rfl⟩ := hplain diagnostic hd
  exact ⟨rfl, rfl⟩

/-- A report about the tokens of a text is at the span of a token, and at no other spans. -/
theorem tokenize_plain {source : SourceId} {text : List Char} {diagnostic : Diagnostic}
    (hd : diagnostic ∈ (tokenize source text).2) :
    ∃ token ∈ (tokenize source text).1, diagnostic.span = token.span ∧ diagnostic.labels = [] ∧
      diagnostic.fix = none := by
  obtain ⟨reports, hitems, hspans, hplain⟩ := (Lexer.drained_drain (.ofText source text)).reports
  have hreports : (tokenize source text).2 = reports := hitems
  rw [hreports] at hd
  have hm := List.mem_map_of_mem (f := Diagnostic.span) hd
  rw [hspans] at hm
  obtain ⟨token, ht, hspan⟩ := List.mem_map.1 hm
  obtain ⟨span, message, rfl⟩ := hplain diagnostic hd
  exact ⟨token, (List.mem_filter.1 ht).1, hspan.symm, rfl, rfl⟩

end OpenQasm
