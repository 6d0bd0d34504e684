import OpenQasm.Proofs.Token.Numbers

/-!
# Tokens and lines

Tokens end with their lines: words, numbers and symbols hold no line break, and pragmas,
annotations, line comments and strings stop before one. Only block comments and calibration bodies
go on over several lines, and what is left of a text where one of these is never closed, so that no
token follows.
-/

namespace OpenQasm.Token

section
variable {c : Char} {text : List Char} {kind : TokenKind}

/-- A run of characters that are no line breaks holds none. -/
theorem newline_not_mem_take_run {p : Char → Bool} (hp : p '\n' = false) (text : List Char) :
    '\n' ∉ text.take (run p text) := by
  rw [take_run]
  intro hm
  have htrue := List.all_eq_true.1 (List.all_takeWhile (p := p) (l := text)) '\n' hm
  cases hp.symm.trans htrue

/-- The rest of a line has no line break. -/
theorem newline_not_mem_take_lineLength (text : List Char) :
    '\n' ∉ text.take (lineLength text) :=
  newline_not_mem_take_run (by decide) text

/-- A run and the line behind it hold no line break. -/
theorem newline_not_mem_take_run_line {p : Char → Bool} (hp : p '\n' = false) (text : List Char) :
    '\n' ∉ text.take (run p text + lineLength (text.drop (run p text))) := by
  rw [List.take_add]
  intro hm
  rcases List.mem_append.1 hm with hm | hm
  · exact newline_not_mem_take_run hp text hm
  · exact newline_not_mem_take_lineLength _ hm

/-- A line break is no part of a word. -/
theorem isIdentifierPart_newline : isIdentifierPart '\n' = false := by decide +kernel

/-- Nor is it a part of an annotation. -/
theorem isAnnotationPart_newline : isAnnotationPart '\n' = false := by decide +kernel

/-- A word stands on one line. -/
theorem scanWord_line : '\n' ∉ text.take (scanWord c text).tail := by
  unfold scanWord
  dsimp only
  split
  · exact newline_not_mem_take_run_line isIdentifierPart_newline text
  · exact newline_not_mem_take_run isIdentifierPart_newline text

/-- So does an exponent. -/
theorem newline_not_mem_of_marked {exponent : List Char} (h : Literal.Marked exponent) :
    '\n' ∉ exponent := by
  obtain ⟨mark, sign, negative, digits, rfl, hmark, hsign, -, hdigits⟩ := h
  have hd : '\n' ∉ digits := fun hm => absurd (hdigits _ hm) (by decide)
  have hm : '\n' ≠ mark := by rcases hmark with rfl | rfl <;> decide
  have hs : '\n' ∉ sign := by cases hsign <;> decide
  simp [hd, hm, hs]

/-- So does a number. -/
theorem newline_not_mem_of_parts {whole point exponent : List Char}
    (h : Literal.Parts whole point exponent) : '\n' ∉ whole ++ point ++ exponent := by
  have hdigits : ∀ {digits : List Char}, (∀ c ∈ digits, Literal.isDigitOrSeparator c) →
      '\n' ∉ digits := fun h hm => absurd (h _ hm) (by decide)
  have hpoint : '\n' ∉ point := by
    rcases h.point with rfl | ⟨more, rfl, hmore⟩
    · exact List.not_mem_nil
    · exact List.not_mem_cons_of_ne_of_not_mem (by decide) (hdigits hmore)
  have hexponent : '\n' ∉ exponent := by
    rcases h.exponent with rfl | hmarked
    · exact List.not_mem_nil
    · exact newline_not_mem_of_marked hmarked
  simp [hdigits h.whole, hpoint, hexponent]

/-- A line break is no digit. -/
theorem radixDigit?_newline {mark : Char} {isDigit : Char → Bool}
    (h : radixDigit? mark = some isDigit) : isDigit '\n' = false := by
  unfold radixDigit? at h
  repeat' split at h
  all_goals cases h
  all_goals decide

/-- A number is written in one line. -/
theorem Numbered.newline_not_mem (h : Numbered kind text) : '\n' ∉ text := by
  have hlost : ∀ {lost : List Char}, LostMark lost → '\n' ∉ lost := by
    rintro _ (rfl | rfl | rfl) <;> decide
  cases h with
  | @radix mark isDigit digits hmark hdigits =>
    have hne : '\n' ≠ mark := by
      rintro rfl
      cases hmark
    have hmem : '\n' ∉ digits := fun hm =>
      absurd (hdigits _ hm) (by simp [radixDigit?_newline hmark])
    simp [hne, hmem]
  | integer hp hl =>
    have hwhole := newline_not_mem_of_parts hp
    rw [List.append_nil, List.append_nil] at hwhole
    exact List.not_mem_append hwhole (hlost hl)
  | float hp hl => exact List.not_mem_append (newline_not_mem_of_parts hp) (hlost hl)
  | @suffixed _ _ _ suffix hp _ hsuffix =>
    have hletters : '\n' ∉ suffix := fun hm => absurd (hsuffix _ hm) (by decide)
    exact List.not_mem_append (newline_not_mem_of_parts hp) hletters

/-- A string stands on one line, closed or not. -/
theorem scanString_line : '\n' ∉ text.take (scanString c text).tail := by
  have hline := newline_not_mem_take_lineLength text
  unfold scanString
  dsimp only
  split
  · next hlt =>
    intro hm
    exact hline (List.take_subset_take_left text hlt hm)
  · exact hline

/-- Of what starts with a slash only a comment goes on behind a line. -/
theorem scanSlash_line (h : '\n' ∈ text.take (scanSlash text).tail) :
    (scanSlash text).verdict = .token .blockComment ∨
      (scanSlash text).verdict = .fault .unterminatedComment := by
  revert h
  unfold scanSlash
  split
  · next rest =>
    intro h
    rw [Nat.add_comm, List.take_succ_cons] at h
    rcases List.mem_cons.1 h with h | h
    · cases h
    · exact absurd h (newline_not_mem_take_lineLength rest)
  · split
    · exact fun _ => .inl rfl
    · exact fun _ => .inr rfl
  · intro h
    simp at h
  · intro h
    cases h

/-- An annotation stands on one line. -/
theorem scanAt_line : '\n' ∉ text.take (scanAt text).tail := by
  unfold scanAt
  split
  · next c rest =>
    split
    · next hstart =>
      have hc : '\n' ≠ c := by
        rintro rfl
        revert hstart
        decide +kernel
      have hline := newline_not_mem_take_run_line isAnnotationPart_newline rest
      have hrun := newline_not_mem_take_run isAnnotationPart_newline rest
      dsimp only
      split
      · rw [Nat.add_assoc, Nat.add_comm 1, List.take_succ_cons]
        exact List.not_mem_cons_of_ne_of_not_mem hc hline
      · rw [Nat.add_comm, List.take_succ_cons]
        exact List.not_mem_cons_of_ne_of_not_mem hc hrun
    · exact List.not_mem_nil
  · exact List.not_mem_nil

/-- So does a hardware qubit. -/
theorem scanDollar_line : '\n' ∉ text.take (scanDollar text).tail := by
  unfold scanDollar
  dsimp only
  split
  · exact newline_not_mem_take_run (by decide) text
  · exact List.not_mem_nil

/-- A symbol is written in one line. -/
theorem newline_not_mem_symbol (symbol : Symbol) : '\n' ∉ symbol.text.toList := by
  cases symbol <;> decide

/-- What is scanned as a symbol is the text of the symbol. -/
theorem take_atHead? {symbol : Symbol} (h : Symbol.atHead? (c :: text) = some symbol) :
    symbol.text.toList = c :: text.take (symbol.text.length - 1) := by
  obtain ⟨rest, hrest⟩ := Symbol.isPrefix_of_atHead? h
  have hpos : 0 < symbol.text.length := by cases symbol <;> decide
  rw [← List.take_succ_cons, Nat.sub_add_cancel hpos, ← hrest]
  exact List.take_left.symm

/-- A symbol stands on one line. -/
theorem scanSymbol_line : '\n' ∉ text.take (scanSymbol c text).tail := by
  unfold scanSymbol
  split
  · next symbol hsymbol =>
    intro hm
    exact newline_not_mem_symbol symbol (take_atHead? hsymbol ▸ List.mem_cons_of_mem _ hm)
  · exact List.not_mem_nil

/-- So does a pragma. -/
theorem scanHash_line : '\n' ∉ text.take (scanHash text).tail := by
  unfold scanHash
  split
  · exact newline_not_mem_take_lineLength text
  · exact scanSymbol_line

/-- Only block comments go on over several lines. -/
theorem scan_line (h : '\n' ∈ text.take (scan c text).tail) :
    (scan c text).verdict = .token .blockComment ∨
      (scan c text).verdict = .fault .unterminatedComment := by
  revert h
  unfold scan
  split
  · exact fun h => absurd h scanWord_line
  split
  · next hstart =>
    obtain ⟨hnumbered, -⟩ := numberToken_numbered (beginsNumber_of_startsNumber hstart)
    intro h
    dsimp only at h
    generalize (numberToken (c :: text)).2 = n at h hnumbered
    cases n with
    | zero => cases h
    | succ n => exact absurd (List.mem_cons_of_mem _ h) hnumbered.newline_not_mem
  split
  · exact scanSlash_line
  split
  · exact fun h => absurd h scanString_line
  split
  · exact fun h => absurd h scanAt_line
  split
  · exact fun h => absurd h scanDollar_line
  split
  · exact fun h => absurd h scanHash_line
  · exact fun h => absurd h scanSymbol_line

/-- A slash is scanned as a comment or an operator. -/
theorem scan_slash (text : List Char) : scan '/' text = scanSlash text := by
  have hstart : isIdentifierStart '/' = false := by decide
  simp [scan, hstart, startsNumber]

/-- A comment that is never closed takes all of the text. -/
theorem tail_of_unterminatedComment (h : (scan c text).verdict = .fault .unterminatedComment) :
    (scan c text).tail = text.length := by
  have hfaulty := scan_faulty c text
  rw [Piece.Faulty, h] at hfaulty
  rw [show c = '/' from hfaulty, scan_slash] at h ⊢
  unfold scanSlash at h ⊢
  split at h
  · cases h
  · split at h
    · cases h
    · rfl
  · cases h
  · cases h

end

end OpenQasm.Token

namespace OpenQasm

section
variable {lexer next last : Lexer} {c : Char} {text : List Char} {token : Token}
  {tokens front back : List Token}

namespace Lexer

/-- Invalid characters stand on one line. -/
theorem newline_not_mem_take_invalidRun (rest : List Char) :
    '\n' ∉ rest.take (invalidRun rest) := by
  induction rest with
  | nil => exact List.not_mem_nil
  | cons c text ih =>
    rw [invalidRun]
    split
    · next hinvalid =>
      have hc : '\n' ≠ c := by
        rintro rfl
        exact absurd hinvalid.1 (by decide)
      rw [List.take_succ_cons]
      exact List.not_mem_cons_of_ne_of_not_mem hc ih
    · exact List.not_mem_nil

/-- What holds a line break is a block comment or a calibration body, or else the rest of the
text. -/
theorem token_line (hr : lexer.rest = c :: text) (hs : Token.isSpace c = false)
    (h : '\n' ∈ (lexer.token c text).1.text) :
    (lexer.token c text).1.kind = .blockComment ∨ (lexer.token c text).1.kind = .calibrationBody ∨
      ((lexer.token c text).1.kind = .error ∧ (lexer.token c text).2.rest = []) := by
  have hscan : '\n' ∈ lexer.rest.take ((Token.scan c text).tail + 1) →
      (Token.scan c text).verdict = .token .blockComment ∨
        (Token.scan c text).verdict = .fault .unterminatedComment := by
    rw [hr, List.take_succ_cons]
    intro hm
    rcases List.mem_cons.1 hm with rfl | hm
    · cases hs
    · exact Token.scan_line hm
  revert h
  unfold Lexer.token
  dsimp only
  split
  · next hverdict =>
    split
    · unfold calibrationBody
      dsimp only
      split
      · exact fun _ => .inr (.inl rfl)
      · exact fun _ => .inr (.inr ⟨rfl, by simp⟩)
    · intro h
      rcases hscan h with heq | heq <;> cases hverdict.symm.trans heq
  · next hverdict =>
    intro h
    rcases hscan h with heq | heq <;> cases hverdict.symm.trans heq
  · next hverdict =>
    intro h
    rcases hscan h with heq | heq
    · exact .inl (Token.Verdict.token.inj (hverdict.symm.trans heq))
    · cases hverdict.symm.trans heq
  · exact fun h => absurd h (newline_not_mem_take_invalidRun _)
  · next hverdict =>
    intro h
    rcases hscan h with heq | heq <;> cases hverdict.symm.trans heq
  · next hverdict =>
    refine fun _ => .inr (.inr ⟨rfl, ?_⟩)
    rw [rest_fail, Token.tail_of_unterminatedComment hverdict, hr]
    simp

/-- A token with a line break is a comment, a calibration body, or an error up to the end. -/
theorem next?_line (h : lexer.next? = some (token, next)) (hm : '\n' ∈ token.text) :
    token.kind = .blockComment ∨ token.kind = .calibrationBody ∨
      (token.kind = .error ∧ next.rest = []) := by
  obtain ⟨c, text, hr, hs, htoken⟩ := exists_of_next? h
  have hline := @token_line lexer.skipSpace c text hr hs
  rw [htoken] at hline
  exact hline hm

/-- Nothing follows where the text has come to its end. -/
theorem Drained.eq_nil (h : Drained lexer front last) (hr : lexer.rest = []) : front = [] := by
  cases h with
  | stop => rfl
  | next hnext =>
    have hlt := length_rest_next? hnext
    rw [hr] at hlt
    cases hlt

end Lexer

/-- A token with a line break in it is a block comment or a calibration body, or it is an error and
the last token. -/
theorem tokenize_line {source : SourceId} (h : (tokenize source text).1 = front ++ token :: back)
    (hm : '\n' ∈ token.text) : token.kind = .blockComment ∨ token.kind = .calibrationBody ∨
      (token.kind = .error ∧ back = []) := by
  have hdrained := Lexer.drained_drain (.ofText source text)
  rw [show (Lexer.ofText source text).drain.1 = front ++ token :: back from h] at hdrained
  obtain ⟨middle, -, hrest⟩ := hdrained.split
  cases hrest with
  | next hnext hback =>
    exact (Lexer.next?_line hnext hm).imp_right (.imp_right (.imp_right hback.eq_nil))

end

end OpenQasm
