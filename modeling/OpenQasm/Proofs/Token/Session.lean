import OpenQasm.Proofs.Token.Faults

/-!
# Sessions with a lexer

A lexer is asked for its next token and for what it has reported, in any order. What it reports is
one complaint about each error token that it has yielded, no sooner and no later, and taking reports
makes no difference to the tokens.

What an error token stands for is told by its first character. Invalid characters that stand
together are one token, so two such tokens in a row have blanks between them.
-/

namespace OpenQasm

/-! ## Complaints -/

namespace Token

/-- The characters that begin a string, a comment or a calibration body. -/
def openers : List Char := ['"', '\'', '/', '{']

/-- What is said about an error token with such a text. -/
def complaint (text : List Char) : String :=
  match text with
  | '"' :: _ | '\'' :: _ => "unterminated string literal"
  | '/' :: _ => "unterminated block comment"
  | '{' :: _ => "unterminated calibration block"
  | _ => Lexer.invalidMessage text

/-- What is reported about a token: nothing, unless it is an error. -/
def report? (token : Token) : Option Diagnostic :=
  if token.kind = .error then
    some { code := .lexicalError, span := token.span, message := complaint token.text }
  else none

/-- Whether a token stands for invalid characters: an error that is no string, no comment and no
calibration body without its end. -/
def isInvalid (token : Token) : Bool :=
  token.kind = .error && token.text.head?.all fun c => c ∉ openers

/-- The complaint about a text that opens nothing is that its character is invalid. -/
theorem complaint_of_not_mem {c : Char} {text : List Char} (h : c ∉ openers) :
    complaint (c :: text) = Lexer.invalidMessage (c :: text) := by
  simp only [openers, List.mem_cons, List.not_mem_nil, or_false, not_or] at h
  obtain ⟨hdouble, hsingle, hslash, hbrace⟩ := h
  unfold complaint
  split <;> simp_all

/-- A fault is told by the first character, and an invalid character is a piece by itself. -/
def Piece.Faulty (c : Char) (piece : Piece) : Prop :=
  match piece.verdict with
  | .token _ => True
  | .fault .unterminatedString => c = '"' ∨ c = '\''
  | .fault .unterminatedComment => c = '/'
  | .fault .invalidCharacter => c ∉ openers ∧ piece.tail = 0

section
variable {c : Char} {text : List Char}

/-- A left brace is a token of its own. -/
theorem scan_leftBrace (text : List Char) : scan '{' text = ⟨.token Symbol.leftBrace, 0⟩ := by
  have hstart : isIdentifierStart '{' = false := by decide
  simp [scan, hstart, startsNumber]
  rfl

/-- A word is never at fault. -/
theorem scanWord_faulty : (scanWord c text).Faulty c := by
  unfold scanWord
  dsimp only
  split <;> trivial

/-- The only fault behind a slash is an open comment. -/
theorem scanSlash_faulty : (scanSlash text).Faulty '/' := by
  unfold scanSlash
  split
  · trivial
  · split
    · trivial
    · rfl
  · trivial
  · trivial

/-- The only fault behind a quote is an open string. -/
theorem scanString_faulty (h : c = '"' ∨ c = '\'') : (scanString c text).Faulty c := by
  unfold scanString
  dsimp only
  split
  · trivial
  · exact h

/-- What starts with an at sign is never at fault. -/
theorem scanAt_faulty : (scanAt text).Faulty c := by
  unfold scanAt
  split
  · split
    · dsimp only
      split <;> trivial
    · trivial
  · trivial

/-- A dollar sign without digits is invalid by itself. -/
theorem scanDollar_faulty : (scanDollar text).Faulty '$' := by
  unfold scanDollar
  dsimp only
  split
  · trivial
  · exact ⟨by decide, rfl⟩

/-- A character that opens nothing is a symbol, or invalid by itself. -/
theorem scanSymbol_faulty (h : c ∉ openers) : (scanSymbol c text).Faulty c := by
  unfold scanSymbol
  split
  · trivial
  · exact ⟨h, rfl⟩

/-- A number sign without a pragma is invalid by itself. -/
theorem scanHash_faulty : (scanHash text).Faulty '#' := by
  unfold scanHash
  split
  · trivial
  · exact scanSymbol_faulty (by decide)

/-- Whatever piece the scanner cuts, its first character tells the fault. -/
theorem scan_faulty (c : Char) (text : List Char) : (scan c text).Faulty c := by
  by_cases hbrace : c = '{'
  · rw [hbrace, scan_leftBrace]
    trivial
  unfold scan
  split
  · exact scanWord_faulty
  split
  · trivial
  split
  · next hslash => exact hslash ▸ scanSlash_faulty
  split
  · next hquote => exact scanString_faulty hquote
  split
  · exact scanAt_faulty
  split
  · next hdollar => exact hdollar ▸ scanDollar_faulty
  split
  · next hhash => exact hhash ▸ scanHash_faulty
  · next hslash hquote _ _ _ =>
    refine scanSymbol_faulty ?_
    simp [openers, hslash, hbrace, not_or.1 hquote]

end

end Token

/-! ## Reports of a lexer -/

namespace Lexer

/-- The lexer with other reports not yet taken. -/
def withReports (lexer : Lexer) (reports : List Diagnostic) : Lexer :=
  { lexer with diagnostics := ⟨reports⟩ }

section
variable {lexer next : Lexer} {token : Token} {c : Char} {text : List Char}

/-- What is yielded does not depend on the reports, and adds its own to them. -/
def Adds (yielded told : Token × Lexer) (reports : List Diagnostic) : Prop :=
  told = (yielded.1, yielded.2.withReports (reports ++ yielded.1.report?.toList))

/-- A token that is cut adds no report. -/
theorem cut_adds (lexer : Lexer) {kind : TokenKind} {n : Nat} {reports : List Diagnostic}
    (h : kind ≠ .error) :
    Adds (lexer.cut kind n) ((lexer.withReports reports).cut kind n) reports := by
  have hnone : (lexer.cut kind n).1.report? = none := if_neg h
  rw [Adds, hnone, Option.toList_none, List.append_nil]
  rfl

/-- A token that fails adds the report of its own text. -/
theorem fail_adds (lexer : Lexer) {n : Nat} {message : String} {reports : List Diagnostic}
    (h : message = Token.complaint (lexer.rest.take n)) :
    Adds (lexer.fail n message) ((lexer.withReports reports).fail n message) reports := by
  subst h
  rfl

/-- A calibration body adds no report, or the one of its open brace. -/
theorem calibrationBody_adds (h : lexer.rest.head? = some '{') (reports : List Diagnostic) :
    Adds lexer.calibrationBody (lexer.withReports reports).calibrationBody reports := by
  have hrest : (lexer.withReports reports).rest = lexer.rest := rfl
  unfold calibrationBody
  rw [hrest]
  dsimp only
  split
  · exact cut_adds { lexer with calibrationPending := false } nofun
  · refine fail_adds { lexer with calibrationPending := false } ?_
    obtain ⟨text, htext⟩ := List.head?_eq_some_iff.1 h
    dsimp only
    rw [List.take_length, htext]
    rfl

/-- A run of invalid characters starts with the character at hand. -/
theorem take_invalidRun (hr : lexer.rest = c :: text) (hs : Token.isSpace c = false)
    (h : (Token.scan c text).verdict = .fault .invalidCharacter) :
    lexer.rest.take (invalidRun lexer.rest) = c :: text.take (invalidRun text) := by
  rw [hr, invalidRun, if_pos ⟨by simp [hs], h⟩, List.take_succ_cons]

/-- One token adds exactly its own report to those not yet taken. -/
theorem token_adds (hr : lexer.rest = c :: text) (hs : Token.isSpace c = false)
    (reports : List Diagnostic) :
    Adds (lexer.token c text) ((lexer.withReports reports).token c text) reports := by
  have htake : ∀ n, lexer.rest.take (n + 1) = c :: text.take n := by
    intro n
    rw [hr, List.take_succ_cons]
  have hfaulty := Token.scan_faulty c text
  unfold Lexer.token
  dsimp only
  split
  · next hverdict =>
    have hhead := (Token.scan_told hverdict).leftBrace rfl
    split
    · next hpending =>
      rw [show (lexer.withReports reports).calibrationPending = true from hpending, if_pos rfl]
      exact calibrationBody_adds (by rw [hr]; exact hhead) reports
    · next hpending =>
      rw [show (lexer.withReports reports).calibrationPending = lexer.calibrationPending from rfl,
        if_neg hpending]
      exact cut_adds lexer nofun
  · refine cut_adds lexer ?_
    unfold stringKind
    dsimp only
    split <;> exact nofun
  · next kind _ _ hverdict =>
    exact cut_adds { lexer with calibrationPending := pendingAfter lexer.calibrationPending kind }
      (Token.scan_told hverdict).ne_error
  · next hverdict =>
    rw [Token.Piece.Faulty, hverdict] at hfaulty
    refine fail_adds lexer ?_
    rw [take_invalidRun hr hs hverdict, Token.complaint_of_not_mem hfaulty.1]
  · next hverdict =>
    rw [Token.Piece.Faulty, hverdict] at hfaulty
    refine fail_adds lexer ?_
    rw [htake]
    rcases hfaulty with rfl | rfl <;> rfl
  · next hverdict =>
    rw [Token.Piece.Faulty, hverdict] at hfaulty
    refine fail_adds lexer ?_
    rw [htake, hfaulty]
    rfl

/-- The next token does not depend on what was reported before, and adds its own report to it. -/
theorem next?_withReports (lexer : Lexer) (reports : List Diagnostic) :
    (lexer.withReports reports).next? = lexer.next?.map fun (token, next) =>
      (token, next.withReports (reports ++ token.report?.toList)) := by
  have hrest : (lexer.withReports reports).skipSpace.rest = lexer.skipSpace.rest := rfl
  unfold next?
  dsimp only
  rw [hrest]
  split
  · rfl
  · next c text hr =>
    exact congrArg some (token_adds hr (isSpace_of_rest_skipSpace hr) reports)

/-- After a token, the reports are the earlier ones and the token's own. -/
theorem reports_of_next? (h : lexer.next? = some (token, next)) :
    next.diagnostics.items = lexer.diagnostics.items ++ token.report?.toList := by
  have heq := lexer.next?_withReports lexer.diagnostics.items
  rw [show lexer.withReports lexer.diagnostics.items = lexer from rfl, h, Option.map_some] at heq
  obtain ⟨-, hnext⟩ := Prod.mk.inj (Option.some.inj heq)
  exact congrArg (·.diagnostics.items) hnext

/-- At the end of the text there is nothing to drain. -/
theorem drain_of_none (h : lexer.next? = none) : lexer.drain = ([], lexer) := by
  rw [drain]
  split
  · rfl
  · next hsome => cases h.symm.trans hsome

/-- Before it, draining gives the next token and what the rest gives. -/
theorem drain_of_some (h : lexer.next? = some (token, next)) :
    lexer.drain = (token :: next.drain.1, next.drain.2) := by
  rw [drain]
  split
  · next hnone => cases h.symm.trans hnone
  · next hsome =>
    obtain ⟨rfl, rfl⟩ := Prod.mk.inj (Option.some.inj (h.symm.trans hsome))
    rfl

/-- Reports make no difference to the tokens. -/
theorem drain_withReports (lexer : Lexer) (reports : List Diagnostic) :
    (lexer.withReports reports).drain.1 = lexer.drain.1 := by
  have hnext := lexer.next?_withReports reports
  cases h : lexer.next? with
  | none =>
    rw [h, Option.map_none] at hnext
    rw [drain_of_none h, drain_of_none hnext]
  | some yielded =>
    obtain ⟨token, next⟩ := yielded
    rw [h, Option.map_some] at hnext
    rw [drain_of_some h, drain_of_some hnext, drain_withReports next]
termination_by lexer.rest.length
decreasing_by exact length_rest_next? h

/-! ## Invalid characters that stand together -/

/-- A token that is no error is not invalid. -/
theorem isInvalid_eq_false (h : token.kind ≠ .error) : token.isInvalid = false := by
  simp [Token.isInvalid, h]

/-- A failed token is an invalid character unless its first character opens something. -/
theorem isInvalid_fail_iff {n : Nat} {message : String} (hr : lexer.rest = c :: text) :
    (lexer.fail (n + 1) message).1.isInvalid ↔ c ∉ Token.openers := by
  simp [Token.isInvalid, fail, cut, hr]

/-- A token stands for invalid characters if one of them comes first. -/
theorem isInvalid_token_iff (hr : lexer.rest = c :: text) (hs : Token.isSpace c = false) :
    (lexer.token c text).1.isInvalid ↔
      (Token.scan c text).verdict = .fault .invalidCharacter := by
  have hfaulty := Token.scan_faulty c text
  unfold Lexer.token
  dsimp only
  split
  · next hverdict =>
    obtain rfl := Option.some.inj ((Token.scan_told hverdict).leftBrace rfl)
    rw [hverdict]
    refine iff_of_false ?_ (by simp)
    split
    · unfold calibrationBody
      dsimp only
      split
      · exact Bool.false_ne_true
      · have hlength : lexer.rest.length = text.length + 1 := congrArg List.length hr
        have hr' : { lexer with calibrationPending := false }.rest = '{' :: text := hr
        rw [hlength, isInvalid_fail_iff hr']
        decide
    · exact Bool.false_ne_true
  · next hverdict =>
    rw [hverdict]
    refine iff_of_false ?_ (by simp)
    rw [isInvalid_eq_false]
    · exact Bool.false_ne_true
    · unfold cut stringKind
      dsimp only
      split <;> simp
  · next kind _ _ hverdict =>
    rw [hverdict]
    refine iff_of_false ?_ (by simp)
    rw [isInvalid_eq_false (Token.scan_told hverdict).ne_error]
    exact Bool.false_ne_true
  · next hverdict =>
    rw [Token.Piece.Faulty, hverdict] at hfaulty
    rw [hverdict, failInvalid, hr, invalidRun, if_pos ⟨by simp [hs], hverdict⟩,
      isInvalid_fail_iff hr]
    exact iff_of_true hfaulty.1 rfl
  · next hverdict =>
    rw [Token.Piece.Faulty, hverdict] at hfaulty
    rw [hverdict, isInvalid_fail_iff hr]
    refine iff_of_false (fun hmem => hmem ?_) (by simp)
    rcases hfaulty with rfl | rfl <;> decide
  · next hverdict =>
    rw [Token.Piece.Faulty, hverdict] at hfaulty
    rw [hverdict, isInvalid_fail_iff hr]
    refine iff_of_false (fun hmem => hmem ?_) (by simp)
    rw [hfaulty]
    decide

/-- Behind invalid characters stands none. -/
theorem invalidRun_stops {rest : List Char} (h : rest.drop (invalidRun rest) = c :: text)
    (hs : Token.isSpace c = false) : (Token.scan c text).verdict ≠ .fault .invalidCharacter := by
  induction rest with
  | nil => cases h
  | cons first rest ih =>
    rw [invalidRun] at h
    split at h
    · exact ih h
    · next hno =>
      obtain ⟨rfl, rfl⟩ := List.cons.inj h
      exact fun hinvalid => hno ⟨by simp [hs], hinvalid⟩

/-- A run of invalid characters is one longer than that behind its first. -/
theorem invalidRun_cons (hs : Token.isSpace c = false)
    (h : (Token.scan c text).verdict = .fault .invalidCharacter) :
    invalidRun (c :: text) = invalidRun text + 1 := by
  rw [invalidRun, if_pos ⟨by simp [hs], h⟩]

/-- There is no such run where no invalid character stands. -/
theorem invalidRun_eq_zero {rest : List Char} (h : ∀ c text, rest = c :: text →
    Token.isSpace c = false → (Token.scan c text).verdict ≠ .fault .invalidCharacter) :
    invalidRun rest = 0 := by
  cases rest with
  | nil => rfl
  | cons c text =>
    rw [invalidRun, if_neg]
    simpa using h c text rfl

/-- Before the end of the text, the next token is that behind the blanks. -/
theorem next?_of_rest (h : lexer.skipSpace.rest = c :: text) :
    lexer.next? = some (lexer.skipSpace.token c text) := by
  unfold next?
  dsimp only
  rw [h]

/-- Only blanks ahead: there is no next token. -/
theorem next?_eq_none (h : lexer.skipSpace.rest = []) : lexer.next? = none := by
  unfold next?
  dsimp only
  rw [h]

/-- A token that is drawn stands behind the blanks, at a character that is none. -/
theorem exists_of_next? (h : lexer.next? = some (token, next)) :
    ∃ c text, lexer.skipSpace.rest = c :: text ∧ Token.isSpace c = false ∧
      lexer.skipSpace.token c text = (token, next) := by
  cases hr : lexer.skipSpace.rest with
  | nil =>
    unfold next? at h
    dsimp only at h
    rw [hr] at h
    cases h
  | cons c text =>
    rw [next?_of_rest hr] at h
    exact ⟨c, text, rfl, isSpace_of_rest_skipSpace hr, Option.some.inj h⟩

/-- At an invalid character, the token is the whole run of such characters. -/
theorem token_of_invalid (h : (Token.scan c text).verdict = .fault .invalidCharacter) :
    lexer.token c text = lexer.failInvalid := by
  unfold Lexer.token
  dsimp only
  rw [h]

/-- A character right behind a token that stands for invalid characters is valid. -/
theorem isSpace_of_isInvalid (h : lexer.next? = some (token, next)) (hi : token.isInvalid)
    (hr : next.rest = c :: text) :
    Token.isSpace c ∨ (Token.scan c text).verdict ≠ .fault .invalidCharacter := by
  obtain ⟨first, rest, hrest, hspace, htoken⟩ := exists_of_next? h
  have hverdict := (isInvalid_token_iff hrest hspace).1 (by rw [htoken]; exact hi)
  rw [token_of_invalid hverdict] at htoken
  have hdrop : lexer.skipSpace.rest.drop (invalidRun lexer.skipSpace.rest) = c :: text := by
    rw [← hr, ← show lexer.skipSpace.failInvalid.2 = next from congrArg Prod.snd htoken]
    rfl
  cases hc : Token.isSpace c with
  | true => exact .inl rfl
  | false => exact .inr (invalidRun_stops hdrop hc)

end

/-! ## Tokens one after the other -/

/-- A lexer yields these tokens one after the other, and is then the last one. -/
inductive Yields : Lexer → List Token → Lexer → Prop
  | nil {lexer : Lexer} : Yields lexer [] lexer
  | cons {lexer next last : Lexer} {token : Token} {tokens : List Token} :
      lexer.next? = some (token, next) → Yields next tokens last →
      Yields lexer (token :: tokens) last

/-- A text is these tokens in their order, with blanks around them. -/
inductive Laid : List Char → List Token → Prop
  | blanks {blanks : List Char} : (∀ c ∈ blanks, Token.isSpace c) → Laid blanks []
  | token {blanks rest : List Char} {token : Token} {tokens : List Token} :
      (∀ c ∈ blanks, Token.isSpace c) → Laid rest tokens →
      Laid (blanks ++ (token.text ++ rest)) (token :: tokens)

section
variable {lexer next last : Lexer} {token left right : Token}
  {tokens front between back : List Token}

/-- More blanks may stand at the end. -/
theorem Laid.append {text blanks : List Char} (h : Laid text tokens)
    (hb : ∀ c ∈ blanks, Token.isSpace c) : Laid (text ++ blanks) tokens := by
  induction h with
  | blanks hs =>
    refine .blanks fun c hc => ?_
    rcases List.mem_append.1 hc with hc | hc
    · exact hs c hc
    · exact hb c hc
  | token hs _ ih => simpa using ih.token hs

/-- Draining a text is drawing some of its tokens and draining the rest. -/
theorem Drained.split (h : Drained lexer (front ++ back) last) :
    ∃ middle, Yields lexer front middle ∧ Drained middle back last := by
  induction front generalizing lexer with
  | nil => exact ⟨lexer, .nil, h⟩
  | cons token front ih =>
    cases h with
    | next hnext hrest =>
      obtain ⟨middle, hyields, hback⟩ := ih hrest
      exact ⟨middle, .cons hnext hyields, hback⟩

/-- What has been yielded lies behind. -/
theorem Yields.laid (h : Yields lexer tokens last) :
    ∃ behind, lexer.rest = behind ++ last.rest ∧ Laid behind tokens ∧
      last.source = lexer.source ∧ last.offset = lexer.offset + Text.width behind := by
  induction h with
  | nil => exact ⟨[], rfl, .blanks nofun, rfl, rfl⟩
  | @cons lexer next last token tokens hnext _ ih =>
    obtain ⟨behind, hrest, hlaid, hsource, hoffset⟩ := ih
    obtain ⟨blanks, hblanks, -, htext, hstop, -⟩ := exists_blanks hnext
    obtain ⟨passed, hbehind, hpassed, -⟩ := next?_spans hnext
    refine ⟨_, ?_, .token hblanks hlaid, ?_, ?_⟩
    · rw [htext, hrest]
      simp
    · rw [hsource, hpassed.source, hbehind.source]
    · rw [hoffset, hstop, Text.width_append, Text.width_append]
      omega

/-- Reports make no difference to what is yielded. -/
theorem Yields.withReports (h : Yields lexer tokens last) (reports : List Diagnostic) :
    ∃ more, Yields (lexer.withReports reports) tokens (last.withReports more) := by
  induction h generalizing reports with
  | nil => exact ⟨reports, .nil⟩
  | @cons lexer next last token tokens hnext _ ih =>
    obtain ⟨more, hyields⟩ := ih (reports ++ token.report?.toList)
    refine ⟨more, .cons ?_ hyields⟩
    rw [next?_withReports, hnext, Option.map_some]

/-- The token that comes next stands behind what has been yielded. -/
theorem Yields.laid_next (h : Yields lexer tokens last) (hn : last.next? = some (token, next)) :
    ∃ behind, lexer.rest = behind ++ (token.text ++ next.rest) ∧ Laid behind tokens ∧
      next.source = lexer.source ∧
      next.offset = lexer.offset + Text.width (behind ++ token.text) ∧
      token.span = .ofRange lexer.source (lexer.offset + Text.width behind) next.offset := by
  obtain ⟨behind, hrest, hlaid, hsource, hoffset⟩ := h.laid
  obtain ⟨blanks, hblanks, -, htext, hstop, hspan⟩ := exists_blanks hn
  obtain ⟨passed, hbehind, hpassed, -⟩ := next?_spans hn
  refine ⟨behind ++ blanks, ?_, hlaid.append hblanks, ?_, ?_, ?_⟩
  · rw [hrest, htext, List.append_assoc]
  · rw [hpassed.source, hbehind.source, hsource]
  · simp only [hstop, hoffset, Text.width_append, Nat.add_assoc]
  · rw [hspan, hsource, hoffset, Text.width_append, Nat.add_assoc]

/-- Every token that is drawn takes at least one character. -/
theorem Yields.length_le (h : Yields lexer tokens last) :
    last.rest.length + tokens.length ≤ lexer.rest.length := by
  induction h with
  | nil => exact Nat.le_refl _
  | cons hnext _ ih =>
    have := length_rest_next? hnext
    rw [List.length_cons]
    omega

/-- Two tokens of a text with other ones between them stand apart if some text lies between them. -/
def Apart (source : SourceId) (text : List Char) (front : List Token) (left : Token)
    (between : List Token) (right : Token) : Prop :=
  ∃ before gap rest, text = before ++ (left.text ++ (gap ++ (right.text ++ rest))) ∧ gap ≠ [] ∧
    Laid before front ∧ Laid gap between ∧
    left.span = .ofRange source (Text.width before) (Text.width (before ++ left.text)) ∧
    right.span = .ofRange source (Text.width (before ++ left.text ++ gap))
      (Text.width (before ++ left.text ++ gap ++ right.text))

/-- Text that is ahead of the next token, if it stands for invalid characters as the last one did,
begins with a blank. -/
theorem rest_ne_of_isInvalid {first second : Lexer} (hl : lexer.next? = some (left, first))
    (hr : first.next? = some (right, second)) (hli : left.isInvalid) (hri : right.isInvalid) :
    first.rest ≠ right.text ++ second.rest := by
  obtain ⟨c, text, hrest, hspace, htoken⟩ := exists_of_next? hr
  have hahead : right.text ++ second.rest = first.skipSpace.rest := by
    have happend := first.skipSpace.token_append c text
    rwa [htoken] at happend
  intro hnear
  rw [hahead, hrest] at hnear
  rcases isSpace_of_isInvalid hl hli hnear with hc | hc
  · exact Bool.false_ne_true (hspace.symm.trans hc)
  · refine hc ((isInvalid_token_iff hrest hspace).1 ?_)
    rw [htoken]
    exact hri

/-- Tokens that stand for invalid characters stand apart. -/
theorem Drained.apart (h : Drained lexer (front ++ left :: (between ++ right :: back)) last)
    (ho : lexer.offset = 0) (hl : left.isInvalid) (hr : right.isInvalid) :
    Apart lexer.source lexer.rest front left between right := by
  obtain ⟨middle, hfront, hdrained⟩ := h.split
  cases hdrained with
  | @next _ after _ _ _ hleft hdrained =>
  obtain ⟨ahead, hbetween, hdrained⟩ := hdrained.split
  cases hdrained with
  | @next _ next _ _ _ hright hdrained =>
  obtain ⟨before, hrest, hlaid, hsource, hoffset, hspan⟩ := hfront.laid_next hleft
  obtain ⟨gap, hrest', hgap, -, hoffset', hspan'⟩ := hbetween.laid_next hright
  rw [ho, Nat.zero_add] at hoffset
  rw [hoffset, ← Text.width_append] at hoffset'
  rw [ho, Nat.zero_add, hoffset] at hspan
  rw [hsource, hoffset', hoffset, ← Text.width_append] at hspan'
  rw [hrest'] at hrest
  refine ⟨before, gap, next.rest, hrest, ?_, hlaid, hgap, hspan, by simpa using hspan'⟩
  intro hnil
  rw [hnil, List.nil_append] at hrest'
  obtain ⟨blanks, -, -, hahead, -, -⟩ := exists_blanks hright
  have hlength := hbetween.length_le
  rw [hahead, ← hrest', List.length_append] at hlength
  obtain rfl : between = [] := List.length_eq_zero_iff.1 (by omega)
  cases hbetween
  exact rest_ne_of_isInvalid hleft hright hl hr hrest'

end

end Lexer

/-! ## Sessions -/

/-- What may be asked for: the next token, or what has been reported and not yet taken. -/
inductive Call where
  | next
  | take
deriving DecidableEq, Repr

/-- What is answered to a call. There is no token at the end of the text. -/
inductive Answer where
  | token (token? : Option Token)
  | reports (reports : List Diagnostic)
deriving DecidableEq, Repr

namespace Answer

/-- The tokens that are yielded in some answers. -/
def tokens (answers : List Answer) : List Token :=
  answers.filterMap fun
    | token found => found
    | reports _ => none

/-- What is taken in some answers. -/
def taken (answers : List Answer) : List Diagnostic :=
  answers.flatMap fun
    | token _ => []
    | reports found => found

section
variable {answers : List Answer}

/-- No answers, no tokens. -/
@[simp] theorem tokens_nil : tokens [] = [] := rfl

/-- A token that is answered is one of the tokens. -/
@[simp] theorem tokens_some {found : Token} :
    tokens (.token (some found) :: answers) = found :: tokens answers := rfl

/-- The answer at the end of the text is none. -/
@[simp] theorem tokens_none : tokens (.token none :: answers) = tokens answers := rfl

/-- Neither is an answer with reports. -/
@[simp] theorem tokens_reports {found : List Diagnostic} :
    tokens (.reports found :: answers) = tokens answers := rfl

/-- No answers, no reports. -/
@[simp] theorem taken_nil : taken [] = [] := rfl

/-- A token that is answered is no report. -/
@[simp] theorem taken_token {found : Option Token} :
    taken (.token found :: answers) = taken answers := rfl

/-- The reports of an answer come before those of the later ones. -/
@[simp] theorem taken_reports {found : List Diagnostic} :
    taken (.reports found :: answers) = found ++ taken answers := rfl

end

end Answer

/-- The two ways to ask something of a machine. -/
structure Interface (Machine : Type) where
  next? : Machine → Option (Token × Machine)
  take : Machine → List Diagnostic × Machine

namespace Interface

variable {Machine Other : Type}

/-- The answer to a call, and the machine after it. -/
def answer (face : Interface Machine) (machine : Machine) : Call → Answer × Machine
  | .next =>
    match face.next? machine with
    | some (token, after) => (.token (some token), after)
    | none => (.token none, machine)
  | .take =>
    let (reports, after) := face.take machine
    (.reports reports, after)

/-- The answers to some calls one after the other, and the machine after them. -/
def serve (face : Interface Machine) (machine : Machine) : List Call → List Answer × Machine
  | [] => ([], machine)
  | call :: calls =>
    let (answer, after) := face.answer machine call
    let (answers, last) := face.serve after calls
    (answer :: answers, last)

/-- Machines that answer each call alike, and are alike after it, answer all calls alike. -/
theorem serve_congr {face : Interface Machine} {other : Interface Other}
    (alike : Machine → Other → Prop)
    (h : ∀ machine machine', alike machine machine' → ∀ call,
      (face.answer machine call).1 = (other.answer machine' call).1 ∧
      alike (face.answer machine call).2 (other.answer machine' call).2)
    {machine : Machine} {machine' : Other} (ha : alike machine machine') (calls : List Call) :
    (face.serve machine calls).1 = (other.serve machine' calls).1 ∧
      alike (face.serve machine calls).2 (other.serve machine' calls).2 := by
  induction calls generalizing machine machine' with
  | nil => exact ⟨rfl, ha⟩
  | cons call calls ih =>
    obtain ⟨hanswer, hafter⟩ := h machine machine' ha call
    obtain ⟨hanswers, hlast⟩ := ih hafter
    exact ⟨congrArg₂ List.cons hanswer hanswers, hlast⟩

end Interface

namespace Lexer

def interface : Interface Lexer := ⟨next?, takeDiagnostics⟩

section
variable {lexer next : Lexer} {token : Token} {calls : List Call}

/-- A call that takes the reports answers all that wait and leaves none. -/
theorem serve_take : interface.serve lexer (.take :: calls) =
    (.reports lexer.diagnostics.items :: (interface.serve (lexer.withReports []) calls).1,
      (interface.serve (lexer.withReports []) calls).2) := rfl

/-- A call for a token answers the next one and goes on behind it. -/
theorem serve_next (h : lexer.next? = some (token, next)) :
    interface.serve lexer (.next :: calls) =
      (.token (some token) :: (interface.serve next calls).1, (interface.serve next calls).2) := by
  have hanswer : interface.answer lexer .next = (.token (some token), next) := by
    unfold Interface.answer interface
    dsimp only
    rw [h]
  rw [Interface.serve, hanswer]

/-- At the end of the text it answers none, and the session stays there. -/
theorem serve_end (h : lexer.next? = none) :
    interface.serve lexer (.next :: calls) =
      (.token none :: (interface.serve lexer calls).1, (interface.serve lexer calls).2) := by
  have hanswer : interface.answer lexer .next = (.token none, lexer) := by
    unfold Interface.answer interface
    dsimp only
    rw [h]
  rw [Interface.serve, hanswer]

end

/-- What was taken and what is left to take are the reports about the tokens yielded, in their
order. -/
theorem serve_reports (lexer : Lexer) (calls : List Call) :
    Answer.taken (interface.serve lexer calls).1 ++
        (interface.serve lexer calls).2.diagnostics.items =
      lexer.diagnostics.items ++
        (Answer.tokens (interface.serve lexer calls).1).filterMap Token.report? := by
  induction calls generalizing lexer with
  | nil => simp [Interface.serve]
  | cons call calls ih =>
    cases call with
    | take =>
      have hrest := ih (lexer.withReports [])
      rw [serve_take, Answer.taken_reports, Answer.tokens_reports, List.append_assoc, hrest]
      rfl
    | next =>
      cases h : lexer.next? with
      | none => simpa [serve_end h] using ih lexer
      | some yielded =>
        obtain ⟨token, next⟩ := yielded
        rw [serve_next h, Answer.taken_token, Answer.tokens_some, ih next, reports_of_next? h,
          List.filterMap_cons]
        cases token.report? <;> simp

/-- The tokens are yielded one after the other, but for what is taken between them. -/
theorem serve_yields (lexer : Lexer) (calls : List Call) :
    ∃ reports, Yields lexer (Answer.tokens (interface.serve lexer calls).1)
      ((interface.serve lexer calls).2.withReports reports) := by
  induction calls generalizing lexer with
  | nil => exact ⟨lexer.diagnostics.items, .nil⟩
  | cons call calls ih =>
    cases call with
    | take =>
      obtain ⟨reports, hyields⟩ := ih (lexer.withReports [])
      exact hyields.withReports lexer.diagnostics.items
    | next =>
      cases h : lexer.next? with
      | none =>
        rw [serve_end h]
        exact ih lexer
      | some yielded =>
        obtain ⟨token, next⟩ := yielded
        obtain ⟨reports, hyields⟩ := ih next
        rw [serve_next h]
        exact ⟨reports, .cons h hyields⟩

/-- The tokens yielded are the first ones of the text. -/
theorem serve_tokens (lexer : Lexer) (calls : List Call) :
    Answer.tokens (interface.serve lexer calls).1 = lexer.drain.1.take (calls.count .next) := by
  induction calls generalizing lexer with
  | nil => simp [Interface.serve]
  | cons call calls ih =>
    cases call with
    | take => simp [serve_take, ih, drain_withReports]
    | next =>
      cases h : lexer.next? with
      | none => simp [serve_end h, ih, drain_of_none h]
      | some yielded =>
        obtain ⟨token, next⟩ := yielded
        simp [serve_next h, ih, drain_of_some h]

end Lexer

end OpenQasm
