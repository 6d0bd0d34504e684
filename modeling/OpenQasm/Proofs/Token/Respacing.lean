import OpenQasm.Proofs.Token.Bodies
import OpenQasm.Proofs.Token.Rescanning

/-!
# Tokens on lines of their own

A text is cut into the same tokens when its tokens are put on lines of their own: where tokens begin
and end, and what they are called, does not depend on the blanks between them. It does depend on
characters that follow a token without a blank, in three cases. A number may end in an exponent mark
that leads nowhere, an integer may be a radix mark without digits, and an identifier may be a
reserved word. Where there is a token like that the texts differ, and only there.
-/

namespace OpenQasm

/-- What a token is and how it is written. -/
def Token.content (token : Token) : TokenKind × List Char := (token.kind, token.text)

/-- The texts of tokens with single line breaks between them. -/
def respaced (tokens : List Token) : List Char := ['\n'].intercalate (tokens.map Token.text)

namespace Lexer

open Token (LineEnd)

/-- What a lexer yields: the kind and the text of a token, the text behind it, and whether a
calibration body is pending there. -/
structure Cuts (yielded : Token × Lexer) (kind : TokenKind) (word rest : List Char)
    (pending : Bool) : Prop where
  kind : yielded.1.kind = kind
  text : yielded.1.text = word
  rest : yielded.2.rest = rest
  pending : yielded.2.calibrationPending = pending

section
variable {lexer other : Lexer} {c : Char} {text word rest stop : List Char} {kind : TokenKind}
  {n : Nat} {pending : Bool}

/-- A token that is cut is the head of the text. -/
theorem cut_cuts (word : List Char) (hr : lexer.rest = word ++ rest) (hn : n = word.length) :
    Cuts ({ lexer with calibrationPending := pending }.cut kind n) kind word rest pending := by
  subst hn
  exact ⟨rfl, by simp [cut, hr], by simp [hr], rfl⟩

/-- So is a token at fault. -/
theorem fail_cuts (word : List Char) {message : String} (hr : lexer.rest = word ++ rest)
    (hn : n = word.length) : Cuts ({ lexer with calibrationPending := pending }.fail n message)
      .error word rest pending := by
  subst hn
  exact ⟨rfl, by simp [fail, cut, hr], by simp [hr], rfl⟩

/-- Invalid characters are a run of the same length where a line ends behind them. -/
theorem exists_invalidRun (rest : List Char) : ∃ word more, rest = word ++ more ∧
    ∀ stop, stop = more ∨ LineEnd stop → invalidRun (word ++ stop) = word.length := by
  induction rest with
  | nil =>
    refine ⟨[], [], rfl, fun stop hs => ?_⟩
    rcases hs with rfl | hs
    · rfl
    · rcases hs.eq_nil_or with rfl | ⟨rest, rfl⟩ <;> rfl
  | cons c text ih =>
    by_cases hinvalid : !Token.isSpace c ∧ (Token.scan c text).verdict = .fault .invalidCharacter
    · obtain ⟨word, more, rfl, hstop⟩ := ih
      refine ⟨c :: word, more, rfl, fun stop hs => ?_⟩
      have hverdict : (Token.scan c (word ++ stop)).verdict = .fault .invalidCharacter := by
        rcases hs with rfl | hs
        · exact hinvalid.2
        · exact Token.scan_invalid hinvalid.2 hs
      rw [List.cons_append, invalidRun, if_pos ⟨hinvalid.1, hverdict⟩, hstop stop hs]
      rfl
    · refine ⟨[], c :: text, rfl, fun stop hs => ?_⟩
      rcases hs with rfl | hs
      · exact if_neg hinvalid
      · rcases hs.eq_nil_or with rfl | ⟨rest, rfl⟩ <;> rfl

/-- A body goes up to its brace, whatever follows that. -/
theorem exists_closingLength {depth : Nat} (h : closingLength? depth text = some n) :
    ∃ word rest, text = word ++ rest ∧
      ∀ stop, closingLength? depth (word ++ stop) = some word.length := by
  fun_induction closingLength? depth text generalizing n with
  | case1 text => exact ⟨[], text, rfl, fun _ => by simp [closingLength?]⟩
  | case2 => cases h
  | case3 depth c text ih =>
    obtain ⟨m, hm, rfl⟩ := Option.map_eq_some_iff.1 h
    obtain ⟨word, rest, rfl, hstop⟩ := ih hm
    refine ⟨c :: word, rest, rfl, fun stop => ?_⟩
    rw [List.cons_append, closingLength?_cons]
    exact congrArg (Option.map (· + 1)) (hstop stop)

/-- The token that a lexer cuts off is cut off again by any other one for which a body is pending as
well, where a line ends right behind the token. It is called the same unless it wavers. A token that
takes all of the text is to be the last one again. -/
def Settles (lexer : Lexer) (c : Char) (text : List Char) : Prop :=
  ∃ kind word rest pending, text = word ++ rest ∧
    Cuts (lexer.token c text) kind (c :: word) rest pending ∧
    ∀ (other : Lexer) (stop : List Char), other.rest = c :: (word ++ stop) →
      other.calibrationPending = lexer.calibrationPending → LineEnd stop →
      (rest = [] → stop = []) →
      (kind.wavers (c :: word) = false ∧
        Cuts (other.token c (word ++ stop)) kind (c :: word) stop pending) ∨
      (kind.wavers (c :: word) = true ∧ (other.token c (word ++ stop)).1.kind ≠ kind)

/-- A string that is not closed is a token at fault. -/
theorem token_of_unterminatedString
    (h : (Token.scan c text).verdict = .fault .unterminatedString) : lexer.token c text =
      lexer.fail ((Token.scan c text).tail + 1) "unterminated string literal" := by
  unfold Lexer.token
  dsimp only
  rw [h]

/-- So is a comment that is not closed. -/
theorem token_of_unterminatedComment
    (h : (Token.scan c text).verdict = .fault .unterminatedComment) : lexer.token c text =
      lexer.fail ((Token.scan c text).tail + 1) "unterminated block comment" := by
  unfold Lexer.token
  dsimp only
  rw [h]

/-- A string is one token, of the kind that its text tells. -/
theorem token_of_string (h : (Token.scan c text).verdict = .token .string) :
    lexer.token c text = lexer.cut (stringKind (lexer.rest.take ((Token.scan c text).tail + 1)))
      ((Token.scan c text).tail + 1) := by
  unfold Lexer.token
  dsimp only
  rw [h]

/-- A piece of any other kind is a token of that kind. -/
theorem token_of_kind (h : (Token.scan c text).verdict = .token kind)
    (hbrace : kind ≠ Symbol.leftBrace) (hstring : kind ≠ .string) :
    lexer.token c text =
      { lexer with calibrationPending := pendingAfter lexer.calibrationPending kind }.cut kind
        ((Token.scan c text).tail + 1) := by
  unfold Lexer.token
  dsimp only
  rw [h]
  split <;> simp_all

/-- A left brace opens a calibration body where one is awaited. -/
theorem token_leftBrace :
    lexer.token '{' text =
      if lexer.calibrationPending then lexer.calibrationBody else lexer.cut Symbol.leftBrace 1 := by
  unfold Lexer.token
  rw [Token.scan_leftBrace]

/-! ## One token -/

/-- A token of a kind that does not waver settles if it is cut off with its own rest behind it and
with the end of a line. -/
theorem Settles.steady (kind : TokenKind) (pending : Bool) (hr : lexer.rest = c :: (word ++ rest))
    (hsteady : kind.wavers (c :: word) = false)
    (h : ∀ (other : Lexer) (stop : List Char), other.rest = c :: (word ++ stop) →
      other.calibrationPending = lexer.calibrationPending →
      stop = rest ∨ LineEnd stop ∧ (rest = [] → stop = []) →
      Cuts (other.token c (word ++ stop)) kind (c :: word) stop pending) :
    Settles lexer c (word ++ rest) :=
  ⟨kind, word, rest, pending, rfl, h lexer rest hr rfl (.inl rfl), fun other stop ho hp hs hend =>
    .inl ⟨hsteady, h other stop ho hp (.inr ⟨hs, hend⟩)⟩⟩

/-- A comment that is not closed settles only at the end of the text. -/
theorem settles_unterminatedComment (hr : lexer.rest = c :: text)
    (h : (Token.scan c text).verdict = .fault .unterminatedComment) : Settles lexer c text := by
  rw [← List.append_nil text] at hr ⊢
  refine .steady .error lexer.calibrationPending hr rfl fun other stop ho hp hs => ?_
  obtain rfl : stop = [] := hs.elim id fun hs => hs.2 rfl
  rw [List.append_nil] at ho ⊢
  rw [← hp, token_of_unterminatedComment h, Token.tail_of_unterminatedComment h]
  exact fail_cuts _ (by rw [ho, List.append_nil]) rfl

/-- A string that is not closed settles. -/
theorem settles_unterminatedString (hr : lexer.rest = c :: text)
    (h : (Token.scan c text).verdict = .fault .unterminatedString) : Settles lexer c text := by
  obtain ⟨word, rest, rfl, htail, hretold⟩ := Token.scan_settled (by rw [h]; nofun)
  refine .steady .error lexer.calibrationPending hr rfl fun other stop ho hp hs => ?_
  have hscan : Token.scan c (word ++ stop) = Token.scan c (word ++ rest) := by
    rcases hs with rfl | ⟨hs, -⟩
    · rfl
    · exact (hretold stop hs).eq_of_steady (by rw [h]; nofun)
  rw [← hp, token_of_unterminatedString (hscan ▸ h), hscan, htail]
  exact fail_cuts _ ho rfl

/-- Invalid characters settle with the run of them. -/
theorem settles_invalid (hr : lexer.rest = c :: text) (hc : Token.isSpace c = false)
    (h : (Token.scan c text).verdict = .fault .invalidCharacter) : Settles lexer c text := by
  obtain ⟨word, rest, htext, hrun⟩ := exists_invalidRun (c :: text)
  cases word with
  | nil =>
    have hpos := invalidRun_pos hc h
    rw [htext, hrun rest (.inl rfl)] at hpos
    cases hpos
  | cons d word =>
    obtain ⟨rfl, htail⟩ := List.cons.inj htext
    obtain rfl : text = word ++ rest := htail
    refine .steady .error lexer.calibrationPending hr rfl fun other stop ho hp hs => ?_
    have hverdict : (Token.scan c (word ++ stop)).verdict = .fault .invalidCharacter := by
      rcases hs with rfl | ⟨hs, -⟩
      · exact h
      · exact Token.scan_invalid h hs
    have hlength : invalidRun other.rest = (c :: word).length :=
      ho ▸ hrun stop (hs.imp_right And.left)
    rw [← hp, token_of_invalid hverdict, failInvalid]
    exact fail_cuts _ ho hlength

/-- A string settles. -/
theorem settles_string (hr : lexer.rest = c :: text)
    (h : (Token.scan c text).verdict = .token .string) : Settles lexer c text := by
  obtain ⟨word, rest, rfl, htail, hretold⟩ := Token.scan_settled (by rw [h]; nofun)
  have hsteady : (stringKind (c :: word)).wavers (c :: word) = false := by
    unfold stringKind
    dsimp only
    split <;> rfl
  refine .steady _ lexer.calibrationPending hr hsteady fun other stop ho hp hs => ?_
  have hscan : Token.scan c (word ++ stop) = Token.scan c (word ++ rest) := by
    rcases hs with rfl | ⟨hs, -⟩
    · rfl
    · exact (hretold stop hs).eq_of_steady fun kind hk => by cases h.symm.trans hk; rfl
  have htake : other.rest.take (word.length + 1) = c :: word := by simp [ho]
  rw [← hp, token_of_string (hscan ▸ h), hscan, htail, htake]
  exact cut_cuts _ ho rfl

/-- A kind that wavers is told by the scanner alone. -/
theorem isScanned_of_wavers (h : kind.wavers text) : Token.isScanned kind := by
  cases kind <;> first | rfl | cases h

/-- A piece of any other kind settles as its scan does. -/
theorem settles_kind (hr : lexer.rest = c :: text)
    (h : (Token.scan c text).verdict = .token kind) (hbrace : kind ≠ Symbol.leftBrace)
    (hstring : kind ≠ .string) : Settles lexer c text := by
  obtain ⟨word, rest, rfl, htail, hretold⟩ := Token.scan_settled (by rw [h]; nofun)
  have hcuts : ∀ (other : Lexer) (stop : List Char), other.rest = (c :: word) ++ stop →
      Token.scan c (word ++ stop) = Token.scan c (word ++ rest) →
      Cuts (other.token c (word ++ stop)) kind (c :: word) stop
        (pendingAfter other.calibrationPending kind) := by
    intro other stop ho hscan
    rw [token_of_kind (hscan ▸ h) hbrace hstring, hscan, htail]
    exact cut_cuts _ ho rfl
  refine ⟨kind, word, rest, pendingAfter lexer.calibrationPending kind, rfl,
    hcuts lexer rest hr rfl, ?_⟩
  intro other stop ho hp hs _
  have htold := hretold stop hs
  generalize hpiece : Token.scan c (word ++ stop) = piece at htold
  cases htold with
  | same hsteady => exact .inl ⟨hsteady kind h, hp ▸ hcuts other stop ho hpiece⟩
  | @changed wavering _ hkind hwavers hne =>
    obtain rfl : kind = wavering := Token.Verdict.token.inj (h.symm.trans hkind)
    refine .inr ⟨hwavers, fun heq => hne ?_⟩
    obtain ⟨hverdict, -⟩ := scan_of_isScanned ho (heq ▸ isScanned_of_wavers hwavers)
    rw [← hpiece, hverdict, heq, h]

/-- A calibration body is closed, or runs to the end of the text. -/
theorem calibrationBody_eq (hr : lexer.rest = '{' :: text) : lexer.calibrationBody =
    match closingLength? 1 text with
    | some n => { lexer with calibrationPending := false }.cut .calibrationBody (n + 1)
    | none => { lexer with calibrationPending := false }.fail (text.length + 1)
        "unterminated calibration block" := by
  unfold calibrationBody
  rw [hr]
  rfl

/-- Where a body is pending, it settles with its closing brace, or else it takes all of the text. -/
theorem settles_calibrationBody (hr : lexer.rest = '{' :: text)
    (hpending : lexer.calibrationPending = true) : Settles lexer '{' text := by
  have htoken : ∀ (other : Lexer) (stop : List Char),
      other.calibrationPending = lexer.calibrationPending →
      other.token '{' stop = other.calibrationBody := fun other stop hp => by
    rw [token_leftBrace, hp, if_pos hpending]
  cases hlength : closingLength? 1 text with
  | some n =>
    obtain ⟨word, rest, rfl, hclosed⟩ := exists_closingLength hlength
    refine .steady .calibrationBody false hr rfl fun other stop ho hp _ => ?_
    rw [htoken other _ hp, calibrationBody_eq ho, hclosed stop]
    exact cut_cuts ('{' :: word) ho rfl
  | none =>
    rw [← List.append_nil text] at hr ⊢
    refine .steady .error false hr rfl fun other stop ho hp hs => ?_
    obtain rfl : stop = [] := hs.elim id fun hs => hs.2 rfl
    rw [List.append_nil] at ho ⊢
    rw [htoken other _ hp, calibrationBody_eq ho, hlength]
    exact fail_cuts ('{' :: text) (by rw [List.append_nil]; exact ho) rfl

/-- A left brace settles with the body that it opens. -/
theorem settles_leftBrace (hr : lexer.rest = '{' :: text) : Settles lexer '{' text := by
  by_cases hpending : lexer.calibrationPending
  · exact settles_calibrationBody hr hpending
  · have hword : ([] : List Char) ++ text = text := rfl
    rw [← hword] at hr ⊢
    refine .steady Symbol.leftBrace lexer.calibrationPending hr rfl fun other stop ho hp _ => ?_
    rw [token_leftBrace, if_neg (hp ▸ hpending), ← hp]
    exact cut_cuts ['{'] ho rfl

/-- Every token settles. -/
theorem token_settles (hr : lexer.rest = c :: text) (hc : Token.isSpace c = false) :
    Settles lexer c text := by
  cases hverdict : (Token.scan c text).verdict with
  | fault fault =>
    cases fault with
    | invalidCharacter => exact settles_invalid hr hc hverdict
    | unterminatedString => exact settles_unterminatedString hr hverdict
    | unterminatedComment => exact settles_unterminatedComment hr hverdict
  | token kind =>
    by_cases hbrace : kind = Symbol.leftBrace
    · obtain rfl := Option.some.inj ((Token.scan_told hverdict).leftBrace hbrace)
      exact settles_leftBrace hr
    by_cases hstring : kind = .string
    · exact settles_string hr (hstring ▸ hverdict)
    · exact settles_kind hr hverdict hbrace hstring

/-! ## All tokens -/

/-- Behind its text, every further token stands on a line of its own. -/
theorem respaced_cons (token : Token) (tokens : List Token) :
    respaced (token :: tokens) = token.text ++ tokens.flatMap fun token => '\n' :: token.text := by
  induction tokens generalizing token with
  | nil => simp [respaced]
  | cons next tokens ih =>
    have hnext := ih next
    simp only [respaced, List.map_cons] at hnext ⊢
    rw [List.intercalate_cons_cons, hnext]
    simp

/-- Tokens on lines of their own are the respaced text but for blanks before it. -/
theorem lines_eq (tokens : List Token) : ∃ blanks, (∀ c ∈ blanks, Token.isSpace c) ∧
    (tokens.flatMap fun token => '\n' :: token.text) = blanks ++ respaced tokens := by
  cases tokens with
  | nil => exact ⟨[], nofun, rfl⟩
  | cons token tokens =>
    refine ⟨['\n'], List.forall_mem_singleton.2 rfl, ?_⟩
    rw [respaced_cons]
    rfl

/-- Behind each of them a line ends. -/
theorem lineEnd_lines (tokens : List Token) :
    LineEnd (tokens.flatMap fun token => '\n' :: token.text) := by
  cases tokens with
  | nil => exact Token.LineEnd.nil
  | cons token tokens => exact Token.LineEnd.newline _

/-- Blanks are skipped up to the first character that is none. -/
theorem rest_skipSpace {blanks : List Char} (hr : lexer.rest = blanks ++ text)
    (hb : ∀ c ∈ blanks, Token.isSpace c) (ht : ∀ c ∈ text.head?, Token.isSpace c = false) :
    lexer.skipSpace.rest = text := by
  rw [skipSpace, rest_advance, hr, Token.run_append hb ht, List.drop_left]

/-- A lexer that goes through the tokens on lines of their own yields them again up to the first one
that wavers. -/
theorem Drained.respaced_iff {last : Lexer} {tokens : List Token} (h : Drained lexer tokens last)
    (other : Lexer) {blanks : List Char} (hb : ∀ c ∈ blanks, Token.isSpace c)
    (hr : other.rest = blanks ++ respaced tokens)
    (hp : other.calibrationPending = lexer.calibrationPending) :
    other.drain.1.map Token.content = tokens.map Token.content ↔
      ∀ token ∈ tokens, token.kind.wavers token.text = false := by
  induction h generalizing other blanks with
  | stop =>
    have hnone := next?_eq_none (rest_skipSpace hr hb nofun)
    rw [drain_of_none hnone]
    simp
  | @next lexer after last token tokens hnext hrest ih =>
    obtain ⟨c, text, hahead, hc, htoken⟩ := exists_of_next? hnext
    obtain ⟨kind, word, rest, pending, rfl, hcuts, hsettles⟩ := token_settles hahead hc
    rw [htoken] at hcuts
    rw [respaced_cons, show token.text = c :: word from hcuts.text, List.cons_append] at hr
    have hother := rest_skipSpace hr hb (by rintro d ⟨⟩; exact hc)
    have htold := next?_of_rest hother
    cases hyielded :
        other.skipSpace.token c (word ++ tokens.flatMap fun token => '\n' :: token.text) with
    | mk told next =>
    rw [hyielded] at htold
    have hlast : rest = [] → (tokens.flatMap fun token => '\n' :: token.text) = [] := fun hnil => by
      rw [hrest.eq_nil (hcuts.rest.trans hnil), List.flatMap_nil]
    have hsettled := hsettles other.skipSpace _ hother hp (lineEnd_lines tokens) hlast
    rw [hyielded] at hsettled
    rw [drain_of_some htold, List.map_cons, List.map_cons, List.cons.injEq, List.forall_mem_cons,
      show token.kind = kind from hcuts.kind, show token.text = c :: word from hcuts.text]
    rcases hsettled with ⟨hsteady, hagain⟩ | ⟨hwavers, hne⟩
    · obtain ⟨blanks', hb', hlines⟩ := lines_eq tokens
      have hcontent : told.content = token.content :=
        Prod.ext (hagain.kind.trans hcuts.kind.symm) (hagain.text.trans hcuts.text.symm)
      have hback := ih next hb' (hagain.rest.trans hlines) (hagain.pending.trans hcuts.pending.symm)
      rw [hback]
      exact and_congr (iff_of_true hcontent hsteady) Iff.rfl
    · refine iff_of_false (fun h => hne ?_) fun h => ?_
      · exact (congrArg Prod.fst h.1).trans hcuts.kind
      · cases h.1.symm.trans hwavers

end

end Lexer

/-- A text is cut into the same tokens when its tokens are put on lines of their own if and only if
none of them is an unfinished number, a bare radix mark or a reserved word that is an identifier. -/
theorem tokenize_respaced (source source' : SourceId) (text : List Char) :
    (tokenize source' (respaced (tokenize source text).1)).1.map Token.content =
        (tokenize source text).1.map Token.content ↔
      ∀ token ∈ (tokenize source text).1, token.kind.isUnfinished token.text = false ∧
        token.kind.isBareRadix token.text = false ∧ token.kind.isLostWord token.text = false := by
  have hblanks : ∀ c ∈ ([] : List Char), Token.isSpace c := nofun
  have hiff : _ ↔ ∀ token ∈ (tokenize source text).1, token.kind.wavers token.text = false :=
    (Lexer.ofText source text).drained_drain.respaced_iff
      (.ofText source' (respaced (tokenize source text).1)) hblanks rfl rfl
  refine hiff.trans (forall₂_congr fun token _ => ?_)
  simp [TokenKind.wavers, and_assoc]

/-- A reserved word before a sign that only begins like a letter is an identifier, and a keyword on
a line of its own, although no number is unfinished. -/
theorem not_respaced : ¬∀ (source : SourceId) (text : List Char),
    (∀ token ∈ (tokenize source text).1, token.kind.isUnfinished token.text = false) →
      (tokenize source (respaced (tokenize source text).1)).1.map Token.content =
        (tokenize source text).1.map Token.content := by
  intro hall
  have hfinished : ∀ token ∈ (tokenize ⟨0⟩ "if×".toList).1,
      token.kind.isUnfinished token.text = false := by decide +kernel
  have hdiffers : (tokenize ⟨0⟩ (respaced (tokenize ⟨0⟩ "if×".toList).1)).1.map Token.content ≠
      (tokenize ⟨0⟩ "if×".toList).1.map Token.content := by decide +kernel
  exact hdiffers (hall ⟨0⟩ _ hfinished)

end OpenQasm
