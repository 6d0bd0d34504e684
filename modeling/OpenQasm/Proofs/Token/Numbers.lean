import OpenQasm.Proofs.Literal.Numeral
import OpenQasm.Proofs.Token.Session

/-!
# Numbers among the tokens

A token that is a number is cut off by the rules for tokens, and read by the rules for literals.
Both cut a decimal number at the same place: whatever goes on as digits, a point and an exponent
belongs to it, and letters behind that are its suffix. But the token may take an exponent mark that
leads nowhere without becoming one with a suffix, and a radix mark without any digit behind it.
-/

namespace OpenQasm.Token

open Literal (isDigitOrSeparator Parts)

/-! ## Shapes -/

/-- An exponent mark that leads nowhere, if there is one. -/
def LostMark (text : List Char) : Prop := text = [] ∨ text = ['e'] ∨ text = ['E']

/-- How a number among the tokens is written. -/
inductive Numbered : TokenKind → List Char → Prop
  | radix {mark : Char} {isDigit : Char → Bool} {digits : List Char} :
      radixDigit? mark = some isDigit → (∀ c ∈ digits, isDigit c) →
      Numbered .integer ('0' :: mark :: digits)
  | integer {whole lost : List Char} :
      Parts whole [] [] → LostMark lost → Numbered .integer (whole ++ lost)
  | float {whole point exponent lost : List Char} : Parts whole point exponent → LostMark lost →
      Numbered .float (whole ++ point ++ exponent ++ lost)
  | suffixed {whole point exponent suffix : List Char} : Parts whole point exponent →
      suffix ≠ [] → (∀ c ∈ suffix, isSuffixLetter c) →
      Numbered .suffixed (whole ++ point ++ exponent ++ suffix)

/-- A text that begins as a number does: with a digit, perhaps behind a point. -/
inductive BeginsNumber : List Char → Prop
  | digit {c : Char} {text : List Char} : c.isDigit → BeginsNumber (c :: text)
  | point {c : Char} {text : List Char} : c.isDigit → BeginsNumber ('.' :: c :: text)

/-! ## Runs -/

section
variable {p : Char → Bool} {word rest : List Char}

/-- A run goes as far as its characters do. -/
theorem run_append (hw : ∀ c ∈ word, p c) (hr : ∀ c ∈ rest.head?, p c = false) :
    run p (word ++ rest) = word.length :=
  congrArg List.length (Literal.takeWhile_append_eq hw hr)

/-- Every text starts with a run of such characters, which may be empty. -/
theorem exists_run (p : Char → Bool) (text : List Char) : ∃ word rest, text = word ++ rest ∧
    (∀ c ∈ word, p c) ∧ ∀ c ∈ rest.head?, p c = false := by
  obtain ⟨rest, htext, hw, hr⟩ := Literal.exists_takeWhile p text
  exact ⟨_, rest, htext, hw, hr⟩

end

/-! ## Decimal numbers -/

section
variable {text whole point rest : List Char}

/-- Both take the same text for an exponent. -/
theorem exponentLength_eq (text : List Char) :
    exponentLength text = Literal.exponentLength text := by
  have hcount : ∀ n sign : Nat, (if n = 0 then 0 else 1 + sign + n) =
      if 0 < n then n + (sign + 1) else 0 := by grind
  unfold exponentLength Literal.exponentLength run
  cases text with
  | nil => rfl
  | cons mark text =>
    dsimp only
    split
    · rw [hcount]
      cases text with
      | nil => rfl
      | cons sign digits =>
        by_cases hplus : sign = '+'
        · subst hplus
          rfl
        by_cases hminus : sign = '-'
        · subst hminus
          rfl
        simp [hplus, hminus]
    · rfl

/-- The significand of a number is its digits and its point, as far as they go. -/
theorem exists_significand (text : List Char) : ∃ whole point rest,
    text = whole ++ point ++ rest ∧ Parts whole point [] ∧
      significandLength text = ((whole ++ point).length, !point.isEmpty) ∧
      ∀ c ∈ rest.head?, isDigitOrSeparator c = false ∧ (point = [] → c ≠ '.') := by
  obtain ⟨behind, htext, hwhole, hbehind⟩ := Literal.exists_takeWhile isDigitOrSeparator text
  have hdrop : text.drop (run isDigitMark text) = behind := by
    conv => lhs; arg 2; rw [htext]
    exact List.drop_left
  unfold significandLength
  dsimp only
  rw [hdrop]
  split
  · next rest =>
    obtain ⟨last, hrest, hplaces, hlast⟩ := Literal.exists_takeWhile isDigitOrSeparator rest
    refine ⟨_, '.' :: rest.takeWhile isDigitOrSeparator, last, ?_, ⟨hwhole, .inr ⟨_, rfl, hplaces⟩,
      .inl rfl⟩, ?_, fun c hc => ⟨hlast c hc, nofun⟩⟩
    · rw [List.append_assoc, List.cons_append, ← hrest]
      exact htext
    · rw [List.length_append, List.length_cons, Nat.add_right_comm]
      rfl
  · next hpoint =>
    refine ⟨_, [], behind, ?_, ⟨hwhole, .inl rfl, .inl rfl⟩, ?_, fun c hc => ⟨hbehind c hc, ?_⟩⟩
    · rw [List.append_nil]
      exact htext
    · rw [List.append_nil]
      rfl
    · rintro - rfl
      obtain ⟨rest, hrest⟩ := List.head?_eq_some_iff.1 hc
      exact hpoint rest hrest

/-- The exponent behind a significand, if there is one. -/
theorem exists_exponent (rest : List Char) : ∃ exponent more, rest = exponent ++ more ∧
    (exponent = [] ∨ Literal.Marked exponent) ∧ exponentLength rest = exponent.length := by
  rw [exponentLength_eq]
  rcases Literal.exponentLength_cases rest with hzero | ⟨exponent, more, hrest, hmarked, hlength, -⟩
  · exact ⟨[], rest, rfl, .inl rfl, hzero⟩
  · exact ⟨exponent, more, hrest, .inr hmarked, hlength⟩

/-- Where the scanner sees a number one begins. -/
theorem beginsNumber_of_startsNumber {c : Char} (h : startsNumber c text = true) :
    BeginsNumber (c :: text) := by
  rw [startsNumber, Bool.or_eq_true, Bool.and_eq_true, beq_iff_eq] at h
  rcases h with hdigit | ⟨rfl, hdigit⟩
  · exact .digit hdigit
  · cases text with
    | nil => cases hdigit
    | cons d text => exact .point hdigit

/-- A number that begins does so with more text behind. -/
theorem BeginsNumber.append (h : BeginsNumber text) (more : List Char) :
    BeginsNumber (text ++ more) := by
  cases h with
  | digit hdigit => exact .digit hdigit
  | point hdigit => exact .point hdigit

/-- What begins a number is more than a point. -/
theorem BeginsNumber.of_append (h : BeginsNumber (text ++ rest))
    (hr : ∀ c ∈ rest.head?, c.isDigit = false ∧ (text = [] → c ≠ '.')) : BeginsNumber text := by
  match text, h with
  | [], h =>
    cases h with
    | digit hdigit => cases hdigit.symm.trans (hr _ rfl).1
    | point _ => exact absurd rfl ((hr _ rfl).2 rfl)
  | [c], h =>
    cases rest with
    | nil => exact h
    | cons d rest =>
      cases h with
      | digit hdigit => exact .digit hdigit
      | point hdigit => cases hdigit.symm.trans (hr _ rfl).1
  | c :: d :: text, h =>
    cases h with
    | digit hdigit => exact .digit hdigit
    | point hdigit => exact .point hdigit

/-- What a decimal number with these parts is called. -/
def decimalKind (point exponent suffix : List Char) : TokenKind :=
  if suffix ≠ [] then .suffixed else if point = [] ∧ exponent = [] then .integer else .float

/-- A decimal number is cut into its parts and called by them, but where a mark among them is lost.
-/
theorem exists_decimalToken (text : List Char) : ∃ whole point exponent suffix rest,
    text = whole ++ point ++ exponent ++ suffix ++ rest ∧ Parts whole point exponent ∧
      (∀ c ∈ suffix, isSuffixLetter c) ∧ (BeginsNumber text → BeginsNumber (whole ++ point)) ∧
      (decimalToken text).2 = (whole ++ point ++ exponent ++ suffix).length ∧
      ((decimalToken text).1 = decimalKind point exponent suffix ∨
        (decimalToken text).1 = decimalKind point [] [] ∧ exponent = [] ∧
          (suffix = ['e'] ∨ suffix = ['E'])) := by
  obtain ⟨whole, point, rest, rfl, hparts, hsignificand, hrest⟩ := exists_significand text
  have hbegins : BeginsNumber (whole ++ point ++ rest) → BeginsNumber (whole ++ point) := by
    refine fun hb => hb.of_append fun c hc => ?_
    obtain ⟨hdigit, hpoint⟩ := hrest c hc
    exact ⟨(Bool.or_eq_false_iff.1 hdigit).1, fun hnil => hpoint (List.append_eq_nil_iff.1 hnil).2⟩
  obtain ⟨exponent, more, rfl, hexponent, hlength⟩ := exists_exponent rest
  obtain ⟨letters, rest, rfl, hletters, hend⟩ := exists_run isSuffixLetter more
  unfold decimalToken
  rw [hsignificand]
  dsimp only
  rw [List.drop_left, hlength, List.drop_left, run_append hletters hend]
  split
  · next hlost =>
    obtain ⟨hzero, hlost⟩ := hlost
    obtain rfl := List.length_eq_zero_iff.1 hzero
    obtain ⟨mark, c, more, hmore, hmark⟩ : ∃ mark c more,
        letters ++ rest = mark :: c :: more ∧ (mark = 'e' ∨ mark = 'E') := by
      unfold hasLostMark at hlost
      split at hlost
      · next mark c more heq =>
        rw [Bool.and_eq_true, Bool.or_eq_true, beq_iff_eq, beq_iff_eq] at hlost
        exact ⟨mark, c, more, heq, hlost.1⟩
      · cases hlost
    refine ⟨whole, point, [], [mark], c :: more, by simp [← hmore], hparts, ?_, hbegins,
      by simp +arith, .inr ⟨by cases point <;> rfl, rfl, by simpa using hmark⟩⟩
    rcases hmark with rfl | rfl <;> simp [isSuffixLetter]
  · refine ⟨whole, point, exponent, letters, rest, by simp, { hparts with exponent := hexponent },
      hletters, hbegins, ?_, .inl ?_⟩
    all_goals cases letters <;> cases exponent <;> cases point <;> simp +arith [decimalKind]

/-- The kind of a decimal number says how it is written. -/
theorem numbered_decimalKind {exponent suffix : List Char} (hp : Parts whole point exponent)
    (hx : ∀ c ∈ suffix, isSuffixLetter c) :
    Numbered (decimalKind point exponent suffix) (whole ++ point ++ exponent ++ suffix) := by
  unfold decimalKind
  split
  · next hne => exact .suffixed hp hne hx
  next hnil =>
  obtain rfl := not_not.1 hnil
  split
  · next hnone =>
    obtain ⟨rfl, rfl⟩ := hnone
    rw [List.append_nil, List.append_nil]
    exact .integer hp (.inl rfl)
  · exact .float hp (.inl rfl)

/-- So it does where the letter of an exponent has lost its digits. -/
theorem numbered_lost {mark : Char} (hp : Parts whole point []) (hm : LostMark [mark]) :
    Numbered (decimalKind point [] []) (whole ++ point ++ [] ++ [mark]) := by
  unfold decimalKind
  rw [if_neg (not_not.2 rfl)]
  split
  · next hnone =>
    rw [hnone.1, List.append_nil, List.append_nil]
    exact .integer (hnone.1 ▸ hp) hm
  · exact .float hp hm

/-- A decimal number is cut into its parts. -/
theorem decimalToken_numbered (hb : BeginsNumber text) :
    Numbered (decimalToken text).1 (text.take (decimalToken text).2) ∧
      BeginsNumber (text.take (decimalToken text).2) := by
  obtain ⟨whole, point, exponent, suffix, rest, rfl, hp, hx, hbegins, hlength, hkind⟩ :=
    exists_decimalToken text
  simp only [List.append_assoc] at hb hbegins
  rw [hlength, List.take_left]
  refine ⟨?_, ((hbegins hb).append exponent).append suffix⟩
  rcases hkind with hkind | ⟨hkind, rfl, rfl | rfl⟩
  · rw [hkind]
    exact numbered_decimalKind hp hx
  · rw [hkind]
    exact numbered_lost hp (.inr (.inl rfl))
  · rw [hkind]
    exact numbered_lost hp (.inr (.inr rfl))

/-- A number with a radix mark is the mark and the digits that it announces. -/
theorem radixLength_numbered (h : 0 < radixLength text) :
    Numbered .integer (text.take (radixLength text)) ∧
      BeginsNumber (text.take (radixLength text)) := by
  unfold radixLength at h ⊢
  split at h
  · next mark digits =>
    dsimp only at h ⊢
    split at h
    · next isDigit hmark =>
      split at h
      · cases h
      · next hkept =>
        rw [if_neg hkept, List.take_succ_cons, List.take_succ_cons, take_run]
        exact ⟨.radix hmark (List.all_eq_true.1 List.all_takeWhile), .digit rfl⟩
    · cases h
  · cases h

/-- A number among the tokens is the longer one of its two readings. -/
theorem numberToken_numbered (hb : BeginsNumber text) :
    Numbered (numberToken text).1 (text.take (numberToken text).2) ∧
      BeginsNumber (text.take (numberToken text).2) := by
  have hdecimal := decimalToken_numbered hb
  unfold numberToken
  dsimp only
  split
  · next hle =>
    refine radixLength_numbered (Nat.lt_of_lt_of_le ?_ hle)
    refine Nat.pos_of_ne_zero fun hzero => ?_
    rw [hzero] at hdecimal
    cases hdecimal.2
  · exact hdecimal

end

/-! ## Numbers of a lexer -/

/-- A kind of token that is a number. -/
def isNumber : TokenKind → Bool
  | .integer | .float | .suffixed => true
  | _ => false

/-- A scan that tells neither a number nor a comment. -/
def Plain (piece : Piece) : Prop :=
  ∀ kind, piece.verdict = .token kind → isNumber kind = false ∧ kind.isTrivia = false

section
variable {c : Char} {text : List Char} {kind : TokenKind}

/-- A piece of another kind is no number and no trivia. -/
theorem plain_token {n : Nat} (h : isNumber kind = false ∧ kind.isTrivia = false) :
    Plain ⟨.token kind, n⟩ := by
  intro told htold
  obtain rfl := Verdict.token.inj htold
  exact h

/-- Nor is a piece at fault. -/
theorem plain_fault {fault : Fault} {n : Nat} : Plain ⟨.fault fault, n⟩ := nofun

/-- A word is no number and no trivia. -/
theorem scanWord_plain : Plain (scanWord c text) := by
  unfold scanWord wordKind
  dsimp only
  split
  · exact plain_token ⟨rfl, rfl⟩
  · refine plain_token ?_
    split
    · exact ⟨rfl, rfl⟩
    · split <;> exact ⟨rfl, rfl⟩
    · exact ⟨rfl, rfl⟩

/-- Nor is a string. -/
theorem scanString_plain : Plain (scanString c text) := by
  unfold scanString
  dsimp only
  split
  · exact plain_token ⟨rfl, rfl⟩
  · exact plain_fault

/-- Nor is an annotation. -/
theorem scanAt_plain : Plain (scanAt text) := by
  unfold scanAt
  split
  · split
    · dsimp only
      split <;> exact plain_token ⟨rfl, rfl⟩
    · exact plain_token ⟨rfl, rfl⟩
  · exact plain_token ⟨rfl, rfl⟩

/-- Nor is a hardware qubit. -/
theorem scanDollar_plain : Plain (scanDollar text) := by
  unfold scanDollar
  dsimp only
  split
  · exact plain_token ⟨rfl, rfl⟩
  · exact plain_fault

/-- Nor is a symbol. -/
theorem scanSymbol_plain : Plain (scanSymbol c text) := by
  unfold scanSymbol
  split
  · exact plain_token ⟨rfl, rfl⟩
  · exact plain_fault

/-- Nor is a pragma. -/
theorem scanHash_plain : Plain (scanHash text) := by
  unfold scanHash
  split
  · exact plain_token ⟨rfl, rfl⟩
  · exact scanSymbol_plain

/-- What starts with a slash is no number. -/
theorem scanSlash_unnumbered (h : (scanSlash text).verdict = .token kind) :
    isNumber kind = false := by
  unfold scanSlash at h
  split at h
  · exact Verdict.token.inj h ▸ rfl
  · split at h
    · exact Verdict.token.inj h ▸ rfl
    · cases h
  · exact Verdict.token.inj h ▸ rfl
  · exact Verdict.token.inj h ▸ rfl

/-- A number is no trivia. -/
theorem Numbered.isTrivia_eq_false (h : Numbered kind text) : kind.isTrivia = false := by
  cases h <;> rfl

/-- What a scan tells is a number where one begins, a comment or a symbol behind a slash, and else
neither a number nor a comment. -/
theorem scan_cases (h : (scan c text).verdict = .token kind) :
    (Numbered kind (c :: text.take (scan c text).tail) ∧
      BeginsNumber (c :: text.take (scan c text).tail)) ∨
    (c = '/' ∧ isNumber kind = false) ∨ (isNumber kind = false ∧ kind.isTrivia = false) := by
  unfold scan at h ⊢
  split at h
  · exact .inr (.inr (scanWord_plain kind h))
  split at h
  · next hword hstart =>
    have hnumbered := numberToken_numbered (beginsNumber_of_startsNumber hstart)
    rw [if_neg hword, if_pos hstart]
    generalize numberToken (c :: text) = found at h hnumbered ⊢
    obtain ⟨told, n⟩ := found
    obtain rfl := Verdict.token.inj h
    cases n with
    | zero => cases hnumbered.2
    | succ n => exact .inl hnumbered
  split at h
  · next hslash => exact .inr (.inl ⟨hslash, scanSlash_unnumbered h⟩)
  split at h
  · exact .inr (.inr (scanString_plain kind h))
  split at h
  · exact .inr (.inr (scanAt_plain kind h))
  split at h
  · exact .inr (.inr (scanDollar_plain kind h))
  split at h
  · exact .inr (.inr (scanHash_plain kind h))
  · exact .inr (.inr (scanSymbol_plain kind h))

/-- Only where a number begins, a scan tells one, and it is the number that begins there. -/
theorem scan_number (h : (scan c text).verdict = .token kind) (hk : isNumber kind) :
    Numbered kind (c :: text.take (scan c text).tail) ∧
      BeginsNumber (c :: text.take (scan c text).tail) := by
  rcases scan_cases h with hnumbered | ⟨-, hnot⟩ | ⟨hnot, -⟩
  · exact hnumbered
  · cases hk.symm.trans hnot
  · cases hk.symm.trans hnot

/-- A comment begins with a slash. -/
theorem scan_trivia (h : (scan c text).verdict = .token kind) (hk : kind.isTrivia) : c = '/' := by
  rcases scan_cases h with ⟨hnumbered, -⟩ | ⟨hslash, -⟩ | ⟨-, hnot⟩
  · cases hk.symm.trans hnumbered.isTrivia_eq_false
  · exact hslash
  · cases hk.symm.trans hnot

/-- A kind of token that a scan tells, and the lexer does not change. -/
def isScanned : TokenKind → Bool
  | .error | .calibrationBody | .string | .bitstring | .symbol .leftBrace => false
  | _ => true

/-- Numbers are told by the scanner alone. -/
theorem isScanned_of_isNumber (h : isNumber kind) : isScanned kind := by
  cases kind <;> first | rfl | cases h

/-- So is trivia. -/
theorem isScanned_of_isTrivia (h : kind.isTrivia) : isScanned kind := by
  cases kind <;> first | rfl | cases h

end

end OpenQasm.Token

namespace OpenQasm

section
variable {lexer next last : Lexer} {source : SourceId} {token : Token} {tokens : List Token}
  {c : Char} {text : List Char}

/-- A token told by the scanner alone has its kind and its text. -/
theorem Lexer.scan_of_isScanned (hr : lexer.rest = c :: text)
    (hk : Token.isScanned (lexer.token c text).1.kind) :
    (Token.scan c text).verdict = .token (lexer.token c text).1.kind ∧
      (lexer.token c text).1.text = c :: text.take (Token.scan c text).tail := by
  have htake : lexer.rest.take ((Token.scan c text).tail + 1) =
      c :: text.take (Token.scan c text).tail := by rw [hr, List.take_succ_cons]
  revert hk
  unfold Lexer.token
  dsimp only
  split
  · split
    · unfold calibrationBody
      dsimp only
      split <;> exact nofun
    · exact nofun
  · unfold stringKind cut
    dsimp only
    split <;> exact nofun
  · next kind _ _ hverdict => exact fun _ => ⟨hverdict, htake⟩
  all_goals exact nofun

/-- Every token of a text is the next one at some point. -/
theorem Lexer.Drained.exists_next? (h : Lexer.Drained lexer tokens last) (hm : token ∈ tokens) :
    ∃ before after : Lexer, before.next? = some (token, after) := by
  obtain ⟨front, back, rfl⟩ := List.append_of_mem hm
  obtain ⟨middle, -, hdrained⟩ := h.split
  cases hdrained with
  | next hnext _ => exact ⟨_, _, hnext⟩

/-- The tokens of a text are what scans tell, but for those that take the lexer. -/
theorem exists_scan (hm : token ∈ (tokenize source text).1) (hk : Token.isScanned token.kind) :
    ∃ c rest, (Token.scan c rest).verdict = .token token.kind ∧
      token.text = c :: rest.take (Token.scan c rest).tail := by
  obtain ⟨before, after, hnext⟩ := (Lexer.drained_drain (.ofText source text)).exists_next? hm
  obtain ⟨c, rest, hr, -, htoken⟩ := Lexer.exists_of_next? hnext
  have hscan := @Lexer.scan_of_isScanned before.skipSpace c rest hr
  rw [htoken] at hscan
  exact ⟨c, rest, hscan hk⟩

/-- The tokens of a text that are numbers are written as such. -/
theorem tokenize_numbered (hm : token ∈ (tokenize source text).1) (hk : Token.isNumber token.kind) :
    Token.Numbered token.kind token.text ∧ Token.BeginsNumber token.text := by
  obtain ⟨c, rest, hverdict, htext⟩ := exists_scan hm (Token.isScanned_of_isNumber hk)
  rw [htext]
  exact Token.scan_number hverdict hk

/-- The comments of a text begin with a slash. -/
theorem head?_of_isTrivia (hm : token ∈ (tokenize source text).1) (hk : token.kind.isTrivia) :
    token.text.head? = some '/' := by
  obtain ⟨c, rest, hverdict, htext⟩ := exists_scan hm (Token.isScanned_of_isTrivia hk)
  rw [htext, Token.scan_trivia hverdict hk]
  rfl

end

end OpenQasm
