import OpenQasm.Diagnostic.Buffer
import OpenQasm.Text.Bytes
import OpenQasm.Token.Basic
import OpenQasm.Token.Scan

/-!
# Lexers

A lexer goes through a text and yields its tokens one by one. Text that is no token comes out as
an error token, and a diagnostic with the same span is kept until it is taken. Comments come out
as tokens too. After `cal` or `defcal` the next opening brace begins a calibration body, which is
one token up to its closing brace, whatever stands between.
-/

namespace OpenQasm

/-- A text that is being cut into tokens. -/
structure Lexer where
  source : SourceId
  /-- The text ahead. -/
  rest : List Char
  /-- The number of bytes behind. -/
  offset : Nat := 0
  /-- Whether the next opening brace begins a calibration body. -/
  calibrationPending : Bool := false
  /-- What was reported and not yet taken. -/
  diagnostics : Diagnostics := {}
deriving Repr

namespace Lexer

/-- A lexer at the start of a text. -/
def ofText (source : SourceId) (text : List Char) : Lexer := { source, rest := text }

/-- Take the diagnostics reported so far. -/
def takeDiagnostics (lexer : Lexer) : List Diagnostic × Lexer :=
  (lexer.diagnostics.items, { lexer with diagnostics := {} })

/-- Pass over so many characters. -/
def advance (lexer : Lexer) (n : Nat) : Lexer :=
  { lexer with
    rest := lexer.rest.drop n
    offset := lexer.offset + Text.width (lexer.rest.take n) }

/-- Pass over the blanks ahead. -/
def skipSpace (lexer : Lexer) : Lexer := lexer.advance (Token.run Token.isSpace lexer.rest)

/-- The token of the next `n` characters, and the lexer past them. -/
def cut (lexer : Lexer) (kind : TokenKind) (n : Nat) : Token × Lexer :=
  let next := lexer.advance n
  ({ kind, text := lexer.rest.take n, span := .ofRange lexer.source lexer.offset next.offset },
   next)

/-- An error token of the next `n` characters, with its diagnostic. -/
def fail (lexer : Lexer) (n : Nat) (message : String) : Token × Lexer :=
  let (token, next) := lexer.cut .error n
  (token, { next with diagnostics := next.diagnostics.report .lexicalError token.span message })

/-- The number of characters at the head of a text that begin no token, up to the first blank. -/
def invalidRun : List Char → Nat
  | [] => 0
  | c :: text =>
    if !Token.isSpace c ∧ (Token.scan c text).verdict = .fault .invalidCharacter then
      invalidRun text + 1
    else 0

/-- What is said about invalid characters that stand together. -/
def invalidMessage (text : List Char) : String :=
  if text.length = 1 then s!"invalid character `{String.ofList text}`"
  else s!"invalid characters `{String.ofList text}`"

/-- One error token for the invalid characters that stand together. -/
def failInvalid (lexer : Lexer) : Token × Lexer :=
  let n := invalidRun lexer.rest
  lexer.fail n (invalidMessage (lexer.rest.take n))

/-- The number of characters to the brace that closes `depth` open ones. -/
def closingLength? : Nat → List Char → Option Nat
  | 0, _ => some 0
  | _ + 1, [] => none
  | depth + 1, c :: text =>
    (closingLength? (if c = '{' then depth + 2 else if c = '}' then depth else depth + 1) text).map
      (· + 1)

/-- The calibration body that begins with the brace ahead. -/
def calibrationBody (lexer : Lexer) : Token × Lexer :=
  let settled := { lexer with calibrationPending := false }
  match closingLength? 1 (lexer.rest.drop 1) with
  | some n => settled.cut .calibrationBody (n + 1)
  | none => settled.fail lexer.rest.length "unterminated calibration block"

/-- A string of binary digits is a bitstring. -/
def stringKind (text : List Char) : TokenKind :=
  let inner := (text.drop 1).dropLast
  if !inner.isEmpty ∧ inner.all (fun c => c == '0' || c == '1' || c == '_') then .bitstring
  else .string

/-- Whether a calibration body is expected after a token of the given kind. -/
def pendingAfter (pending : Bool) : TokenKind → Bool
  | .keyword .kwCal | .keyword .kwDefcal => true
  | .symbol .semicolon | .symbol .rightBrace => false
  | _ => pending

/-- The token at the head of the text ahead, which begins with `c` and no blank. -/
def token (lexer : Lexer) (c : Char) (text : List Char) : Token × Lexer :=
  let piece := Token.scan c text
  let n := piece.tail + 1
  match piece.verdict with
  | .token (.symbol .leftBrace) =>
    if lexer.calibrationPending then lexer.calibrationBody else lexer.cut Symbol.leftBrace n
  | .token .string => lexer.cut (stringKind (lexer.rest.take n)) n
  | .token kind =>
    { lexer with calibrationPending := pendingAfter lexer.calibrationPending kind }.cut kind n
  | .fault .invalidCharacter => lexer.failInvalid
  | .fault .unterminatedString => lexer.fail n "unterminated string literal"
  | .fault .unterminatedComment => lexer.fail n "unterminated block comment"

/-- The next token and the lexer past it; none at the end of the text. -/
def next? (lexer : Lexer) : Option (Token × Lexer) :=
  let lexer := lexer.skipSpace
  match lexer.rest with
  | [] => none
  | c :: text => some (lexer.token c text)

/-! ## Progress -/

@[simp] theorem rest_advance (lexer : Lexer) (n : Nat) :
    (lexer.advance n).rest = lexer.rest.drop n := rfl

@[simp] theorem rest_cut (lexer : Lexer) (kind : TokenKind) (n : Nat) :
    (lexer.cut kind n).2.rest = lexer.rest.drop n := rfl

@[simp] theorem rest_fail (lexer : Lexer) (n : Nat) (message : String) :
    (lexer.fail n message).2.rest = lexer.rest.drop n := rfl

/-- A run of invalid characters that begins with one is not empty. -/
theorem invalidRun_pos {c : Char} {text : List Char} (hs : Token.isSpace c = false)
    (h : (Token.scan c text).verdict = .fault .invalidCharacter) : 0 < invalidRun (c :: text) := by
  simp [invalidRun, hs, h]

/-- A token takes at least one character. -/
theorem exists_rest_token {lexer : Lexer} {c : Char} {text : List Char}
    (hr : lexer.rest = c :: text) (hs : Token.isSpace c = false) :
    ∃ n, (lexer.token c text).2.rest = lexer.rest.drop (n + 1) := by
  unfold token
  dsimp only
  split
  · split
    · unfold calibrationBody
      dsimp only
      split
      · exact ⟨_, rfl⟩
      · exact ⟨text.length, by simp [hr]⟩
    · exact ⟨_, rfl⟩
  · exact ⟨_, rfl⟩
  · exact ⟨_, rfl⟩
  · next h =>
    obtain ⟨n, hn⟩ := Nat.exists_eq_add_of_lt (invalidRun_pos hs h)
    refine ⟨n, ?_⟩
    rw [← hr] at hn
    rw [failInvalid, rest_fail, hn]
    congr 1
    omega
  · exact ⟨_, rfl⟩
  · exact ⟨_, rfl⟩

/-- The text after the blanks ahead begins with no blank. -/
theorem isSpace_of_rest_skipSpace {lexer : Lexer} {c : Char} {text : List Char}
    (h : lexer.skipSpace.rest = c :: text) : Token.isSpace c = false := by
  have hd : lexer.rest.dropWhile Token.isSpace = c :: text := by
    rw [← h, skipSpace, rest_advance, Token.drop_run]
  have := List.head?_dropWhile_not Token.isSpace lexer.rest
  rw [hd] at this
  simpa using this

/-- Every token leaves less text ahead. -/
theorem length_rest_next? {lexer : Lexer} {token : Token} {after : Lexer}
    (h : lexer.next? = some (token, after)) : after.rest.length < lexer.rest.length := by
  unfold next? at h
  dsimp only at h
  split at h
  · simp at h
  · next c text hr =>
    obtain ⟨n, hn⟩ := exists_rest_token hr (isSpace_of_rest_skipSpace hr)
    have hlen : lexer.skipSpace.rest.length ≤ lexer.rest.length := by
      rw [skipSpace, rest_advance, List.length_drop]
      omega
    have ha : after = (lexer.skipSpace.token c text).2 := by rw [Option.some.inj h]
    rw [ha, hn, List.length_drop]
    have : lexer.skipSpace.rest.length = text.length + 1 := by rw [hr, List.length_cons]
    omega

/-- All tokens of the text ahead, and the lexer at its end. -/
def drain (lexer : Lexer) : List Token × Lexer :=
  match h : lexer.next? with
  | none => ([], lexer)
  | some (token, after) =>
    have := length_rest_next? h
    let (tokens, last) := after.drain
    (token :: tokens, last)
termination_by lexer.rest.length

end Lexer

/-- The tokens of a text, and what was reported about it in the order of the text. -/
def tokenize (source : SourceId) (text : List Char) : List Token × List Diagnostic :=
  let (tokens, lexer) := (Lexer.ofText source text).drain
  (tokens, lexer.diagnostics.items)

end OpenQasm
