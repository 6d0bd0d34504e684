import OpenQasm.Text.Letter
import OpenQasm.Token.Number

/-!
# Scanning one token

`scan` tells the kind and the length of the token that begins with a given character, the longest
one of all that match. Calibration bodies are no tokens here: they depend on the tokens before.

The text is read byte by byte. Whether a reserved word ends is told by the next byte alone: where
that byte may begin a letter or a numeral, the word counts as an identifier, and stays one when
the bytes after it turn out to form another character.
-/

namespace OpenQasm.Token

/-- Why a piece of text is no token. -/
inductive Fault where
  | invalidCharacter
  | unterminatedString
  | unterminatedComment
deriving DecidableEq, Repr

/-- What a piece of text is. -/
inductive Verdict where
  | token (kind : TokenKind)
  | fault (fault : Fault)
deriving DecidableEq, Repr

/-- A piece of text that a scan marks off: what it is, and the number of its characters after the
first one. -/
structure Piece where
  verdict : Verdict
  tail : Nat
deriving DecidableEq, Repr

/-- The blanks between tokens. -/
def isSpace (c : Char) : Bool :=
  c == ' ' || c == '\t' || c == '\r' || c == '\n' || c == '\x0c'

/-- What an identifier may begin with. -/
def isIdentifierStart (c : Char) : Bool := Text.isLetter c || c == '_'

/-- What an identifier may go on with. -/
def isIdentifierPart (c : Char) : Bool := Text.isLetter c || Text.isNumeral c || c == '_'

/-- Whether an identifier may go on with a character whose UTF-8 form begins like that of `c`. -/
def mayBeginPart (c : Char) : Bool :=
  if c.toNat < 0x80 then isIdentifierPart c
  else Text.letterRanges.meets (Text.leadBlock c) || Text.numeralRanges.meets (Text.leadBlock c)

/-- What the keyword of an annotation may go on with. -/
def isAnnotationPart (c : Char) : Bool := Text.isLetter c || c.isDigit || c == '_' || c == '.'

/-- The number of characters to the end of the line. -/
def lineLength (text : List Char) : Nat := run (· != '\n') text

/-- A space or a tab, which sets a remark apart from the word before it. -/
def startsRemark (text : List Char) : Bool :=
  match text with
  | ' ' :: _ | '\t' :: _ => true
  | _ => false

/-- The number of characters up to and including the end mark of a block comment. -/
def blockCommentLength? : List Char → Option Nat
  | '*' :: '/' :: _ => some 2
  | _ :: text => (blockCommentLength? text).map (· + 1)
  | [] => none

/-- What a word is that stands before `rest`. A sign for a constant is read as a whole; a reserved
word is one only if the next byte ends it. -/
def wordKind (word rest : List Char) : TokenKind :=
  match Keyword.ofSign? word, Keyword.ofWord? word with
  | some keyword, _ => keyword
  | none, some keyword => if rest.head?.any mayBeginPart then .identifier else keyword
  | none, none => .identifier

/-- A word: a keyword, an identifier, or a pragma, which takes its line. -/
def scanWord (c : Char) (text : List Char) : Piece :=
  let n := run isIdentifierPart text
  let word := c :: text.take n
  let rest := text.drop n
  if word = ['p', 'r', 'a', 'g', 'm', 'a'] ∧ startsRemark rest then
    ⟨.token .pragma, n + lineLength rest⟩
  else ⟨.token (wordKind word rest), n⟩

/-- A string ends with the quote that it began with, on the same line. -/
def scanString (quote : Char) (text : List Char) : Piece :=
  let line := lineLength text
  let n := run (· != quote) (text.take line)
  if n < line then ⟨.token .string, n + 1⟩ else ⟨.fault .unterminatedString, line⟩

/-- A comment, or a symbol that begins with a slash. -/
def scanSlash (text : List Char) : Piece :=
  match text with
  | '/' :: rest => ⟨.token .lineComment, 1 + lineLength rest⟩
  | '*' :: rest =>
    match blockCommentLength? rest with
    | some n => ⟨.token .blockComment, n + 1⟩
    | none => ⟨.fault .unterminatedComment, text.length⟩
  | '=' :: _ => ⟨.token Symbol.slashAssign, 1⟩
  | _ => ⟨.token Symbol.slash, 0⟩

/-- An annotation, or a lone at sign. -/
def scanAt (text : List Char) : Piece :=
  match text with
  | c :: rest =>
    if isIdentifierStart c then
      let n := run isAnnotationPart rest
      let after := rest.drop n
      if startsRemark after then ⟨.token .annotationLine, 1 + n + lineLength after⟩
      else ⟨.token .annotationLine, 1 + n⟩
    else ⟨.token Symbol.atSign, 0⟩
  | [] => ⟨.token Symbol.atSign, 0⟩

/-- A hardware qubit. -/
def scanDollar (text : List Char) : Piece :=
  let n := run Char.isDigit text
  if 0 < n then ⟨.token .hardwareQubit, n⟩ else ⟨.fault .invalidCharacter, 0⟩

/-- A pragma, or another symbol that begins with a hash. -/
def scanHash (text : List Char) : Piece :=
  if "pragma".toList.isPrefixOf text then ⟨.token .pragma, lineLength text⟩
  else
    match Symbol.atHead? ('#' :: text) with
    | some symbol => ⟨.token symbol, symbol.text.length - 1⟩
    | none => ⟨.fault .invalidCharacter, 0⟩

/-- A symbol, or a character that begins no token. -/
def scanSymbol (c : Char) (text : List Char) : Piece :=
  match Symbol.atHead? (c :: text) with
  | some symbol => ⟨.token symbol, symbol.text.length - 1⟩
  | none => ⟨.fault .invalidCharacter, 0⟩

/-- Whether a number begins at a character. -/
def startsNumber (c : Char) (text : List Char) : Bool :=
  c.isDigit || (c == '.' && text.head?.any Char.isDigit)

/-- The token, or the fault, that begins with `c` and goes on in `text`. -/
def scan (c : Char) (text : List Char) : Piece :=
  if isIdentifierStart c then scanWord c text
  else if startsNumber c text then
    let (kind, n) := numberToken (c :: text)
    ⟨.token kind, n - 1⟩
  else if c = '/' then scanSlash text
  else if c = '"' ∨ c = '\'' then scanString c text
  else if c = '@' then scanAt text
  else if c = '$' then scanDollar text
  else if c = '#' then scanHash text
  else scanSymbol c text

end OpenQasm.Token
