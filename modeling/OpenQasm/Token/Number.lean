import OpenQasm.Text.Ranges
import OpenQasm.Token.Kind

/-!
# Numbers among tokens

The extent of a number at the head of a text. A number is written in digits with a radix mark, or
in decimal digits with a point, an exponent and letters as a suffix, each of them optional. Which
underscores, letters and exponents are right is decided when the literal is read.

The text is read byte by byte. A mark after which a sign, or the first byte of a letter beyond
ASCII, leads nowhere belongs to the number, but is no suffix.
-/

namespace OpenQasm.Token

/-- A decimal digit or an underscore. -/
def isDigitMark (c : Char) : Bool := c.isDigit || c == '_'

/-- A letter that may follow a number: ASCII, the micro sign or the Greek mu. -/
def isSuffixLetter (c : Char) : Bool := c.isAlpha || c == '\u00b5' || c == '\u03bc'

/-- Whether a character is no suffix letter, although its UTF-8 form begins like one beyond
ASCII. -/
def resemblesSuffixLetter (c : Char) : Bool :=
  !isSuffixLetter c &&
    (Text.leadBlock c == Text.leadBlock '\u00b5' || Text.leadBlock c == Text.leadBlock '\u03bc')

/-- A hexadecimal digit or an underscore. -/
def isHexMark (c : Char) : Bool :=
  isDigitMark c || ('a' ≤ c && c ≤ 'f') || ('A' ≤ c && c ≤ 'F')

/-- An octal digit or an underscore. -/
def isOctalMark (c : Char) : Bool := ('0' ≤ c && c ≤ '7') || c == '_'

/-- A binary digit or an underscore. -/
def isBinaryMark (c : Char) : Bool := c == '0' || c == '1' || c == '_'

/-- The number of characters at the head of a text that have a property. -/
def run (p : Char → Bool) (text : List Char) : Nat := (text.takeWhile p).length

@[simp] theorem take_run (p : Char → Bool) (text : List Char) :
    text.take (run p text) = text.takeWhile p := by
  conv => lhs; arg 2; rw [← @List.takeWhile_append_dropWhile _ p text]
  exact List.take_left

@[simp] theorem drop_run (p : Char → Bool) (text : List Char) :
    text.drop (run p text) = text.dropWhile p := by
  conv => lhs; arg 2; rw [← @List.takeWhile_append_dropWhile _ p text]
  exact List.drop_left

/-- The digits that a radix mark announces. -/
def radixDigit? (mark : Char) : Option (Char → Bool) :=
  if mark == 'x' || mark == 'X' then some isHexMark
  else if mark == 'o' || mark == 'O' then some isOctalMark
  else if mark == 'b' || mark == 'B' then some isBinaryMark
  else none

/-- The length of an integer with a radix mark: 0 if there is none or nothing of it follows. -/
def radixLength : List Char → Nat
  | '0' :: mark :: digits =>
    match radixDigit? mark with
    | some isDigit =>
      let n := run isDigit digits
      if n = 0 ∧ !digits.head?.any resemblesSuffixLetter then 0 else n + 2
    | none => 0
  | _ => 0

/-- The length of the digits and the point of a decimal number, and whether there is a point. -/
def significandLength (text : List Char) : Nat × Bool :=
  let whole := run isDigitMark text
  match text.drop whole with
  | '.' :: rest => (whole + 1 + run isDigitMark rest, true)
  | _ => (whole, false)

/-- The length of an exponent: 0 unless digits follow its mark and its sign. -/
def exponentLength : List Char → Nat
  | mark :: rest =>
    if mark == 'e' || mark == 'E' then
      let sign := match rest with
        | '+' :: _ | '-' :: _ => 1
        | _ => 0
      let n := run Char.isDigit (rest.drop sign)
      if n = 0 then 0 else 1 + sign + n
    else 0
  | [] => 0

/-- Whether a text begins with an exponent mark, and what follows leads to no suffix: a sign, or a
character that only begins like a letter. -/
def hasLostMark : List Char → Bool
  | mark :: c :: _ =>
    (mark == 'e' || mark == 'E') && (c == '+' || c == '-' || resemblesSuffixLetter c)
  | _ => false

/-- The decimal number at the head of a text that begins with a digit, or with a point and a digit.
An exponent mark that leads nowhere belongs to the number, but is no suffix. -/
def decimalToken (text : List Char) : TokenKind × Nat :=
  let (significand, point) := significandLength text
  let rest := text.drop significand
  let plain : TokenKind := if point then .float else .integer
  let exponent := exponentLength rest
  let suffix := run isSuffixLetter (rest.drop exponent)
  if exponent = 0 ∧ hasLostMark rest then (plain, significand + 1)
  else if 0 < suffix then (.suffixed, significand + exponent + suffix)
  else if 0 < exponent then (.float, significand + exponent)
  else (plain, significand)

/-- The number at the head of a text: the longer one of the two readings. A radix mark wins a
tie. -/
def numberToken (text : List Char) : TokenKind × Nat :=
  let radix := radixLength text
  let (kind, decimal) := decimalToken text
  if decimal ≤ radix then (.integer, radix) else (kind, decimal)

end OpenQasm.Token
