import OpenQasm.Token.Keyword
import OpenQasm.Token.Symbol

/-!
# Kinds of tokens
-/

namespace OpenQasm

/-- What a token is. -/
inductive TokenKind where
  | lineComment
  | blockComment
  | keyword (keyword : Keyword)
  /-- A whole line for the backend. -/
  | pragma
  /-- A remark on the next statement, to the end of its line. -/
  | annotationLine
  | integer
  | float
  /-- A number with letters right after it: imaginary, or a duration. -/
  | suffixed
  | string
  /-- A string of nothing but `0`, `1` and `_`. -/
  | bitstring
  | hardwareQubit
  | identifier
  /-- The text between the braces of a calibration, the braces included. -/
  | calibrationBody
  | symbol (symbol : Symbol)
  /-- Text that is no token. -/
  | error
deriving DecidableEq, Repr, Inhabited

namespace TokenKind

instance : Coe Keyword TokenKind := ⟨keyword⟩

instance : Coe Symbol TokenKind := ⟨symbol⟩

/-- Comments stand between tokens and mean nothing. -/
def isTrivia : TokenKind → Bool
  | lineComment | blockComment => true
  | _ => false

/-- Tokens that can only begin a statement. -/
def startsStatement : TokenKind → Bool
  | keyword word => word.startsStatement
  | pragma | annotationLine => true
  | _ => false

/-- The kind as messages name it. -/
def describe : TokenKind → String
  | lineComment | blockComment => "comment"
  | keyword word => s!"`{word.text}`"
  | pragma => "pragma"
  | annotationLine => "annotation"
  | integer => "integer literal"
  | float => "float literal"
  | suffixed => "number with suffix"
  | string => "string literal"
  | bitstring => "bitstring"
  | hardwareQubit => "hardware qubit"
  | identifier => "identifier"
  | calibrationBody => "calibration block"
  | symbol mark => s!"`{mark.text}`"
  | error => "invalid input"

end TokenKind

end OpenQasm
