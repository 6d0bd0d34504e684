import OpenQasm.Span
import OpenQasm.Token.Kind

/-!
# Tokens
-/

namespace OpenQasm

/-- A token: its kind, its exact text and where the text stands. -/
structure Token where
  kind : TokenKind
  text : List Char
  span : Span
deriving DecidableEq, Repr, Inhabited

namespace Token

/-- The token as a message about what was found names it: with its text, where that varies. -/
def found (token : Token) : String :=
  match token.kind with
  | .identifier | .integer | .float | .suffixed | .hardwareQubit =>
    s!"{token.kind.describe} `{String.ofList token.text}`"
  | kind => kind.describe

end Token

end OpenQasm
