import OpenQasm.Grammar.Parser

/-!
# Productions

The productions that the grammar leads back to. Each use of one of them goes one level deeper, so
the productions of one level are written over those of the next one, whatever these are.
-/

namespace OpenQasm.Grammar

/-- A production that is nested in others. -/
inductive Production where
  | expression
  /-- The operand of a unary operator, or an exponent. -/
  | unary
  /-- The component of a complex type. -/
  | scalarType
  /-- A statement that is the body of another one without braces. -/
  | statement
  /-- The statements between the braces of a block, in a scope of their own. -/
  | blockItems
  /-- The cases of a switch. -/
  | cases
  /-- An array literal within another one. -/
  | arrayLiteral
deriving DecidableEq, Repr

/-- What a production yields. -/
@[reducible] def Production.Result : Production → Type
  | .blockItems | .cases => List Placed
  | _ => Placed

/-- The productions of one level. -/
abbrev Level := (production : Production) → Parser production.Result

/-! ## Pieces that stand on all levels -/

def identifier : Parser Placed := do
  let token ← expect .identifier
  place (.identifier (String.ofList token.text)) token.span

/-- Identifiers separated by commas up to the closing symbol. -/
def identifiers (close : Symbol) : Parser (List Placed) := separated close identifier

section
variable (inner : Level)

def expression : Parser Placed := inner .expression

/-- Expressions separated by commas up to the closing symbol. -/
def expressions (close : Symbol) : Parser (List Placed) := separated close (expression inner)

/-- An expression in square brackets, if there is one. -/
def designator : Parser (Option Placed) := do
  if ← accept Symbol.leftBracket then
    let inside ← expression inner
    let _ ← expect Symbol.rightBracket
    return some inside
  else
    return none

/-- Statements between braces, in a scope of their own. -/
def block : Parser Placed := do
  let start := (← expect Symbol.leftBrace).span
  let items ← blockOpen (inner .blockItems)
  let _ ← expect Symbol.rightBrace
  placeFrom start (.scope items)

end

end OpenQasm.Grammar
