import OpenQasm.Grammar.Types
import OpenQasm.Literal.Reader

/-!
# Expressions

Binary operators are read by climbing their precedences: from the operators of a least precedence
on, the next one is taken with a right operand of tighter operators only, and so on from left to
right. Their operands are unary operators, below these stands the power, which joins from right to
left, and below it indexing and what needs no operators.
-/

namespace OpenQasm.Grammar

/-! ## Literals -/

/-- The literal that a text spells. A text that spells none is reported and stands as an error. -/
def literal (text : List Char) (span : Span) (kind : LiteralKind) : Parser Placed := do
  match Literal.read text kind with
  | .ok value => place (.literal value) span
  | .error .overflow => crash .exponentOverflow
  | .error problem =>
    report .literalError span problem.message
    place .error span

/-- The number that the token just read spells, with the `im` that may follow it. -/
def number (token : Token) : Parser Placed := do
  let merges := token.kind == .integer || token.kind == .float
  match ← current with
  | some next =>
    if merges && next.kind == .keyword .kwIm then
      advance
      let span := ⟨token.span.source, token.span.start, next.span.stop⟩
      let text := (Text.slice? (← read).text span.start span.stop).getD []
      literal text span .imaginary
    else single
  | none => single
where
  /-- The number by itself. -/
  single : Parser Placed :=
    literal token.text token.span <|
      match token.kind with
      | .integer => .integer
      | .float => .float
      | _ => Literal.suffixKind token.text

/-- The number of a hardware qubit, if it is below `2 ^ 32`. -/
def hardwareNumber? (digits : List Char) : Option Nat :=
  let value := Text.valueIn 10 digits
  if value ≤ maxOffset then some value else none

/-- The hardware qubit that the token just read spells. -/
def hardwareQubit (token : Token) : Parser Placed := do
  match hardwareNumber? (token.text.drop 1) with
  | some value => place (.hardwareQubit value) token.span
  | none =>
    report .literalError token.span
      s!"hardware qubit index `{String.ofList token.text}` is out of range"
    place .error token.span

section
variable (inner : Level)

/-! ## Brackets -/

/-- One end of a range, if it is given. -/
def rangePart : Parser (Option Placed) := do
  match ← peek with
  | none | some (.symbol .rightBracket) | some (.symbol .comma) | some (.symbol .colon) =>
    return none
  | some _ => return some (← expression inner)

/-- The part of a range from its first colon on. -/
def rangeAfter (startSpan : Span) (start : Option Placed) : Parser Placed := do
  let _ ← expect Symbol.colon
  let second ← rangePart inner
  if ← accept Symbol.colon then
    let third ← rangePart inner
    placeFrom startSpan (.range start second third)
  else
    placeFrom startSpan (.range start none second)

/-- An expression, or a range `start:stop` or `start:step:stop` whose parts may be missing. -/
def rangeOrExpression : Parser Placed := do
  let startSpan ← currentSpan
  if ← sees Symbol.colon then rangeAfter inner startSpan none
  else
    let first ← expression inner
    if ← sees Symbol.colon then rangeAfter inner startSpan (some first) else return first

/-- Expressions between braces. -/
def setLiteral : Parser Placed := do
  let start := (← expect Symbol.leftBrace).span
  let elements ← expressions inner Symbol.rightBrace
  let _ ← expect Symbol.rightBrace
  placeFrom start (.set elements)

def indexItem : Parser Placed := do
  if ← sees Symbol.leftBrace then setLiteral inner else rangeOrExpression inner

/-- The items in square brackets after a base. -/
def indexed (base : Placed) : Parser Placed := do
  let _ ← expect Symbol.leftBracket
  let items ← joined Symbol.comma (indexItem inner)
  let _ ← expect Symbol.rightBracket
  placeFrom base.span (.index base items)

/-- All items in square brackets after a base. -/
def indices (base : Placed) : Parser Placed :=
  iterate
    (fun base => do
      if ← sees Symbol.leftBracket then return .again (← indexed inner base)
      else return .done base)
    base

/-! ## Operators -/

/-- An identifier, or a call of it. -/
def identifierOrCall (token : Token) : Parser Placed := do
  let callee ← identifier
  if ← accept Symbol.leftParen then
    let args ← expressions inner Symbol.rightParen
    let _ ← expect Symbol.rightParen
    placeFrom token.span (.call callee args)
  else
    return callee

/-- A type applied to an operand in parentheses. -/
def castExpression (token : Token) : Parser Placed := do
  let type ← type inner
  let _ ← expect Symbol.leftParen
  let operand ← expression inner
  let _ ← expect Symbol.rightParen
  placeFrom token.span (.cast type operand)

/-- An expression that needs no operators, beginning with the given token. -/
def primaryAt (token : Token) : Parser Placed := do
  match token.kind with
  | .integer | .float | .suffixed =>
    advance
    number token
  | .keyword .kwPi =>
    advance
    place (.constant .pi) token.span
  | .keyword .kwTau =>
    advance
    place (.constant .tau) token.span
  | .keyword .kwEuler =>
    advance
    place (.constant .euler) token.span
  | .keyword .kwTrue =>
    advance
    place (.boolean true) token.span
  | .keyword .kwFalse =>
    advance
    place (.boolean false) token.span
  | .bitstring =>
    advance
    place (.bitstring (String.ofList (token.text.drop 1).dropLast)) token.span
  | .hardwareQubit =>
    advance
    hardwareQubit token
  | .identifier => identifierOrCall inner token
  | .symbol .leftParen =>
    advance
    let inside ← expression inner
    let _ ← expect Symbol.rightParen
    placeFrom token.span (.paren inside)
  | .keyword .kwDurationOf =>
    advance
    let _ ← expect Symbol.leftParen
    let body ← block inner
    let _ ← expect Symbol.rightParen
    placeFrom token.span (.durationOf body)
  | kind => if startsType kind then castExpression inner token else unexpected "expression"

/-- An expression that needs no operators. -/
def primary : Parser Placed := do
  match ← current with
  | some token => primaryAt inner token
  | none => unexpected "expression"

def postfixExpression : Parser Placed := do
  indices inner (← primary inner)

/-- A power: its exponent may begin with a unary operator or be a power itself. -/
def power : Parser Placed := do
  let base ← postfixExpression inner
  if ← accept Symbol.starStar then
    let exponent ← inner .unary
    place (.binary .pow base exponent) (base.span.join exponent.span)
  else
    return base

/-- A unary operator applied to an operand, or a power. -/
def unaryExpression : Parser Placed := do
  match (← peek).bind unaryOp? with
  | some op =>
    let start ← currentSpan
    advance
    let operand ← inner .unary
    placeFrom start (.unary op operand)
  | none => power inner

/-- Expressions joined by binary operators of the given precedence or tighter ones. The operand to
the right of an operator has tighter ones only. -/
def binaryFrom (least : Nat) : Parser Placed := do
  let first ← unaryExpression inner
  iterate
    (fun lhs => do
      match (← peek).bind binaryOp? with
      | some op =>
        if op.precedence < least then return .done lhs
        else
          advance
          let rhs ← binaryFrom (op.precedence + 1)
          return .again (← place (.binary op lhs rhs) (lhs.span.join rhs.span))
      | none => return .done lhs)
    first
termination_by BinaryOp.tightest + 1 - least
decreasing_by
  have := op.precedence_le_tightest
  omega

/-- One round of the climb: the next operator, if it is tight enough, with its right operand. -/
def binaryRound (least : Nat) (lhs : Placed) : Parser (Turn Placed Placed) := do
  match (← peek).bind binaryOp? with
  | some op =>
    if op.precedence < least then return .done lhs
    else
      advance
      let rhs ← binaryFrom inner (op.precedence + 1)
      return .again (← place (.binary op lhs rhs) (lhs.span.join rhs.span))
  | none => return .done lhs

/-- A climb is its first operand, and round upon round. -/
theorem binaryFrom_eq (least : Nat) :
    binaryFrom inner least = unaryExpression inner >>= iterate (binaryRound inner least) := by
  rw [binaryFrom]
  rfl

/-- What holds of a climb if it holds of the climbs for its right operands, holds of every climb. -/
theorem climb_induction {motive : Nat → Prop}
    (h : ∀ least, (∀ op : BinaryOp, least ≤ op.precedence → motive (op.precedence + 1)) →
      motive least) (least : Nat) : motive least := by
  induction hn : BinaryOp.tightest + 1 - least using Nat.strongRecOn generalizing least with
  | _ n ih =>
    refine h least fun op hle => ih _ ?_ _ rfl
    have := op.precedence_le_tightest
    omega

/-- An expression with operators of any precedence. -/
def binaryExpression : Parser Placed := binaryFrom inner 1

/-! ## Values -/

/-- A qubit or several of them: an identifier with its indices, or a hardware qubit. -/
def operand : Parser Placed := do
  match ← current with
  | some token =>
    match token.kind with
    | .hardwareQubit =>
      advance
      hardwareQubit token
    | .identifier => indices inner (← identifier)
    | _ => unexpected "qubit operand"
  | none => unexpected "qubit operand"

/-- Operands separated by commas, or none before a semicolon. -/
def operands : Parser (List Placed) := do
  if ← sees Symbol.semicolon then return [] else joined Symbol.comma (operand inner)

/-- A measurement of an operand. -/
def measurement : Parser Placed := do
  let start := (← expect Keyword.kwMeasure).span
  let measured ← operand inner
  placeFrom start (.measure measured)

/-- What an assignment, a declaration or a return may take: a measurement or an expression. -/
def value : Parser Placed := do
  if ← sees Keyword.kwMeasure then measurement inner else expression inner

/-- The elements of an array between braces. -/
def arrayLiteral : Parser Placed := do
  let start := (← expect Symbol.leftBrace).span
  let elements ← separated Symbol.rightBrace do
    if ← sees Symbol.leftBrace then inner .arrayLiteral else expression inner
  let _ ← expect Symbol.rightBrace
  placeFrom start (.arrayLiteral elements)

end

end OpenQasm.Grammar
