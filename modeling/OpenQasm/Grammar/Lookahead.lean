import OpenQasm.Token.Basic
import OpenQasm.Tree.Operator

/-!
# Looking ahead

Questions about the tokens ahead that the grammar answers without reading them: what a token may
begin, which operator it is, what follows a bracketed group, and where reading goes on after an
error.
-/

namespace OpenQasm.Grammar

/-! ## Single tokens -/

/-- The scalar type that a keyword names. -/
def scalarKind? : TokenKind → Option ScalarKind
  | .keyword .kwBit => some .bit
  | .keyword .kwInt => some .int
  | .keyword .kwUint => some .uint
  | .keyword .kwFloat => some .float
  | .keyword .kwAngle => some .angle
  | .keyword .kwBool => some .bool
  | .keyword .kwDuration => some .duration
  | .keyword .kwStretch => some .stretch
  | _ => none

/-- Whether a token may begin a classical type. -/
def startsType (kind : TokenKind) : Bool :=
  (scalarKind? kind).isSome || kind == .keyword .kwComplex || kind == .keyword .kwArray

/-- Whether a token that begins no other statement may begin an expression. -/
def startsExpression : TokenKind → Bool
  | .integer | .float | .suffixed | .bitstring | .hardwareQubit => true
  | .keyword .kwTrue | .keyword .kwFalse | .keyword .kwPi | .keyword .kwTau | .keyword .kwEuler |
    .keyword .kwDurationOf => true
  | .symbol .leftParen | .symbol .minus | .symbol .bang | .symbol .tilde => true
  | _ => false

/-- The operator between two operands that a token stands for, the power apart. -/
def binaryOp? : TokenKind → Option BinaryOp
  | .symbol .plus => some .add
  | .symbol .minus => some .sub
  | .symbol .star => some .mul
  | .symbol .slash => some .div
  | .symbol .percent => some .mod
  | .symbol .eqEq => some .eq
  | .symbol .notEq => some .notEq
  | .symbol .less => some .less
  | .symbol .lessEq => some .lessEq
  | .symbol .greater => some .greater
  | .symbol .greaterEq => some .greaterEq
  | .symbol .andAnd => some .and
  | .symbol .orOr => some .or
  | .symbol .amp => some .bitAnd
  | .symbol .pipe => some .bitOr
  | .symbol .caret => some .bitXor
  | .symbol .shiftLeft => some .shiftLeft
  | .symbol .shiftRight => some .shiftRight
  | _ => none

/-- The operator before an operand that a token stands for. -/
def unaryOp? : TokenKind → Option UnaryOp
  | .symbol .minus => some .neg
  | .symbol .bang => some .not
  | .symbol .tilde => some .bitNot
  | _ => none

/-- The operator of an assignment that a token stands for. -/
def assignOp? : TokenKind → Option AssignOp
  | .symbol .assign => some .plain
  | .symbol .plusAssign => some (.compound .add)
  | .symbol .minusAssign => some (.compound .sub)
  | .symbol .starAssign => some (.compound .mul)
  | .symbol .slashAssign => some (.compound .div)
  | .symbol .percentAssign => some (.compound .mod)
  | .symbol .starStarAssign => some (.compound .pow)
  | .symbol .ampAssign => some (.compound .bitAnd)
  | .symbol .pipeAssign => some (.compound .bitOr)
  | .symbol .caretAssign => some (.compound .bitXor)
  | .symbol .shiftLeftAssign => some (.compound .shiftLeft)
  | .symbol .shiftRightAssign => some (.compound .shiftRight)
  | _ => none

/-- The gate modifier that a keyword names. -/
def modifierKind? : TokenKind → Option ModifierKind
  | .keyword .kwInv => some .inv
  | .keyword .kwPow => some .pow
  | .keyword .kwCtrl => some .ctrl
  | .keyword .kwNegCtrl => some .negctrl
  | _ => none

/-! ## Bracketed groups -/

/-- Whether a token opens a bracketed group. -/
def isOpening : TokenKind → Bool
  | .symbol .leftParen | .symbol .leftBracket | .symbol .leftBrace => true
  | _ => false

/-- Whether a token closes a bracketed group. -/
def isClosing : TokenKind → Bool
  | .symbol .rightParen | .symbol .rightBracket | .symbol .rightBrace => true
  | _ => false

/-- The tokens after the bracket that closes the outermost of `opened` groups. A semicolon ends
every group before it, and brackets of all kinds count alike. -/
def afterGroup : Nat → List Token → List Token
  | _, [] => []
  | opened, token :: rest =>
    if isOpening token.kind then afterGroup (opened + 1) rest
    else if isClosing token.kind then
      if opened ≤ 1 then rest else afterGroup (opened - 1) rest
    else if token.kind = Symbol.semicolon then token :: rest
    else afterGroup opened rest

theorem length_afterGroup_le (opened : Nat) (tokens : List Token) :
    (afterGroup opened tokens).length ≤ tokens.length := by
  fun_induction afterGroup opened tokens <;> simp_all <;> omega

/-- Whether the first token is of the given kind. -/
def startsWith (kind : TokenKind) (tokens : List Token) : Bool :=
  tokens.head?.any (·.kind == kind)

/-- The tokens after all groups in square brackets at the head. -/
def afterIndices : List Token → List Token
  | [] => []
  | token :: rest =>
    if token.kind = Symbol.leftBracket then
      have : (afterGroup 1 rest).length ≤ rest.length := length_afterGroup_le 1 rest
      afterIndices (afterGroup 1 rest)
    else token :: rest
termination_by tokens => tokens.length
decreasing_by simp only [List.length_cons]; omega

/-- Whether the tokens after a type's keyword make it a cast: a parenthesis follows, perhaps after
a group in square brackets. -/
def castFollows (rest : List Token) : Bool :=
  startsWith Symbol.leftParen
    (if startsWith Symbol.leftBracket rest then afterGroup 0 rest else rest)

/-- What a statement that begins with an identifier is. -/
inductive IdentifierStatement where
  | gateCall
  | assignment
  | expression
deriving DecidableEq, Repr

/-- Whether a token may begin the operands of a gate call. -/
def startsOperand (kind : TokenKind) : Bool := kind == .identifier || kind == .hardwareQubit

/-- Tell the statements that begin with an identifier apart by the tokens after it, past groups in
parentheses or square brackets. -/
def identifierStatement (rest : List Token) : IdentifierStatement :=
  match rest with
  | [] => .expression
  | token :: _ =>
    if startsOperand token.kind then .gateCall
    else if (assignOp? token.kind).isSome then .assignment
    else if token.kind = Symbol.leftParen then
      let rest := afterGroup 0 rest
      let rest := if startsWith Symbol.leftBracket rest then afterGroup 0 rest else rest
      if rest.head?.any (startsOperand ·.kind) then .gateCall else .expression
    else if token.kind = Symbol.leftBracket then
      match (afterIndices rest).head? with
      | some next =>
        if (assignOp? next.kind).isSome then .assignment
        else if startsOperand next.kind then .gateCall
        else .expression
      | none => .expression
    else .expression

/-! ## Recovery -/

/-- How many tokens to pass over to the place where statements may go on, when `opened` braces are
open: past a semicolon or the brace that closes the outermost one, before a closing brace of an
enclosing block or a token that begins a statement. -/
def skipLength : Nat → List Token → Nat
  | _, [] => 0
  | opened, token :: rest =>
    if token.kind = Symbol.leftBrace then skipLength (opened + 1) rest + 1
    else if token.kind = Symbol.rightBrace then
      match opened with
      | 0 => 0
      | 1 => 1
      | opened + 2 => skipLength (opened + 1) rest + 1
    else if opened = 0 then
      if token.kind = Symbol.semicolon then 1
      else if token.kind.startsStatement then 0
      else skipLength 0 rest + 1
    else skipLength opened rest + 1

/-- The same for a statement of which no token was read: its first token is passed over in any
case, and ends the search if it is a semicolon at the level of the statement. -/
def skipStatementLength (opened : Nat) : List Token → Nat
  | [] => 0
  | token :: rest =>
    if token.kind = Symbol.semicolon ∧ opened = 0 then 1
    else skipLength (if token.kind = Symbol.leftBrace then opened + 1 else opened) rest + 1

end OpenQasm.Grammar
