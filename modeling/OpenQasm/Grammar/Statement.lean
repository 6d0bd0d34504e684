import OpenQasm.Grammar.Declaration

/-!
# Statements

Quantum and classical statements, control flow, and the choice among all statements by the tokens
ahead. A statement that fails is dropped with everything it pushed, and an error node takes its
place.
-/

namespace OpenQasm.Grammar

section
variable (inner : Level)

/-! ## Quantum statements -/

/-- A waiting time for operands. -/
def delay : Parser Placed := do
  let start := (← expect Keyword.kwDelay).span
  let _ ← expect Symbol.leftBracket
  let duration ← expression inner
  let _ ← expect Symbol.rightBracket
  let operands ← operands inner
  let _ ← expect Symbol.semicolon
  let span ← spanFrom start
  requireVersion3 span "`delay`"
  place (.delay duration operands) span

def reset : Parser Placed := do
  let start := (← expect Keyword.kwReset).span
  let operand ← operand inner
  let _ ← expect Symbol.semicolon
  placeFrom start (.reset operand)

def barrier : Parser Placed := do
  let start ← currentSpan
  advance
  let operands ← operands inner
  let _ ← expect Symbol.semicolon
  placeFrom start (.barrier operands)

def nop : Parser Placed := do
  let start ← currentSpan
  advance
  let operands ← operands inner
  let _ ← expect Symbol.semicolon
  let span ← spanFrom start
  requireVersion3 span "`nop`"
  place (.nop operands) span

/-- A measurement, perhaps with an arrow to its target. -/
def measureStatement : Parser Placed := do
  let start ← currentSpan
  let measured ← measurement inner
  let target ← if ← accept Symbol.arrow then some <$> operand inner else pure none
  let _ ← expect Symbol.semicolon
  placeFrom start (.measureArrow measured target)

/-- A modifier of a gate with its argument, up to the at sign. -/
def gateModifier (modifier : ModifierKind) : Parser Placed := do
  let start ← currentSpan
  advance
  let arg ←
    if ← accept Symbol.leftParen then
      let arg ← expression inner
      let _ ← expect Symbol.rightParen
      pure (some arg)
    else
      pure none
  let _ ← expect Symbol.atSign
  placeFrom start (.gateModifier modifier arg)

/-- All modifiers before the name of a gate. -/
def gateModifiers : Parser (List Placed) :=
  iterate
    (fun modifiers => do
      match (← peek).bind modifierKind? with
      | some modifier => return .again (modifiers ++ [← gateModifier inner modifier])
      | none => return .done modifiers)
    []

/-- The name of the gate that is called. -/
def gateName : Parser Placed := do
  match ← current with
  | some token =>
    if token.kind = .identifier ∨ token.kind = Keyword.kwGphase then
      advance
      place (.identifier (String.ofList token.text)) token.span
    else unexpected "gate name"
  | none => unexpected "gate name"

/-- The arguments of a gate in parentheses, if there are any. -/
def gateArguments : Parser (List Placed) := do
  if ← accept Symbol.leftParen then
    let args ← expressions inner Symbol.rightParen
    let _ ← expect Symbol.rightParen
    return args
  else
    return []

def gateCall : Parser Placed := do
  let start ← currentSpan
  let modifiers ← gateModifiers inner
  let callee ← gateName
  let args ← gateArguments inner
  let duration ← designator inner
  let operands ← operands inner
  let _ ← expect Symbol.semicolon
  placeFrom start (.gateCall modifiers callee args duration operands)

/-- A block with a duration. -/
def boxStatement : Parser Placed := do
  let start := (← expect Keyword.kwBox).span
  let duration ← designator inner
  let body ← block inner
  let span ← spanFrom start
  requireVersion3 start "`box`"
  place (.box duration body) span

/-! ## Classical statements -/

def assignment : Parser Placed := do
  let start ← currentSpan
  let target ← operand inner
  match (← peek).bind assignOp? with
  | some op =>
    advance
    let value ← value inner
    let _ ← expect Symbol.semicolon
    placeFrom start (.assignment target op value)
  | none => unexpected "assignment operator"

def expressionStatement : Parser Placed := do
  let start ← currentSpan
  let expr ← expression inner
  let _ ← expect Symbol.semicolon
  placeFrom start (.exprStmt expr)

/-- A keyword that is a statement by itself. -/
def jump (kind : NodeKind Placed) : Parser Placed := do
  let start ← currentSpan
  advance
  let _ ← expect Symbol.semicolon
  placeFrom start kind

def returnStatement : Parser Placed := do
  let start := (← expect Keyword.kwReturn).span
  let value ← if ← sees Symbol.semicolon then pure none else some <$> value inner
  let _ ← expect Symbol.semicolon
  placeFrom start (.returnStmt value)

/-! ## Control flow -/

/-- An expression in parentheses. -/
def condition : Parser Placed := do
  let _ ← expect Symbol.leftParen
  let condition ← expression inner
  let _ ← expect Symbol.rightParen
  return condition

/-- What a condition or a loop governs: a block, or one statement in a scope of its own. -/
def body : Parser Placed := do
  if ← sees Symbol.leftBrace then block inner else inScope (inner .statement)

def ifStatement : Parser Placed := do
  let start := (← expect Keyword.kwIf).span
  let condition ← condition inner
  let thenBranch ← body inner
  let elseBranch ← if ← accept Keyword.kwElse then some <$> body inner else pure none
  placeFrom start (.ifStmt condition thenBranch elseBranch)

/-- What a loop goes through: a range or an expression in brackets, a set, or an expression. -/
def iterable : Parser Placed := do
  match ← peek with
  | some (.symbol .leftBracket) =>
    advance
    let range ← rangeOrExpression inner
    let _ ← expect Symbol.rightBracket
    return range
  | some (.symbol .leftBrace) => setLiteral inner
  | _ => expression inner

/-- The type of a loop's variable, which may be missing. -/
def loopType : Parser (Option Placed) := do
  if startsWith Keyword.kwIn ((← get).rest.drop 1) then return none else some <$> type inner

def forStatement : Parser Placed := do
  let start := (← expect Keyword.kwFor).span
  requireVersion3 start "`for`"
  let type ← loopType inner
  let (var, iterable, body) ← inScope do
    let var ← identifier
    let _ ← expect Keyword.kwIn
    let iterable ← iterable inner
    declare var
    return (var, iterable, ← body inner)
  placeFrom start (.forStmt type var iterable body)

def whileStatement : Parser Placed := do
  let start := (← expect Keyword.kwWhile).span
  requireVersion3 start "`while`"
  let condition ← condition inner
  let body ← body inner
  placeFrom start (.whileStmt condition body)

def switchStatement : Parser Placed := do
  let start := (← expect Keyword.kwSwitch).span
  requireVersion3 start "`switch`"
  let subject ← condition inner
  let _ ← expect Symbol.leftBrace
  let cases ← blockOpen (inner .cases)
  let _ ← expect Symbol.rightBrace
  placeFrom start (.switchStmt subject cases)

/-- The cases of a switch up to its closing brace. -/
def cases : Parser (List Placed) :=
  iterate
    (fun cases => do
      let start ← currentSpan
      match ← peek with
      | some (.keyword .kwCase) =>
        advance
        let values ← expressions inner Symbol.leftBrace
        if values.isEmpty then unexpected "case value"
        let body ← block inner
        return .again (cases ++ [← placeFrom start (.caseClause values body)])
      | some (.keyword .kwDefault) =>
        advance
        let body ← block inner
        return .again (cases ++ [← placeFrom start (.defaultClause body)])
      | some (.symbol .rightBrace) => return .done cases
      | _ => unexpected "`case`, `default` or `\x7d`")
    []

/-! ## The choice of a statement -/

/-- A statement that begins with an identifier. -/
def identifierStart : Parser Placed := do
  match identifierStatement ((← get).rest.drop 1) with
  | .gateCall => gateCall inner
  | .assignment => assignment inner
  | .expression => expressionStatement inner

/-- A statement that begins with the keyword of a type: a declaration or a cast. -/
def typeStart : Parser Placed := do
  if castFollows ((← get).rest.drop 1) then expressionStatement inner else classicalDecl inner

/-- A statement that begins with a keyword. -/
def keywordStart (keyword : Keyword) : Parser Placed := do
  match keyword with
  | .kwVersion => versionStatement
  | .kwInclude => includeStatement
  | .kwDefcalGrammar => calibrationGrammar
  | .kwQubit => qubitDecl inner
  | .kwQReg => registerDecl inner .qreg
  | .kwCReg => registerDecl inner .creg
  | .kwConst => constDecl inner
  | .kwInput => ioDecl inner .input
  | .kwOutput => ioDecl inner .output
  | .kwLet => aliasDecl inner
  | .kwGate => gateDef inner
  | .kwOpaque => opaqueDecl
  | .kwDef => subroutineDef inner
  | .kwExtern => externDecl inner
  | .kwCal => cal
  | .kwDefcal => defcal
  | .kwBox => boxStatement inner
  | .kwBreak => jump .breakStmt
  | .kwContinue => jump .continueStmt
  | .kwEnd => jump .endStmt
  | .kwReturn => returnStatement inner
  | .kwIf => ifStatement inner
  | .kwFor => forStatement inner
  | .kwWhile => whileStatement inner
  | .kwSwitch => switchStatement inner
  | .kwDelay => delay inner
  | .kwReset => reset inner
  | .kwBarrier => barrier inner
  | .kwNop => nop inner
  | .kwMeasure => measureStatement inner
  | .kwInv | .kwPow | .kwCtrl | .kwNegCtrl | .kwGphase => gateCall inner
  | keyword =>
    if startsType keyword then typeStart inner
    else if startsExpression keyword then expressionStatement inner
    else unexpected "statement"

/-- A statement. -/
def statement : Parser Placed := do
  match ← current with
  | none => unexpected "statement"
  | some token =>
    match token.kind with
    | .keyword keyword => keywordStart inner keyword
    | .pragma =>
      advance
      pragma token
    | .annotationLine =>
      advance
      annotationLine token
    | .symbol .leftBrace => block inner
    | .identifier => identifierStart inner
    | kind => if startsExpression kind then expressionStatement inner else unexpected "statement"

/-! ## Recovery -/

/-- Go on to where statements may go on, when `opened` braces are open. `before` is the number of
tokens read before the statement. -/
def synchronize (before opened : Nat) : Parser Unit := do
  let state ← get
  let n :=
    if state.position = before then skipStatementLength opened state.rest
    else skipLength opened state.rest
  passOver n
  modify fun state => { state with resync := some state.position }

/-- A statement, or an error in its place. Only while an overflow of the depth unwinds out of open
blocks does a failure go on to the block around. -/
def statementOrError : Parser Placed := do
  let mark := (← get).builder.size
  let before := (← get).position
  let start ← currentSpan
  match ← attempt (statement inner) with
  | some node => return node
  | none =>
    modify fun state => { state with builder := state.builder.truncate mark }
    let state ← get
    if state.unwinding.isSome ∧ 0 < state.openBlocks then recover
    set { state with unwinding := none }
    synchronize before (state.unwinding.getD 0)
    placeFrom start .error

/-- The statements of a block up to its closing brace or the end of the text. -/
def blockItems : Parser (List Placed) :=
  iterate
    (fun items => do
      match ← peek with
      | none | some (.symbol .rightBrace) => return .done items
      | some _ => return .again (items ++ [← statementOrError inner]))
    []

end

end OpenQasm.Grammar
