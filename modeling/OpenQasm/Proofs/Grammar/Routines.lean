import OpenQasm.Grammar.Program

/-!
# Routines

The functions of the parser by name, and the calls between them. In the body of a routine every
other function that it uses is called by its name, and what is done there is left open, so that the
calls which are open at a time can be counted. The pieces that look at tokens, read them, report and
place nodes call nothing. A function over the productions of the next level alone, or over none at
all, is its own body.
-/

namespace OpenQasm.Grammar

/-- A function of the parser, and what it is called with. -/
inductive Routine where
  /-- A production of the next level. -/
  | nested (production : Production)
  -- Pieces
  | identifier | identifiers (close : Symbol) | expressions (close : Symbol) | designator | block
  -- Types
  | complexType | scalarType | elementType | arrayType | qubitType | type | arrayRefType
  -- Expressions
  | literal (text : List Char) (span : Span) (kind : LiteralKind) | number (token : Token)
  | hardwareQubit (token : Token) | rangePart
  | rangeAfter (startSpan : Span) (start : Option Placed) | rangeOrExpression | setLiteral
  | indexItem | indexed (base : Placed) | indices (base : Placed)
  | identifierOrCall (token : Token) | castExpression (token : Token) | primaryAt (token : Token)
  | primary | postfixExpression | power | unaryExpression | binaryFrom (least : Nat) | operand
  | operands | measurement | value | arrayLiteral
  -- Declarations
  | versionStatement | stringText (what : String) | includeStatement | calibrationGrammar
  | pragma (token : Token) | annotationLine (token : Token) | calibrationBody | cal | defcal
  | qubitDecl | registerDecl (register : RegisterKind) | initializer (type : Placed)
  | classicalDecl | constDecl | ioDecl (direction : Direction) | aliasDecl | gateParams | gateDef
  | opaqueDecl | registerParam (register : RegisterKind) | paramType | subroutineParam
  | returnType | subroutineDef | registerType | externParam | externDecl
  -- Statements
  | delay | reset | barrier | nop | measureStatement | gateModifier (modifier : ModifierKind)
  | gateModifiers | gateName | gateArguments | gateCall | boxStatement | assignment
  | expressionStatement | jump (kind : NodeKind Placed) | returnStatement | condition | body
  | ifStatement | iterable | loopType | forStatement | whileStatement | switchStatement | cases
  | identifierStart | typeStart | keywordStart (keyword : Keyword) | statement | statementOrError
  | blockItems
  -- Programs
  | programItems
  | program

/-- What a routine yields. -/
@[reducible] def Routine.Result : Routine → Type
  | .nested production => production.Result
  | .identifiers _ | .expressions _ | .operands | .gateParams | .gateModifiers | .gateArguments
  | .cases | .blockItems | .programItems => List Placed
  | .designator | .rangePart | .returnType | .loopType => Option Placed
  | .stringText _ | .calibrationBody => String
  | _ => Placed

/-- What is done where each of the routines is called. -/
abbrev Calls := (routine : Routine) → Parser routine.Result

/-- The productions of the next level, each by a call. -/
def Calls.level (call : Calls) : Level := fun production => call (.nested production)

/-- The routine that a production is on its own level. -/
def productionOf (call : Calls) : (production : Production) → Parser production.Result
  | .expression => call (.binaryFrom 1)
  | .unary => call .unaryExpression
  | .scalarType => call .scalarType
  | .statement => call .statement
  | .blockItems => inScope (call .blockItems)
  | .cases => call .cases
  | .arrayLiteral => call .arrayLiteral

/-- What a routine does, where its calls are left open. -/
def bodyOf (call : Calls) : (routine : Routine) → Parser routine.Result
  | .nested production => nested (productionOf call production)
  -- Pieces
  | .identifier => Grammar.identifier
  | .identifiers close => separated close (call .identifier)
  | .expressions close => Grammar.expressions call.level close
  | .designator => Grammar.designator call.level
  | .block => Grammar.block call.level
  -- Types
  | .complexType => Grammar.complexType call.level
  | .scalarType => do
    let start ← currentSpan
    match (← peek).bind scalarKind? with
    | some scalar =>
      advance
      let designator ← call .designator
      placeFrom start (.scalarType scalar designator)
    | none => if ← sees Keyword.kwComplex then call .complexType else unexpected "type"
  | .elementType => do
    let _ ← expect Symbol.leftBracket
    let element ← call .scalarType
    let _ ← expect Symbol.comma
    return element
  | .arrayType => do
    let start ← currentSpan
    advance
    let element ← call .elementType
    let dims ← call (.expressions Symbol.rightBracket)
    if dims.isEmpty then unexpected "array dimension"
    let _ ← expect Symbol.rightBracket
    placeFrom start (.arrayType element dims)
  | .qubitType => do
    let start ← currentSpan
    advance
    let size ← call .designator
    placeFrom start (.qubitType size)
  | .type => do
    match ← peek with
    | some (.keyword .kwComplex) => call .complexType
    | some (.keyword .kwArray) => call .arrayType
    | some (.keyword .kwQubit) => call .qubitType
    | _ => call .scalarType
  | .arrayRefType => do
    let start ← currentSpan
    let isMutable ← match ← peek with
      | some (.keyword .kwMutable) => pure true
      | some (.keyword .kwReadonly) => pure false
      | _ => unexpected "`readonly` or `mutable`"
    advance
    let _ ← expect Keyword.kwArray
    let element ← call .elementType
    if ← accept Symbol.hashDim then
      let _ ← expect Symbol.assign
      let rank ← call (.nested .expression)
      let _ ← expect Symbol.rightBracket
      placeFrom start (.arrayRefType isMutable element [] (some rank))
    else
      let dims ← call (.expressions Symbol.rightBracket)
      let _ ← expect Symbol.rightBracket
      placeFrom start (.arrayRefType isMutable element dims none)
  -- Expressions
  | .literal text span kind => Grammar.literal text span kind
  | .number token => do
    let merges := token.kind == .integer || token.kind == .float
    let single := call <| .literal token.text token.span <|
      match token.kind with
      | .integer => .integer
      | .float => .float
      | _ => Literal.suffixKind token.text
    match ← current with
    | some next =>
      if merges && next.kind == .keyword .kwIm then
        advance
        let span := ⟨token.span.source, token.span.start, next.span.stop⟩
        let text := (Text.slice? (← read).text span.start span.stop).getD []
        call (.literal text span .imaginary)
      else single
    | none => single
  | .hardwareQubit token => Grammar.hardwareQubit token
  | .rangePart => Grammar.rangePart call.level
  | .rangeAfter startSpan start => do
    let _ ← expect Symbol.colon
    let second ← call .rangePart
    if ← accept Symbol.colon then
      let third ← call .rangePart
      placeFrom startSpan (.range start second third)
    else
      placeFrom startSpan (.range start none second)
  | .rangeOrExpression => do
    let startSpan ← currentSpan
    if ← sees Symbol.colon then call (.rangeAfter startSpan none)
    else
      let first ← call (.nested .expression)
      if ← sees Symbol.colon then call (.rangeAfter startSpan (some first)) else return first
  | .setLiteral => do
    let start := (← expect Symbol.leftBrace).span
    let elements ← call (.expressions Symbol.rightBrace)
    let _ ← expect Symbol.rightBrace
    placeFrom start (.set elements)
  | .indexItem => do
    if ← sees Symbol.leftBrace then call .setLiteral else call .rangeOrExpression
  | .indexed base => do
    let _ ← expect Symbol.leftBracket
    let items ← joined Symbol.comma (call .indexItem)
    let _ ← expect Symbol.rightBracket
    placeFrom base.span (.index base items)
  | .indices base =>
    iterate
      (fun base => do
        if ← sees Symbol.leftBracket then return .again (← call (.indexed base))
        else return .done base)
      base
  | .identifierOrCall token => do
    let callee ← call .identifier
    if ← accept Symbol.leftParen then
      let args ← call (.expressions Symbol.rightParen)
      let _ ← expect Symbol.rightParen
      placeFrom token.span (.call callee args)
    else
      return callee
  | .castExpression token => do
    let type ← call .type
    let _ ← expect Symbol.leftParen
    let operand ← call (.nested .expression)
    let _ ← expect Symbol.rightParen
    placeFrom token.span (.cast type operand)
  | .primaryAt token => do
    match token.kind with
    | .integer | .float | .suffixed =>
      advance
      call (.number token)
    | .keyword .kwPi =>
      advance
      place (.constant .pi) token.span
    | .keyword .kwTau =>
      advance
      place (.constant .tau) token.span
    | .keyword .kwEuler =>
      advance
      place (.constant .euler) token.span
    | .keyword .kwTrue =>
      advance
      place (.boolean true) token.span
    | .keyword .kwFalse =>
      advance
      place (.boolean false) token.span
    | .bitstring =>
      advance
      place (.bitstring (String.ofList (token.text.drop 1).dropLast)) token.span
    | .hardwareQubit =>
      advance
      call (.hardwareQubit token)
    | .identifier => call (.identifierOrCall token)
    | .symbol .leftParen =>
      advance
      let inside ← call (.nested .expression)
      let _ ← expect Symbol.rightParen
      placeFrom token.span (.paren inside)
    | .keyword .kwDurationOf =>
      advance
      let _ ← expect Symbol.leftParen
      let body ← call .block
      let _ ← expect Symbol.rightParen
      placeFrom token.span (.durationOf body)
    | kind => if startsType kind then call (.castExpression token) else unexpected "expression"
  | .primary => do
    match ← current with
    | some token => call (.primaryAt token)
    | none => unexpected "expression"
  | .postfixExpression => do call (.indices (← call .primary))
  | .power => do
    let base ← call .postfixExpression
    if ← accept Symbol.starStar then
      let exponent ← call (.nested .unary)
      place (.binary .pow base exponent) (base.span.join exponent.span)
    else
      return base
  | .unaryExpression => do
    match (← peek).bind unaryOp? with
    | some op =>
      let start ← currentSpan
      advance
      let operand ← call (.nested .unary)
      placeFrom start (.unary op operand)
    | none => call .power
  | .binaryFrom least => do
    let first ← call .unaryExpression
    iterate
      (fun lhs => do
        match (← peek).bind binaryOp? with
        | some op =>
          if op.precedence < least then return .done lhs
          else
            advance
            let rhs ← call (.binaryFrom (op.precedence + 1))
            return .again (← place (.binary op lhs rhs) (lhs.span.join rhs.span))
        | none => return .done lhs)
      first
  | .operand => do
    match ← current with
    | some token =>
      match token.kind with
      | .hardwareQubit =>
        advance
        call (.hardwareQubit token)
      | .identifier => call (.indices (← call .identifier))
      | _ => unexpected "qubit operand"
    | none => unexpected "qubit operand"
  | .operands => do
    if ← sees Symbol.semicolon then return [] else joined Symbol.comma (call .operand)
  | .measurement => do
    let start := (← expect Keyword.kwMeasure).span
    let measured ← call .operand
    placeFrom start (.measure measured)
  | .value => do
    if ← sees Keyword.kwMeasure then call .measurement else call (.nested .expression)
  | .arrayLiteral => Grammar.arrayLiteral call.level
  -- Declarations
  | .versionStatement => Grammar.versionStatement
  | .stringText what => Grammar.stringText what
  | .includeStatement => do
    let start := (← expect Keyword.kwInclude).span
    if 0 < (← get).openBlocks then
      report .syntaxError start "`include` is only allowed at the top level"
    let path ← call (.stringText "file path")
    let _ ← expect Symbol.semicolon
    placeFrom start (.includeFile path [])
  | .calibrationGrammar => do
    let start := (← expect Keyword.kwDefcalGrammar).span
    let name ← call (.stringText "grammar name")
    let _ ← expect Symbol.semicolon
    let span ← spanFrom start
    requireVersion3 span "`defcalgrammar`"
    place (.calibrationGrammar name) span
  | .pragma token => Grammar.pragma token
  | .annotationLine token => Grammar.annotationLine token
  | .calibrationBody => Grammar.calibrationBody
  | .cal => do
    let start := (← expect Keyword.kwCal).span
    let body ← call .calibrationBody
    let span ← spanFrom start
    requireVersion3 span "`cal`"
    place (.cal body) span
  | .defcal => do
    let start := (← expect Keyword.kwDefcal).span
    match ← current with
    | none => unexpected "calibration target"
    | some first =>
      if endsSignature first.kind then unexpected "calibration target"
      passOver ((← get).rest.takeWhile (!endsSignature ·.kind)).length
      let text := Text.slice? (← read).text first.span.start (← get).previousEnd
      let signature := String.ofList (Text.trim (text.getD []))
      let body ← call .calibrationBody
      let span ← spanFrom start
      requireVersion3 span "`defcal`"
      place (.defcal (String.ofList first.text) signature body) span
  | .qubitDecl => do
    let start := (← expect Keyword.kwQubit).span
    let size ← call .designator
    let name ← call .identifier
    let _ ← expect Symbol.semicolon
    declare name
    placeFrom start (.qubitDecl name size)
  | .registerDecl register => do
    match ← current with
    | none => unexpected "register declaration"
    | some keyword =>
      advance
      let name ← call .identifier
      let size ← call .designator
      let declEnd := (← get).previousEnd
      let _ ← expect Symbol.semicolon
      declare name
      let span : Span := ⟨keyword.span.source, keyword.span.start, declEnd⟩
      let replacement ← registerReplacement register name size
      deprecated keyword.span s!"`{String.ofList keyword.text}`"
        (some ⟨span, replacement, "use the OpenQASM 3 form"⟩)
      placeFrom keyword.span (.registerDecl register name size)
  | .initializer type => do
    let value ← if ← sees Symbol.leftBrace then call .arrayLiteral else call .value
    match type.kind with
    | .scalarType .angle _ => retagAngle value
    | _ => return value
  | .classicalDecl => do
    let start ← currentSpan
    let type ← call .type
    requireVersion3 type.span "classical type declarations"
    let name ← call .identifier
    let init ← if ← accept Symbol.assign then some <$> call (.initializer type) else pure none
    let _ ← expect Symbol.semicolon
    declare name
    placeFrom start (.classicalDecl type name init)
  | .constDecl => do
    let start := (← expect Keyword.kwConst).span
    let type ← call .type
    let name ← call .identifier
    let _ ← expect Symbol.assign
    let init ← call (.initializer type)
    let _ ← expect Symbol.semicolon
    let span ← spanFrom start
    requireVersion3 span "`const`"
    declare name
    place (.constDecl type name init) span
  | .ioDecl direction => do
    match ← current with
    | none => unexpected "`input` or `output`"
    | some keyword =>
      advance
      let type ← call .type
      let name ← call .identifier
      let _ ← expect Symbol.semicolon
      let span ← spanFrom keyword.span
      requireVersion3 span s!"`{String.ofList keyword.text}`"
      declare name
      place (.ioDecl direction type name) span
  | .aliasDecl => do
    let start := (← expect Keyword.kwLet).span
    let name ← call .identifier
    let _ ← expect Symbol.assign
    let parts ← joined Symbol.plusPlus (call (.nested .expression))
    let _ ← expect Symbol.semicolon
    let span ← spanFrom start
    requireVersion3 span "`let`"
    declare name
    place (.aliasDecl name parts) span
  | .gateParams => do
    if ← accept Symbol.leftParen then
      let params ← call (.identifiers Symbol.rightParen)
      let _ ← expect Symbol.rightParen
      return params
    else
      return []
  | .gateDef => do
    let start := (← expect Keyword.kwGate).span
    let name ← call .identifier
    let (params, qubits, body) ← inScope do
      let params ← call .gateParams
      let qubits ← call (.identifiers Symbol.leftBrace)
      if qubits.isEmpty then unexpected "qubit argument"
      (params ++ qubits).forM declare
      return (params, qubits, ← call .block)
    declare name
    placeFrom start (.gateDef name params qubits body)
  | .opaqueDecl => do
    let start := (← expect Keyword.kwOpaque).span
    let name ← call .identifier
    let params ← call .gateParams
    let qubits ← call (.identifiers Symbol.semicolon)
    let _ ← expect Symbol.semicolon
    deprecated start "`opaque`" none
    declare name
    placeFrom start (.opaqueDecl name params qubits)
  | .registerParam register => do
    let start ← currentSpan
    advance
    let name ← call .identifier
    let size ← call .designator
    declare name
    placeFrom start (.registerDecl register name size)
  | .paramType => do
    match ← peek with
    | some (.keyword .kwReadonly) | some (.keyword .kwMutable) => call .arrayRefType
    | _ => call .type
  | .subroutineParam => do
    let start ← currentSpan
    match ← peek with
    | some (.keyword .kwQReg) => call (.registerParam .qreg)
    | some (.keyword .kwCReg) => call (.registerParam .creg)
    | _ =>
      let type ← call .paramType
      let name ← call .identifier
      declare name
      placeFrom start (.param type name)
  | .returnType => do if ← accept Symbol.arrow then some <$> call .type else return none
  | .subroutineDef => do
    let start := (← expect Keyword.kwDef).span
    let name ← call .identifier
    let (params, returnType, body) ← inScope do
      let _ ← expect Symbol.leftParen
      let params ← separated Symbol.rightParen (call .subroutineParam)
      let _ ← expect Symbol.rightParen
      let returnType ← call .returnType
      return (params, returnType, ← call .block)
    requireVersion3 start "`def`"
    declare name
    placeFrom start (.subroutineDef name params returnType body)
  | .registerType => do
    let start ← currentSpan
    advance
    let size ← call .designator
    placeFrom start (.registerType .creg size)
  | .externParam => do
    match ← peek with
    | some (.keyword .kwCReg) => call .registerType
    | _ => call .paramType
  | .externDecl => do
    let start := (← expect Keyword.kwExtern).span
    let name ← call .identifier
    let _ ← expect Symbol.leftParen
    let params ← separated Symbol.rightParen (call .externParam)
    let _ ← expect Symbol.rightParen
    let returnType ← call .returnType
    let _ ← expect Symbol.semicolon
    let span ← spanFrom start
    requireVersion3 span "`extern`"
    declare name
    place (.externDecl name params returnType) span
  -- Statements
  | .delay => do
    let start := (← expect Keyword.kwDelay).span
    let _ ← expect Symbol.leftBracket
    let duration ← call (.nested .expression)
    let _ ← expect Symbol.rightBracket
    let operands ← call .operands
    let _ ← expect Symbol.semicolon
    let span ← spanFrom start
    requireVersion3 span "`delay`"
    place (.delay duration operands) span
  | .reset => do
    let start := (← expect Keyword.kwReset).span
    let operand ← call .operand
    let _ ← expect Symbol.semicolon
    placeFrom start (.reset operand)
  | .barrier => do
    let start ← currentSpan
    advance
    let operands ← call .operands
    let _ ← expect Symbol.semicolon
    placeFrom start (.barrier operands)
  | .nop => do
    let start ← currentSpan
    advance
    let operands ← call .operands
    let _ ← expect Symbol.semicolon
    let span ← spanFrom start
    requireVersion3 span "`nop`"
    place (.nop operands) span
  | .measureStatement => do
    let start ← currentSpan
    let measured ← call .measurement
    let target ← if ← accept Symbol.arrow then some <$> call .operand else pure none
    let _ ← expect Symbol.semicolon
    placeFrom start (.measureArrow measured target)
  | .gateModifier modifier => Grammar.gateModifier call.level modifier
  | .gateModifiers =>
    iterate
      (fun modifiers => do
        match (← peek).bind modifierKind? with
        | some modifier => return .again (modifiers ++ [← call (.gateModifier modifier)])
        | none => return .done modifiers)
      []
  | .gateName => Grammar.gateName
  | .gateArguments => do
    if ← accept Symbol.leftParen then
      let args ← call (.expressions Symbol.rightParen)
      let _ ← expect Symbol.rightParen
      return args
    else
      return []
  | .gateCall => do
    let start ← currentSpan
    let modifiers ← call .gateModifiers
    let callee ← call .gateName
    let args ← call .gateArguments
    let duration ← call .designator
    let operands ← call .operands
    let _ ← expect Symbol.semicolon
    placeFrom start (.gateCall modifiers callee args duration operands)
  | .boxStatement => do
    let start := (← expect Keyword.kwBox).span
    let duration ← call .designator
    let body ← call .block
    let span ← spanFrom start
    requireVersion3 start "`box`"
    place (.box duration body) span
  | .assignment => do
    let start ← currentSpan
    let target ← call .operand
    match (← peek).bind assignOp? with
    | some op =>
      advance
      let value ← call .value
      let _ ← expect Symbol.semicolon
      placeFrom start (.assignment target op value)
    | none => unexpected "assignment operator"
  | .expressionStatement => Grammar.expressionStatement call.level
  | .jump kind => Grammar.jump kind
  | .returnStatement => do
    let start := (← expect Keyword.kwReturn).span
    let value ← if ← sees Symbol.semicolon then pure none else some <$> call .value
    let _ ← expect Symbol.semicolon
    placeFrom start (.returnStmt value)
  | .condition => Grammar.condition call.level
  | .body => do
    if ← sees Symbol.leftBrace then call .block else inScope (call (.nested .statement))
  | .ifStatement => do
    let start := (← expect Keyword.kwIf).span
    let condition ← call .condition
    let thenBranch ← call .body
    let elseBranch ← if ← accept Keyword.kwElse then some <$> call .body else pure none
    placeFrom start (.ifStmt condition thenBranch elseBranch)
  | .iterable => do
    match ← peek with
    | some (.symbol .leftBracket) =>
      advance
      let range ← call .rangeOrExpression
      let _ ← expect Symbol.rightBracket
      return range
    | some (.symbol .leftBrace) => call .setLiteral
    | _ => call (.nested .expression)
  | .loopType => do
    if startsWith Keyword.kwIn ((← get).rest.drop 1) then return none else some <$> call .type
  | .forStatement => do
    let start := (← expect Keyword.kwFor).span
    requireVersion3 start "`for`"
    let type ← call .loopType
    let (var, iterable, body) ← inScope do
      let var ← call .identifier
      let _ ← expect Keyword.kwIn
      let iterable ← call .iterable
      declare var
      return (var, iterable, ← call .body)
    placeFrom start (.forStmt type var iterable body)
  | .whileStatement => do
    let start := (← expect Keyword.kwWhile).span
    requireVersion3 start "`while`"
    let condition ← call .condition
    let body ← call .body
    placeFrom start (.whileStmt condition body)
  | .switchStatement => do
    let start := (← expect Keyword.kwSwitch).span
    requireVersion3 start "`switch`"
    let subject ← call .condition
    let _ ← expect Symbol.leftBrace
    let cases ← blockOpen (call (.nested .cases))
    let _ ← expect Symbol.rightBrace
    placeFrom start (.switchStmt subject cases)
  | .cases =>
    iterate
      (fun cases => do
        let start ← currentSpan
        match ← peek with
        | some (.keyword .kwCase) =>
          advance
          let values ← call (.expressions Symbol.leftBrace)
          if values.isEmpty then unexpected "case value"
          let body ← call .block
          return .again (cases ++ [← placeFrom start (.caseClause values body)])
        | some (.keyword .kwDefault) =>
          advance
          let body ← call .block
          return .again (cases ++ [← placeFrom start (.defaultClause body)])
        | some (.symbol .rightBrace) => return .done cases
        | _ => unexpected "`case`, `default` or `\x7d`")
      []
  | .identifierStart => do
    match identifierStatement ((← get).rest.drop 1) with
    | .gateCall => call .gateCall
    | .assignment => call .assignment
    | .expression => call .expressionStatement
  | .typeStart => do
    if castFollows ((← get).rest.drop 1) then call .expressionStatement else call .classicalDecl
  | .keywordStart keyword => do
    match keyword with
    | .kwVersion => call .versionStatement
    | .kwInclude => call .includeStatement
    | .kwDefcalGrammar => call .calibrationGrammar
    | .kwQubit => call .qubitDecl
    | .kwQReg => call (.registerDecl .qreg)
    | .kwCReg => call (.registerDecl .creg)
    | .kwConst => call .constDecl
    | .kwInput => call (.ioDecl .input)
    | .kwOutput => call (.ioDecl .output)
    | .kwLet => call .aliasDecl
    | .kwGate => call .gateDef
    | .kwOpaque => call .opaqueDecl
    | .kwDef => call .subroutineDef
    | .kwExtern => call .externDecl
    | .kwCal => call .cal
    | .kwDefcal => call .defcal
    | .kwBox => call .boxStatement
    | .kwBreak => call (.jump .breakStmt)
    | .kwContinue => call (.jump .continueStmt)
    | .kwEnd => call (.jump .endStmt)
    | .kwReturn => call .returnStatement
    | .kwIf => call .ifStatement
    | .kwFor => call .forStatement
    | .kwWhile => call .whileStatement
    | .kwSwitch => call .switchStatement
    | .kwDelay => call .delay
    | .kwReset => call .reset
    | .kwBarrier => call .barrier
    | .kwNop => call .nop
    | .kwMeasure => call .measureStatement
    | .kwInv | .kwPow | .kwCtrl | .kwNegCtrl | .kwGphase => call .gateCall
    | keyword =>
      if startsType keyword then call .typeStart
      else if startsExpression keyword then call .expressionStatement
      else unexpected "statement"
  | .statement => do
    match ← current with
    | none => unexpected "statement"
    | some token =>
      match token.kind with
      | .keyword keyword => call (.keywordStart keyword)
      | .pragma =>
        advance
        call (.pragma token)
      | .annotationLine =>
        advance
        call (.annotationLine token)
      | .symbol .leftBrace => call .block
      | .identifier => call .identifierStart
      | kind => if startsExpression kind then call .expressionStatement else unexpected "statement"
  | .statementOrError => do
    let mark := (← get).builder.size
    let before := (← get).position
    let start ← currentSpan
    match ← attempt (call .statement) with
    | some node => return node
    | none =>
      modify fun state => { state with builder := state.builder.truncate mark }
      let state ← get
      if state.unwinding.isSome ∧ 0 < state.openBlocks then recover
      set { state with unwinding := none }
      synchronize before (state.unwinding.getD 0)
      placeFrom start .error
  | .blockItems =>
    iterate
      (fun items => do
        match ← peek with
        | none | some (.symbol .rightBrace) => return .done items
        | some _ => return .again (items ++ [← call .statementOrError]))
      []
  -- Programs
  | .programItems =>
    iterate
      (fun items => do
        match ← peek with
        | none => return .done items
        | some (.symbol .rightBrace) =>
          reportSyntax "unexpected `\x7d`"
          advance
          return .again items
        | some _ =>
          match ← attempt (call .statementOrError) with
          | some item => return .again (items ++ [item])
          | none => return .again items)
      []
  | .program => do
    let context ← read
    let items ← call .programItems
    place (.program items) ⟨context.source, 0, min (Text.width context.text) maxOffset⟩

/-- The functions of the parser over the productions of a level. -/
def routines (inner : Level) : Calls
  | .nested production => inner production
  -- Pieces
  | .identifier => Grammar.identifier
  | .identifiers close => Grammar.identifiers close
  | .expressions close => Grammar.expressions inner close
  | .designator => Grammar.designator inner
  | .block => Grammar.block inner
  -- Types
  | .complexType => Grammar.complexType inner
  | .scalarType => Grammar.scalarType inner
  | .elementType => Grammar.elementType inner
  | .arrayType => Grammar.arrayType inner
  | .qubitType => Grammar.qubitType inner
  | .type => Grammar.type inner
  | .arrayRefType => Grammar.arrayRefType inner
  -- Expressions
  | .literal text span kind => Grammar.literal text span kind
  | .number token => Grammar.number token
  | .hardwareQubit token => Grammar.hardwareQubit token
  | .rangePart => Grammar.rangePart inner
  | .rangeAfter startSpan start => Grammar.rangeAfter inner startSpan start
  | .rangeOrExpression => Grammar.rangeOrExpression inner
  | .setLiteral => Grammar.setLiteral inner
  | .indexItem => Grammar.indexItem inner
  | .indexed base => Grammar.indexed inner base
  | .indices base => Grammar.indices inner base
  | .identifierOrCall token => Grammar.identifierOrCall inner token
  | .castExpression token => Grammar.castExpression inner token
  | .primaryAt token => Grammar.primaryAt inner token
  | .primary => Grammar.primary inner
  | .postfixExpression => Grammar.postfixExpression inner
  | .power => Grammar.power inner
  | .unaryExpression => Grammar.unaryExpression inner
  | .binaryFrom least => Grammar.binaryFrom inner least
  | .operand => Grammar.operand inner
  | .operands => Grammar.operands inner
  | .measurement => Grammar.measurement inner
  | .value => Grammar.value inner
  | .arrayLiteral => Grammar.arrayLiteral inner
  -- Declarations
  | .versionStatement => Grammar.versionStatement
  | .stringText what => Grammar.stringText what
  | .includeStatement => Grammar.includeStatement
  | .calibrationGrammar => Grammar.calibrationGrammar
  | .pragma token => Grammar.pragma token
  | .annotationLine token => Grammar.annotationLine token
  | .calibrationBody => Grammar.calibrationBody
  | .cal => Grammar.cal
  | .defcal => Grammar.defcal
  | .qubitDecl => Grammar.qubitDecl inner
  | .registerDecl register => Grammar.registerDecl inner register
  | .initializer type => Grammar.initializer inner type
  | .classicalDecl => Grammar.classicalDecl inner
  | .constDecl => Grammar.constDecl inner
  | .ioDecl direction => Grammar.ioDecl inner direction
  | .aliasDecl => Grammar.aliasDecl inner
  | .gateParams => Grammar.gateParams
  | .gateDef => Grammar.gateDef inner
  | .opaqueDecl => Grammar.opaqueDecl
  | .registerParam register => Grammar.registerParam inner register
  | .paramType => Grammar.paramType inner
  | .subroutineParam => Grammar.subroutineParam inner
  | .returnType => Grammar.returnType inner
  | .subroutineDef => Grammar.subroutineDef inner
  | .registerType => Grammar.registerType inner
  | .externParam => Grammar.externParam inner
  | .externDecl => Grammar.externDecl inner
  -- Statements
  | .delay => Grammar.delay inner
  | .reset => Grammar.reset inner
  | .barrier => Grammar.barrier inner
  | .nop => Grammar.nop inner
  | .measureStatement => Grammar.measureStatement inner
  | .gateModifier modifier => Grammar.gateModifier inner modifier
  | .gateModifiers => Grammar.gateModifiers inner
  | .gateName => Grammar.gateName
  | .gateArguments => Grammar.gateArguments inner
  | .gateCall => Grammar.gateCall inner
  | .boxStatement => Grammar.boxStatement inner
  | .assignment => Grammar.assignment inner
  | .expressionStatement => Grammar.expressionStatement inner
  | .jump kind => Grammar.jump kind
  | .returnStatement => Grammar.returnStatement inner
  | .condition => Grammar.condition inner
  | .body => Grammar.body inner
  | .ifStatement => Grammar.ifStatement inner
  | .iterable => Grammar.iterable inner
  | .loopType => Grammar.loopType inner
  | .forStatement => Grammar.forStatement inner
  | .whileStatement => Grammar.whileStatement inner
  | .switchStatement => Grammar.switchStatement inner
  | .cases => Grammar.cases inner
  | .identifierStart => Grammar.identifierStart inner
  | .typeStart => Grammar.typeStart inner
  | .keywordStart keyword => Grammar.keywordStart inner keyword
  | .statement => Grammar.statement inner
  | .statementOrError => Grammar.statementOrError inner
  | .blockItems => Grammar.blockItems inner
  -- Programs
  | .programItems => Grammar.programItems inner
  | .program => do
    let context ← read
    let items ← Grammar.programItems inner
    place (.program items) ⟨context.source, 0, min (Text.width context.text) maxOffset⟩

/-- Each function of the parser does what its body does where the calls are the functions
themselves. -/
theorem bodyOf_routines (inner : Level) {routine : Routine}
    (h : ∀ production, routine ≠ .nested production) :
    bodyOf (routines inner) routine = routines inner routine := by
  cases routine with
  | nested production => exact absurd rfl (h production)
  | binaryFrom least => exact (binaryFrom_eq inner least).symm
  | _ => rfl

end OpenQasm.Grammar
