import OpenQasm.Grammar.Expression
import OpenQasm.Text.Blank

/-!
# Declarations and directives

Statements that declare names, and those that speak about the program: its version, its includes,
pragmas, annotations and calibrations.
-/

namespace OpenQasm.Grammar

/-! ## Directives -/

/-- A number below `2 ^ 32` in decimal digits. -/
def wordValue? (digits : List Char) : Option Nat :=
  if digits.isEmpty ∨ !digits.all Char.isDigit then none else hardwareNumber? digits

/-- The version that the text of a number stands for: digits, perhaps with a point and digits. -/
def version? (text : List Char) : Option Version :=
  match Text.cutAt? '.' text with
  | none | some (_, []) => do
    let digits := (Text.cutAt? '.' text).map Prod.fst |>.getD text
    return ⟨← wordValue? digits, none⟩
  | some (major, minor) => do return ⟨← wordValue? major, some (← wordValue? minor)⟩

/-- The version statement, which is in force only as the first statement. -/
def versionStatement : Parser Placed := do
  let first := (← get).position == 0
  let start := (← expect Keyword.kwVersion).span
  unless first do report .syntaxError start "the version pragma must be the first statement"
  match ← current with
  | some token =>
    if token.kind = .integer ∨ token.kind = .float then
      match version? token.text with
      | some version =>
        advance
        let _ ← expect Symbol.semicolon
        if first then modify fun state => { state with version := some version }
        placeFrom start (.versionPragma version)
      | none => failSyntax s!"invalid version number `{String.ofList token.text}`"
    else unexpected "version number"
  | none => unexpected "version number"

/-- The text between the quotes of a string. -/
def stringText (what : String) : Parser String := do
  match ← current with
  | some token =>
    if token.kind = .string ∨ token.kind = .bitstring then
      advance
      return String.ofList (token.text.drop 1).dropLast
    else unexpected what
  | none => unexpected what

def includeStatement : Parser Placed := do
  let start := (← expect Keyword.kwInclude).span
  if 0 < (← get).openBlocks then
    report .syntaxError start "`include` is only allowed at the top level"
  let path ← stringText "file path"
  let _ ← expect Symbol.semicolon
  placeFrom start (.includeFile path [])

def calibrationGrammar : Parser Placed := do
  let start := (← expect Keyword.kwDefcalGrammar).span
  let name ← stringText "grammar name"
  let _ ← expect Symbol.semicolon
  let span ← spanFrom start
  requireVersion3 span "`defcalgrammar`"
  place (.calibrationGrammar name) span

/-- The text of a pragma after its keyword. -/
def pragmaContent (text : List Char) : List Char :=
  let text := if text.head? = some '#' then text.drop 1 else text
  Text.trim (text.drop "pragma".length)

/-- The pragma that the token just read spells. -/
def pragma (token : Token) : Parser Placed :=
  place (.pragma (String.ofList (pragmaContent token.text))) token.span

/-- The keyword of an annotation, and the text after the first blank, if there is any. -/
def annotationParts (text : List Char) : List Char × Option (List Char) :=
  let inside := text.dropWhile (· == '@')
  let keyword := inside.takeWhile (!Text.isBlank ·)
  let content := Text.trim (inside.dropWhile (!Text.isBlank ·))
  (keyword, if content.isEmpty then none else some content)

/-- The annotation that the token just read spells. -/
def annotationLine (token : Token) : Parser Placed :=
  let (keyword, content) := annotationParts token.text
  place (.annotationLine (String.ofList keyword) (content.map String.ofList)) token.span

/-! ## Calibrations -/

/-- The text between the braces of a calibration body. -/
def calibrationBody : Parser String := do
  let token ← expect .calibrationBody
  return String.ofList (token.text.drop 1).dropLast

def cal : Parser Placed := do
  let start := (← expect Keyword.kwCal).span
  let body ← calibrationBody
  let span ← spanFrom start
  requireVersion3 span "`cal`"
  place (.cal body) span

/-- Whether a token ends the signature of a calibration definition. -/
def endsSignature (kind : TokenKind) : Bool :=
  kind == .calibrationBody || kind == .symbol .semicolon

/-- A calibration definition. All between the keyword and the body is kept as text. -/
def defcal : Parser Placed := do
  let start := (← expect Keyword.kwDefcal).span
  match ← current with
  | none => unexpected "calibration target"
  | some first =>
    if endsSignature first.kind then unexpected "calibration target"
    passOver ((← get).rest.takeWhile (!endsSignature ·.kind)).length
    let text := Text.slice? (← read).text first.span.start (← get).previousEnd
    let signature := String.ofList (Text.trim (text.getD []))
    let body ← calibrationBody
    let span ← spanFrom start
    requireVersion3 span "`defcal`"
    place (.defcal (String.ofList first.text) signature body) span

/-! ## Declarations -/

section
variable (inner : Level)

def qubitDecl : Parser Placed := do
  let start := (← expect Keyword.kwQubit).span
  let size ← designator inner
  let name ← identifier
  let _ ← expect Symbol.semicolon
  declare name
  placeFrom start (.qubitDecl name size)

/-- The type that takes the place of a register. -/
def RegisterKind.replacement : RegisterKind → String
  | .qreg => "qubit"
  | .creg => "bit"

/-- The text of a span. -/
def spanText (span : Span) : Parser String := do
  return String.ofList ((Text.slice? (← read).text span.start span.stop).getD [])

/-- The declaration of version 3 that says what a register of version 2 does. -/
def registerReplacement (register : RegisterKind) (name : Placed) (size : Option Placed) :
    Parser String := do
  let type := RegisterKind.replacement register
  let nameText ← spanText name.span
  match size with
  | some size => return s!"{type}[{← spanText size.span}] {nameText}"
  | none => return s!"{type} {nameText}"

/-- A register of version 2. In other versions a replacement is suggested. -/
def registerDecl (register : RegisterKind) : Parser Placed := do
  match ← current with
  | none => unexpected "register declaration"
  | some keyword =>
    advance
    let name ← identifier
    let size ← designator inner
    let declEnd := (← get).previousEnd
    let _ ← expect Symbol.semicolon
    declare name
    let span : Span := ⟨keyword.span.source, keyword.span.start, declEnd⟩
    let replacement ← registerReplacement register name size
    deprecated keyword.span s!"`{String.ofList keyword.text}`"
      (some ⟨span, replacement, "use the OpenQASM 3 form"⟩)
    placeFrom keyword.span (.registerDecl register name size)

/-- What a declared name begins with. Numbers given to an angle become angles. -/
def initializer (type : Placed) : Parser Placed := do
  let value ← if ← sees Symbol.leftBrace then arrayLiteral inner else value inner
  match type.kind with
  | .scalarType .angle _ => retagAngle value
  | _ => return value

def classicalDecl : Parser Placed := do
  let start ← currentSpan
  let type ← type inner
  requireVersion3 type.span "classical type declarations"
  let name ← identifier
  let init ← if ← accept Symbol.assign then some <$> initializer inner type else pure none
  let _ ← expect Symbol.semicolon
  declare name
  placeFrom start (.classicalDecl type name init)

def constDecl : Parser Placed := do
  let start := (← expect Keyword.kwConst).span
  let type ← type inner
  let name ← identifier
  let _ ← expect Symbol.assign
  let init ← initializer inner type
  let _ ← expect Symbol.semicolon
  let span ← spanFrom start
  requireVersion3 span "`const`"
  declare name
  place (.constDecl type name init) span

def ioDecl (direction : Direction) : Parser Placed := do
  match ← current with
  | none => unexpected "`input` or `output`"
  | some keyword =>
    advance
    let type ← type inner
    let name ← identifier
    let _ ← expect Symbol.semicolon
    let span ← spanFrom keyword.span
    requireVersion3 span s!"`{String.ofList keyword.text}`"
    declare name
    place (.ioDecl direction type name) span

/-- Another name for qubits or bits joined together. -/
def aliasDecl : Parser Placed := do
  let start := (← expect Keyword.kwLet).span
  let name ← identifier
  let _ ← expect Symbol.assign
  let parts ← joined Symbol.plusPlus (expression inner)
  let _ ← expect Symbol.semicolon
  let span ← spanFrom start
  requireVersion3 span "`let`"
  declare name
  place (.aliasDecl name parts) span

/-- The parameters of a gate in parentheses, if there are any. -/
def gateParams : Parser (List Placed) := do
  if ← accept Symbol.leftParen then
    let params ← identifiers Symbol.rightParen
    let _ ← expect Symbol.rightParen
    return params
  else
    return []

/-- A gate with its parameters, its qubits and its body. Parameters and qubits share a scope. -/
def gateDef : Parser Placed := do
  let start := (← expect Keyword.kwGate).span
  let name ← identifier
  let (params, qubits, body) ← inScope do
    let params ← gateParams
    let qubits ← identifiers Symbol.leftBrace
    if qubits.isEmpty then unexpected "qubit argument"
    (params ++ qubits).forM declare
    return (params, qubits, ← block inner)
  declare name
  placeFrom start (.gateDef name params qubits body)

/-- A gate of version 2 without a body. -/
def opaqueDecl : Parser Placed := do
  let start := (← expect Keyword.kwOpaque).span
  let name ← identifier
  let params ← gateParams
  let qubits ← identifiers Symbol.semicolon
  let _ ← expect Symbol.semicolon
  deprecated start "`opaque`" none
  declare name
  placeFrom start (.opaqueDecl name params qubits)

/-- The parameter of a subroutine that is a register of version 2. -/
def registerParam (register : RegisterKind) : Parser Placed := do
  let start ← currentSpan
  advance
  let name ← identifier
  let size ← designator inner
  declare name
  placeFrom start (.registerDecl register name size)

/-- The type of a parameter: any type, or an array by reference. -/
def paramType : Parser Placed := do
  match ← peek with
  | some (.keyword .kwReadonly) | some (.keyword .kwMutable) => arrayRefType inner
  | _ => type inner

def subroutineParam : Parser Placed := do
  let start ← currentSpan
  match ← peek with
  | some (.keyword .kwQReg) => registerParam inner .qreg
  | some (.keyword .kwCReg) => registerParam inner .creg
  | _ =>
    let type ← paramType inner
    let name ← identifier
    declare name
    placeFrom start (.param type name)

/-- The type after an arrow, if there is one. -/
def returnType : Parser (Option Placed) := do
  if ← accept Symbol.arrow then some <$> type inner else return none

def subroutineDef : Parser Placed := do
  let start := (← expect Keyword.kwDef).span
  let name ← identifier
  let (params, returnType, body) ← inScope do
    let _ ← expect Symbol.leftParen
    let params ← separated Symbol.rightParen (subroutineParam inner)
    let _ ← expect Symbol.rightParen
    let returnType ← returnType inner
    return (params, returnType, ← block inner)
  requireVersion3 start "`def`"
  declare name
  placeFrom start (.subroutineDef name params returnType body)

/-- The type of a classical register of version 2. -/
def registerType : Parser Placed := do
  let start ← currentSpan
  advance
  let size ← designator inner
  placeFrom start (.registerType .creg size)

def externParam : Parser Placed := do
  match ← peek with
  | some (.keyword .kwCReg) => registerType inner
  | _ => paramType inner

/-- A subroutine that is defined elsewhere. -/
def externDecl : Parser Placed := do
  let start := (← expect Keyword.kwExtern).span
  let name ← identifier
  let _ ← expect Symbol.leftParen
  let params ← separated Symbol.rightParen (externParam inner)
  let _ ← expect Symbol.rightParen
  let returnType ← returnType inner
  let _ ← expect Symbol.semicolon
  let span ← spanFrom start
  requireVersion3 span "`extern`"
  declare name
  place (.externDecl name params returnType) span

end

end OpenQasm.Grammar
