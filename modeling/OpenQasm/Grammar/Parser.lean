import OpenQasm.Diagnostic.Buffer
import OpenQasm.Grammar.Lookahead
import OpenQasm.Text.Bytes
import OpenQasm.Text.Digits
import OpenQasm.Tree.Builder

/-!
# Parsers

A parser reads tokens from a state and pushes nodes into a builder. It may stop in two ways. It is
`recovered` when the problem has been reported and reading is to go on after the statement; the
state stays as it was left, and whoever catches the stop sets it right. It crashes where the machine
numbers do not suffice, and would crash if the nodes pushed made no tree or a loop stood still.
-/

namespace OpenQasm

/-- What a parse may be told. -/
structure ParseOptions where
  /-- The greatest nesting of expressions and blocks. -/
  maxDepth : Nat := 256
  /-- So many tokens after a recovery, syntax errors are taken to follow from the first one and
  are not reported. -/
  suppressionWindow : Nat := 4
  /-- The version of a text without a version statement of its own. -/
  defaultVersion : Option Version := none
deriving DecidableEq, Repr

/-- Why a parse ends without a tree. -/
inductive Crash where
  /-- The nodes pushed do not make a tree. -/
  | fault (fault : Fault)
  /-- A token count beyond the range of machine numbers. -/
  | countOverflow
  /-- A literal whose exponent is the least machine number, which has no size. -/
  | exponentOverflow
  /-- A loop whose rounds read nothing. -/
  | stalled
deriving DecidableEq, Repr

def Crash.message : Crash → String
  | fault f => f.message
  | countOverflow => "attempt to add with overflow"
  | exponentOverflow => "attempt to negate with overflow"
  | stalled => "no token is read"

namespace Grammar

/-- A node with its id. -/
structure Placed where
  id : NodeId
  kind : NodeKind NodeId
  span : Span
deriving Repr

/-- The names declared in a scope, each with its first declaration. -/
abbrev Scope := List (String × Span)

/-- What stays the same throughout a parse. -/
structure Context where
  source : SourceId
  text : List Char
  options : ParseOptions
deriving Repr

/-- What changes as tokens are read. -/
structure State where
  /-- The tokens ahead. -/
  rest : List Token
  /-- The number of tokens read. -/
  position : Nat := 0
  /-- The end of the last token read. -/
  previousEnd : Nat := 0
  builder : Builder := {}
  diagnostics : Diagnostics := {}
  /-- How deep expressions and blocks are nested. -/
  depth : Nat := 0
  /-- How many blocks are open. -/
  openBlocks : Nat := 0
  /-- While an overflow of the depth unwinds: how many blocks were open when it began. -/
  unwinding : Option Nat := none
  /-- The number of tokens read at the last recovery. -/
  resync : Option Nat := none
  /-- The open scopes, the innermost first. -/
  scopes : List Scope := [[]]
  /-- The version in force. -/
  version : Option Version := none
deriving Repr

/-- Why a parser stops. -/
inductive Stop where
  /-- The problem is reported. -/
  | recovered
  | crash (crash : Crash)
deriving DecidableEq, Repr

/-- Programs that read tokens and push nodes. -/
abbrev Parser := ReaderT Context (EStateM Stop State)

section
variable {α β : Type}

/-! ## Control -/

def recover : Parser α := throw .recovered

def crash (crash : Crash) : Parser α := throw (.crash crash)

/-- Run a parser between two changes of the state. The second one is made however the parser
ends. -/
def around (enter leave : State → State) (parser : Parser α) : Parser α := fun context state =>
  match parser context (enter state) with
  | .ok value state => .ok value (leave state)
  | .error stop state => .error stop (leave state)

/-- Run a parser; nothing comes out of it if it stops with its problem reported. -/
def attempt (parser : Parser α) : Parser (Option α) := fun context state =>
  match parser context state with
  | .ok value state => .ok (some value) state
  | .error .recovered state => .ok none state
  | .error (.crash crash) state => .error (.crash crash) state

/-- How one round of a loop ends. -/
inductive Turn (α β : Type) where
  | again (state : α)
  | done (result : β)

/-- Go round until a round is the last, at most one time more than there are tokens in the list. -/
def iterateAlong (round : α → Parser (Turn α β)) : List Token → α → Parser β
  | [], state => do
    match ← round state with
    | .done result => return result
    | .again _ => crash .stalled
  | _ :: tokens, state => do
    match ← round state with
    | .done result => return result
    | .again state => iterateAlong round tokens state

/-- Go round until a round is the last. Every other round reads a token. -/
def iterate (round : α → Parser (Turn α β)) (start : α) : Parser β := do
  iterateAlong round (← get).rest start

/-! ## Tokens -/

/-- The state after so many tokens more. -/
def State.pass : Nat → State → State
  | 0, state => state
  | n + 1, state =>
    match state.rest with
    | [] => state
    | token :: rest =>
      pass n { state with rest, position := state.position + 1, previousEnd := token.span.stop }

/-- The next token, which is not read. -/
def current : Parser (Option Token) := do return (← get).rest.head?

/-- The kind of the next token. -/
def peek : Parser (Option TokenKind) := do return (← current).map Token.kind

/-- Whether the next token is of the given kind. -/
def sees (kind : TokenKind) : Parser Bool := do return startsWith kind (← get).rest

/-- Pass over so many tokens. -/
def passOver (n : Nat) : Parser Unit := modify (State.pass n)

/-- Pass over the next token. -/
def advance : Parser Unit := passOver 1

/-- Pass over the next token if it is of the given kind, and tell whether it was. -/
def accept (kind : TokenKind) : Parser Bool := do
  if ← sees kind then
    advance
    return true
  else
    return false

/-- The span of the next token, empty at the end of the text. -/
def currentSpan : Parser Span := do
  match ← current with
  | some token => return token.span
  | none =>
    let context ← read
    return .point context.source (min (Text.width context.text) maxOffset)

/-- The span from the start of `start` to the end of the last token read. -/
def spanFrom (start : Span) : Parser Span := do
  let context ← read
  return ⟨context.source, start.start, max (← get).previousEnd start.start⟩

/-! ## Reports -/

def push (diagnostic : Diagnostic) : Parser Unit :=
  modify fun state => { state with diagnostics := state.diagnostics.push diagnostic }

def report (code : Code) (span : Span) (message : String) : Parser Unit :=
  push { code, span, message }

/-- Whether an error here is taken to follow from the one that was recovered from last. -/
def isSuppressed : Parser Bool := do
  let state ← get
  let window := (← read).options.suppressionWindow
  match state.resync with
  | none => return false
  | some resync =>
    if state.position < resync then return false
    else if resync + window < Text.wordBound then return decide (state.position < resync + window)
    else crash .countOverflow

/-- Report a syntax error at the next token, unless it follows from another one or the token has
been reported as an error itself. -/
def reportSyntax (message : String) : Parser Unit := do
  let suppressed ← isSuppressed
  unless suppressed || (← sees .error) do
    report .syntaxError (← currentSpan) message

/-- Report a syntax error at the next token and stop. -/
def failSyntax (message : String) : Parser α := do
  reportSyntax message
  recover

/-- Report what was expected in place of the next token and stop. -/
def unexpected (expected : String) : Parser α := do
  let found := match ← current with
    | some token => token.found
    | none => "end of input"
  failSyntax s!"expected {expected}, found {found}"

/-- Read a token of the given kind. -/
def expect (kind : TokenKind) : Parser Token := do
  match ← current with
  | some token =>
    if token.kind = kind then
      advance
      return token
    else unexpected kind.describe
  | none => unexpected kind.describe

/-! ## Lists -/

/-- Items separated by commas up to, and without, the closing symbol. A comma may follow the last
item. -/
def separated (close : Symbol) (item : Parser α) : Parser (List α) :=
  iterate
    (fun items => do
      if ← sees close then return .done items
      let items := items ++ [← item]
      if ← accept Symbol.comma then return .again items else return .done items)
    []

/-- One item or more, each after the first behind a separator. -/
def joined (separator : Symbol) (item : Parser α) : Parser (List α) := do
  let first ← item
  iterate
    (fun items => do
      if ← accept separator then return .again (items ++ [← item]) else return .done items)
    [first]

/-! ## Nodes -/

/-- Push a node whose children have been pushed. -/
def place (kind : NodeKind Placed) (span : Span) : Parser Placed := do
  let state ← get
  let kind := kind.map Placed.id
  match state.builder.push kind span with
  | .ok (id, builder) =>
    set { state with builder }
    return { id, kind, span }
  | .error fault => crash (.fault fault)

/-- Push a node that spans from the start of `start` to the last token read. -/
def placeFrom (start : Span) (kind : NodeKind Placed) : Parser Placed := do
  place kind (← spanFrom start)

/-- Make a literal an angle. Other nodes stay. -/
def retagAngle (node : Placed) : Parser Placed := do
  match node.kind with
  | .literal value =>
    let kind := .literal value.toAngle
    modify fun state => { state with builder := state.builder.setKind node.id kind }
    return { node with kind }
  | _ => return node

/-! ## Nesting -/

/-- Enter and leave a level of nesting. -/
def deeper (parser : Parser α) : Parser α :=
  around (fun state => { state with depth := state.depth + 1 })
    (fun state => { state with depth := state.depth - 1 }) parser

/-- Report that nesting is too deep, once for all levels that are left because of it. -/
def overflow : Parser α := do
  let state ← get
  let limit := (← read).options.maxDepth
  if state.unwinding.isNone then
    report .maxDepthExceeded (← currentSpan) s!"nesting exceeds the maximum depth of {limit}"
    modify fun state => { state with unwinding := some state.openBlocks }
  recover

/-- Run a parser one level deeper, if the limit allows it. -/
def nested (parser : Parser α) : Parser α := do
  if (← read).options.maxDepth ≤ (← get).depth then overflow else deeper parser

/-- Run a parser within a block. -/
def blockOpen (parser : Parser α) : Parser α :=
  around (fun state => { state with openBlocks := state.openBlocks + 1 })
    (fun state => { state with openBlocks := state.openBlocks - 1 }) parser

/-! ## Scopes -/

/-- Run a parser in a scope of its own. -/
def inScope (parser : Parser α) : Parser α :=
  around (fun state => { state with scopes := [] :: state.scopes })
    (fun state => { state with scopes := state.scopes.drop 1 }) parser

/-- What is said about a name that is declared again, here or in another file. -/
def redeclared (name : String) (span first : Span) : Diagnostic where
  code := .duplicateDeclaration
  span := span
  message := s!"`{name}` is already declared in this scope"
  labels := [⟨first, "first declared here"⟩]

/-- Declare an identifier in the innermost scope. A second declaration is reported. -/
def declare (identifier : Placed) : Parser Unit := do
  match identifier.kind, (← get).scopes with
  | .identifier name, scope :: outer =>
    match scope.lookup name with
    | some first => push (redeclared name identifier.span first)
    | none =>
      modify fun state => { state with scopes := ((name, identifier.span) :: scope) :: outer }
  | _, _ => return

/-! ## Versions -/

/-- The version in force as messages name it. -/
def versionText (version : Option Version) : String :=
  match version with
  | some version => toString version
  | none => "3"

/-- Whether the program is one of version 2. -/
def isVersion2 (version : Option Version) : Bool := version.any (·.major == 2)

/-- Report a feature that version 2 lacks. -/
def requireVersion3 (span : Span) (feature : String) : Parser Unit := do
  let version := (← get).version
  if isVersion2 version then
    report .unsupportedFeature span
      s!"{feature} is not available in OpenQASM {versionText version}"

/-- Warn of a feature of version 2 in a program of another version. -/
def deprecated (span : Span) (feature : String) (fix : Option Fix) : Parser Unit := do
  let version := (← get).version
  unless isVersion2 version do
    push
      { code := .semanticWarning, span, fix
        message := s!"{feature} is deprecated in OpenQASM {versionText version}" }

end

end Grammar

end OpenQasm
