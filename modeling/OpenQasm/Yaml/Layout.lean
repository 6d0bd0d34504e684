import OpenQasm.Yaml.Token

/-!
# The layout of YAML texts

A text is cut into tokens from its start to its end. In the block style its indentation says where
sequences and mappings begin and end. That a key has begun is known only at the colon after it, so
the places where one may have begun are kept and the tokens for it are put in there later. Such a
key stands on one line and is at most 1024 characters long.
-/

namespace OpenQasm.Yaml

/-- A place where a key may have begun. -/
structure KeyMark where
  /-- The number of tokens before. -/
  number : Nat
  start : Cursor
  /-- Whether nothing but a key may stand there. -/
  isRequired : Bool
deriving Repr

/-- A text that is being cut into tokens. -/
structure Layout where
  cursor : Cursor
  tokens : Array Token := #[]
  /-- The columns of the block collections around, innermost first. -/
  indents : List Nat := []
  /-- Where the innermost collection may have a key. -/
  key : Option KeyMark := none
  /-- The same for what is around each flow collection, innermost first. -/
  outerKeys : List (Option KeyMark) := []
  /-- Whether a key may begin. -/
  keyAllowed : Bool := true
deriving Repr

namespace Layout

/-- A text of which nothing has been cut. A byte order mark takes up a column. -/
def ofText (text : List Char) : Layout :=
  let start : Cursor := { rest := text }
  { cursor := if text.head? == some '\ufeff' then start.skip 1 else start }

/-- Whether a flow collection is around. -/
def inFlow (layout : Layout) : Bool := !layout.outerKeys.isEmpty

/-- The least column of what belongs to the innermost block collection. -/
def least (layout : Layout) : Nat := (layout.indents.head?.map (· + 1)).getD 0

/-- Add a token of so many characters. -/
def push (layout : Layout) (token : Token) (n : Nat) : Layout :=
  { layout with cursor := layout.cursor.skip n, tokens := layout.tokens.push token }

/-! ## Keys -/

/-- Give up the place where a key may have begun. -/
def dropKey? (layout : Layout) : Option Layout :=
  if layout.key.any (·.isRequired) then none else some { layout with key := none }

/-- Keep the place in case a key begins here. In the column of a block collection nothing else may
begin. -/
def saveKey? (layout : Layout) : Option Layout :=
  if layout.keyAllowed then do
    let layout ← layout.dropKey?
    let isRequired := !layout.inFlow && layout.indents.head? == some layout.cursor.column
    return { layout with
      key := some { number := layout.tokens.size, start := layout.cursor, isRequired } }
  else some layout

/-- Whether a key that began at a mark would be too long by now. -/
def isStale (layout : Layout) (mark : KeyMark) : Bool :=
  mark.start.line < layout.cursor.line || mark.start.index + 1024 < layout.cursor.index

/-- Give up the places at which keys would be too long by now. -/
def dropStale? (layout : Layout) : Option Layout :=
  let keys := layout.key :: layout.outerKeys
  if keys.any (·.any fun mark => mark.isRequired && layout.isStale mark) then none
  else
    let filter := fun (key : Option KeyMark) => key.filter (!layout.isStale ·)
    some { layout with key := filter layout.key, outerKeys := layout.outerKeys.map filter }

/-! ## Blocks -/

/-- Begin a block collection at a column, before the token with a number, unless it has begun. -/
def openBlock (layout : Layout) (token : Token) (column number : Nat) : Layout :=
  if !layout.inFlow && layout.indents.head?.all (· < column) then
    { layout with
      indents := column :: layout.indents
      tokens := layout.tokens.insertIdxIfInBounds number token }
  else layout

/-- Begin a block collection here, where a key must be allowed. -/
def openBlockHere? (layout : Layout) (token : Token) : Option Layout :=
  if layout.inFlow then some layout
  else if layout.keyAllowed then
    some (layout.openBlock token layout.cursor.column layout.tokens.size)
  else none

/-- End the innermost block collections whose columns have a property. -/
def closeBlocks (layout : Layout) (p : Nat → Bool) : Layout :=
  if layout.inFlow then layout
  else
    let closed := layout.indents.takeWhile p
    { layout with
      indents := layout.indents.drop closed.length
      tokens := layout.tokens ++ Array.replicate closed.length .blockEnd }

/-! ## Marks -/

/-- Pass over a line that says how a document is to be read. -/
def directive? (layout : Layout) : Option Layout := do
  let layout ← (layout.closeBlocks fun _ => true).dropKey?
  let (token, cursor) ← Yaml.directive? layout.cursor
  return { layout.push token 0 with cursor, keyAllowed := false }

/-- Pass over the mark at which a document starts or ends. -/
def documentMark? (layout : Layout) (token : Token) : Option Layout := do
  let layout ← (layout.closeBlocks fun _ => true).dropKey?
  return { layout.push token 3 with keyAllowed := false }

/-- Begin a flow collection, which may be a key or its beginning. -/
def openFlow? (layout : Layout) (token : Token) : Option Layout := do
  let layout ← layout.saveKey?
  return { layout.push token 1 with
    key := none, outerKeys := layout.key :: layout.outerKeys, keyAllowed := true }

/-- End a flow collection. -/
def closeFlow? (layout : Layout) (token : Token) : Option Layout := do
  let layout := { (← layout.dropKey?).push token 1 with keyAllowed := false }
  return match layout.outerKeys with
    | key :: outerKeys => { layout with key, outerKeys }
    | [] => layout

def comma? (layout : Layout) : Option Layout := do
  return { (← layout.dropKey?).push .comma 1 with keyAllowed := true }

def dash? (layout : Layout) : Option Layout := do
  let layout ← (← layout.openBlockHere? .blockSequence).dropKey?
  return { layout.push .dash 1 with keyAllowed := true }

/-- Begin a key that is announced. -/
def key? (layout : Layout) : Option Layout := do
  let layout ← (← layout.openBlockHere? .blockMapping).dropKey?
  return { layout.push .key 1 with keyAllowed := !layout.inFlow }

/-- Begin a value. If its key has not been announced, the tokens for it are put in. -/
def value? (layout : Layout) : Option Layout := do
  let layout ← match layout.key with
    | some mark =>
      let tokens := layout.tokens.insertIdxIfInBounds mark.number .key
      let layout := { layout with tokens, key := none, keyAllowed := false }
      pure (layout.openBlock .blockMapping mark.start.column mark.number)
    | none =>
      let layout ← layout.openBlockHere? .blockMapping
      pure { layout with keyAllowed := !layout.inFlow }
  return layout.push .value 1

/-! ## Scalars and what stands before them -/

/-- The token that begins with a character and may belong to a key, and whether a line ended after
it. -/
def content? (layout : Layout) (c : Char) : Option (Token × Bool × Cursor) := do
  let cursor := layout.cursor
  if c == '*' then
    let (name, next) ← anchorName? cursor
    return (.reference name, false, next)
  else if c == '&' then
    let (name, next) ← anchorName? cursor
    return (.anchor name, false, next)
  else if c == '!' then
    let (token, next) ← tag? layout.inFlow cursor
    return (token, false, next)
  else if c == '\'' || c == '"' then
    let (text, next) ← quoted? c cursor
    return (.scalar text .quoted, false, next)
  else if startsPlain layout.inFlow cursor.rest then
    let (text, broken, next) ← plain? layout.inFlow layout.least cursor
    return (.scalar text .plain, broken, next)
  else none

/-- Pass over a token that begins with a character and is no mark. -/
def pushContent? (layout : Layout) (c : Char) : Option Layout := do
  if (c == '|' || c == '>') && !layout.inFlow then
    let layout ← layout.dropKey?
    let style := if c == '|' then Style.literal else .folded
    let (text, cursor) ← block? (c == '>') layout.least layout.cursor
    return { layout.push (.scalar text style) 0 with cursor, keyAllowed := true }
  else
    let layout ← layout.saveKey?
    let (token, keyAllowed, cursor) ← layout.content? c
    return { layout.push token 0 with cursor, keyAllowed }

/-! ## Texts -/

/-- Pass over blanks, comments and line ends. Outside flow collections a key may begin on each new
line, and no tabs may stand where one may begin. -/
def settleFrom (inFlow : Bool) : (steps : Nat) → (keyAllowed : Bool) → Cursor → Bool × Cursor
  | 0, keyAllowed, cursor => (keyAllowed, cursor)
  | steps + 1, keyAllowed, cursor =>
    let cursor := cursor.skipWhile fun c => c == ' ' || (c == '\t' && (inFlow || !keyAllowed))
    let cursor := if cursor.rest.head? == some '#' then cursor.skipLine else cursor
    match cursor.break? with
    | some (_, next) => settleFrom inFlow steps (keyAllowed || !inFlow) next
    | none => (keyAllowed, cursor)

/-- Pass over what stands before the next token. -/
def settle (layout : Layout) : Layout :=
  let (keyAllowed, cursor) :=
    settleFrom layout.inFlow (layout.cursor.rest.length + 1) layout.keyAllowed layout.cursor
  { layout with keyAllowed, cursor }

/-- Pass over the next token, given its first character and what follows. -/
def step? (layout : Layout) (c : Char) (text : List Char) : Option Layout :=
  let isMark := layout.inFlow || startsBlank text
  if layout.cursor.column == 0 && c == '%' then layout.directive?
  else if layout.cursor.atMarks '-' then layout.documentMark? .documentStart
  else if layout.cursor.atMarks '.' then layout.documentMark? .documentEnd
  else if c == '[' then layout.openFlow? .flowSequence
  else if c == '\x7b' then layout.openFlow? .flowMapping
  else if c == ']' then layout.closeFlow? .flowSequenceEnd
  else if c == '\x7d' then layout.closeFlow? .flowMappingEnd
  else if c == ',' then layout.comma?
  else if c == '-' && startsBlank text then layout.dash?
  else if c == '?' && isMark then layout.key?
  else if c == ':' && isMark then layout.value?
  else layout.pushContent? c

/-- The tokens of a text in so many steps at most. -/
def tokensWithin? : (steps : Nat) → Layout → Option (Array Token)
  | 0, _ => none
  | steps + 1, layout => do
    let layout ← layout.settle.dropStale?
    match layout.cursor.rest with
    | [] => return (← (layout.closeBlocks fun _ => true).dropKey?).tokens
    | c :: text =>
      let layout := layout.closeBlocks (layout.cursor.column < ·)
      tokensWithin? steps (← layout.step? c text)

end Layout

/-- The tokens of a text. -/
def tokens? (text : List Char) : Option (List Token) :=
  if text.all isAllowed then
    ((Layout.ofText text).tokensWithin? (text.length + 1)).map Array.toList
  else none

end OpenQasm.Yaml
