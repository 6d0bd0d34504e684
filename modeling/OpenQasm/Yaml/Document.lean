import OpenQasm.Yaml.Layout
import OpenQasm.Yaml.Node

/-!
# YAML documents

A document has one node as its root. It is read from the tokens of a text, wherever these make room
for a node whether or not one is written.

Anchors are numbered by how many names of anchors came before. A name that is given again moves to
the number that the next new name gets too, and a number stands for the last node that began with
it. What a reference stands for is settled when the whole document has been read.
-/

namespace OpenQasm.Yaml

/-- A root, and what references in it stand for. -/
structure Document where
  root : Node
  /-- The nodes that have anchors, by the numbers of these. -/
  anchors : List (Nat × Node) := []
deriving Repr, Inhabited

/-- What a node stands for: the node itself unless it is a reference. -/
def Document.resolve (document : Document) (node : Node) : Node :=
  match node with
  | .reference anchor => (document.anchors.lookup anchor).getD node
  | node => node

/-- References lead to nodes in one step. -/
theorem Document.resolve_of_lookup {document : Document} {anchor : Nat} {node : Node}
    (h : document.anchors.lookup anchor = some node) :
    document.resolve (.reference anchor) = node := by
  simp [resolve, h]

/-! ## Reading -/

/-- What is left of a text in tokens, and what has been read of its names. -/
structure Reading where
  tokens : List Token
  /-- The handles of tags and what they stand for. -/
  handles : List (List Char × List Char) := []
  /-- The names of anchors and their numbers. -/
  names : List (List Char × Nat) := []
  /-- The numbers given to nodes, the last one first. Each node is known by how many came before
  it. -/
  given : List Nat := []
  /-- The nodes that have been read, by how many came before them. -/
  finished : List (Nat × Node) := []
deriving Repr

/-- A step of reading that may find that the text has not the form. -/
abbrev Reader := StateT Reading Option

namespace Reader

/-- The next token, if there is one. -/
def peek : Reader (Option Token) := return (← get).tokens.head?

/-- Pass over a token. -/
def skip : Reader Unit := modify fun reading => { reading with tokens := reading.tokens.tail }

/-- Whether the next token is a certain one. -/
def isNext (token : Token) : Reader Bool := return (← peek) == some token

/-- Whether the next token is one of these. -/
def isNextIn (tokens : List Token) : Reader Bool := return (← peek).any tokens.contains

/-- Pass over a token if it is a certain one, and tell whether it was. -/
def skipIf (token : Token) : Reader Bool := do
  let isThere ← isNext token
  if isThere then skip
  return isThere

/-- Pass over a token that must be a certain one. -/
def expect (token : Token) : Reader Unit := do
  unless ← skipIf token do failure

/-! ## What stands before nodes -/

/-- The name of the anchor that comes next. -/
def anchorName : Reader (Option (List Char)) := do
  match ← peek with
  | some (.anchor name) =>
    skip
    return some name
  | _ => return none

/-- The tag that comes next. Its handle must be known. -/
def tag : Reader (Option (List Char)) := do
  match ← peek with
  | some (.tag handle suffix) =>
    skip
    if handle.isEmpty then return some suffix
    match (← get).handles.lookup handle with
    | some meaning => return some (meaning ++ suffix)
    | none => failure
  | _ => return none

/-- The anchor and the tag that come next, in either order. -/
def properties : Reader (Option (List Char) × Option (List Char)) := do
  match ← anchorName with
  | some name => return (some name, ← tag)
  | none =>
    let tag ← tag
    if tag.isNone then return (none, none)
    return (← anchorName, tag)

/-- Begin a node that has an anchor, which gets a number. The result tells how many such nodes
came before. -/
def beginAnchored (name : List Char) : Reader Nat := do
  let reading ← get
  let number := reading.names.length
  set { reading with
    names := (name, number) :: reading.names.filter (·.1 != name)
    given := number :: reading.given }
  return reading.given.length

/-- Keep a node that has an anchor. -/
def finishAnchored (before : Nat) (node : Node) : Reader Unit :=
  modify fun reading => { reading with finished := (before, node) :: reading.finished }

/-- A reference to an anchor, whose name must be known. -/
def referenceTo (name : List Char) : Reader Node := do
  match (← get).names.lookup name with
  | some number => return .reference number
  | none => failure

/-! ## Nodes -/

mutual

/-- A node. In the block style a sequence that is a value may begin without more indentation. -/
def node : (rounds : Nat) → (isBlock isValue : Bool) → Reader Node
  | 0, _, _ => failure
  | rounds + 1, isBlock, isValue => do
    if let some (.reference name) ← peek then
      skip
      return ← referenceTo name
    let (anchor, tag) ← properties
    let before ← anchor.mapM beginAnchored
    let node ← content rounds isBlock isValue anchor.isSome tag
    if let some before := before then finishAnchored before node
    return node

/-- A node after its anchor and its tag. With one of them it need not be written. -/
def content : (rounds : Nat) → (isBlock isValue isAnchored : Bool) → Option (List Char) →
    Reader Node
  | 0, _, _, _, _ => failure
  | rounds + 1, isBlock, isValue, isAnchored, tag => do
    if isValue && (← isNext .dash) then return .sequence (← looseItems rounds)
    if let some (.scalar text style) ← peek then
      skip
      return .scalar text style tag
    if ← skipIf .flowSequence then return .sequence (← flowItems rounds true)
    if ← skipIf .flowMapping then return .mapping (← flowPairs rounds true)
    if isBlock then
      if ← skipIf .blockSequence then return .sequence (← items rounds)
      if ← skipIf .blockMapping then return .mapping (← pairs rounds)
    if isAnchored || tag.isSome then return .scalar [] .plain tag
    failure

/-- A node, unless one of the tokens comes next that make room for one that is not written. -/
def nodeUnless : (rounds : Nat) → (ends : List Token) → (isBlock isValue : Bool) → Reader Node
  | 0, _, _, _ => failure
  | rounds + 1, ends, isBlock, isValue => do
    if ← isNextIn ends then return .absent
    node rounds isBlock isValue

/-- The items of a sequence in the block style up to its end. -/
def items : (rounds : Nat) → Reader (List Node)
  | 0 => failure
  | rounds + 1 => do
    if ← skipIf .blockEnd then return []
    expect .dash
    let item ← nodeUnless rounds [.dash, .blockEnd] true false
    return item :: (← items rounds)

/-- The items of a sequence that has no more indentation than what is around. -/
def looseItems : (rounds : Nat) → Reader (List Node)
  | 0 => failure
  | rounds + 1 => do
    if ← skipIf .dash then
      let item ← nodeUnless rounds [.dash, .key, .value, .blockEnd] true false
      return item :: (← looseItems rounds)
    return []

/-- The value of a key, if there is one. -/
def value : (rounds : Nat) → (ends : List Token) → (isBlock : Bool) → Reader Node
  | 0, _, _ => failure
  | rounds + 1, ends, isBlock => do
    if ← skipIf .value then nodeUnless rounds ends isBlock isBlock else return .absent

/-- The pairs of a mapping in the block style up to its end. -/
def pairs : (rounds : Nat) → Reader (List (Node × Node))
  | 0 => failure
  | rounds + 1 => do
    if ← skipIf .blockEnd then return []
    expect .key
    let key ← nodeUnless rounds [.key, .value, .blockEnd] true true
    let value ← value rounds [.key, .value, .blockEnd] true
    return (key, value) :: (← pairs rounds)

/-- The items of a sequence in the flow style up to its end. A pair is a mapping. -/
def flowItems : (rounds : Nat) → (isFirst : Bool) → Reader (List Node)
  | 0, _ => failure
  | rounds + 1, isFirst => do
    if ← skipIf .flowSequenceEnd then return []
    unless isFirst do expect .comma
    if ← skipIf .flowSequenceEnd then return []
    let item ←
      if ← skipIf .key then do
        let key ← nodeUnless rounds [.value, .comma, .flowSequenceEnd] false false
        let value ← value rounds [.comma, .flowSequenceEnd] false
        pure (.mapping [(key, value)])
      else node rounds false false
    return item :: (← flowItems rounds false)

/-- The pairs of a mapping in the flow style up to its end. A node that is not announced as a key
is one without a value. -/
def flowPairs : (rounds : Nat) → (isFirst : Bool) → Reader (List (Node × Node))
  | 0, _ => failure
  | rounds + 1, isFirst => do
    if ← skipIf .flowMappingEnd then return []
    unless isFirst do expect .comma
    if ← skipIf .flowMappingEnd then return []
    let pair ←
      if ← skipIf .key then do
        let key ← nodeUnless rounds [.value, .comma, .flowMappingEnd] false false
        let value ← value rounds [.comma, .flowMappingEnd] false
        pure (key, value)
      else do
        let key ← node rounds false false
        pure (key, .absent)
    return pair :: (← flowPairs rounds false)

end

/-! ## Documents -/

/-- The lines before a document, which tell its version once at most and each handle once. The
result says whether there are any. -/
def directives : (rounds : Nat) → (versionSeen any : Bool) → Reader Bool
  | 0, _, any => return any
  | rounds + 1, versionSeen, any => do
    match ← peek with
    | some (.version major minor) =>
      if versionSeen || major != 1 || (minor != 1 && minor != 2) then failure
      skip
      directives rounds true true
    | some (.handle name meaning) =>
      if ((← get).handles.lookup name).isSome then failure
      skip
      modify fun reading => { reading with handles := reading.handles ++ [(name, meaning)] }
      directives rounds versionSeen true
    | _ => return any

/-- What handles stand for unless a document says otherwise. -/
def standardHandles : List (List Char × List Char) :=
  [("!".toList, "!".toList), ("!!".toList, "tag:yaml.org,2002:".toList)]

/-- The root of a document. A document that its start is marked of may have none. -/
def root (rounds : Nat) : Reader Node := do
  let hasDirectives ← directives rounds false false
  modify fun reading => { reading with handles := reading.handles ++ standardHandles }
  let isMarked ← skipIf .documentStart
  if hasDirectives && !isMarked then failure
  match ← peek with
  | none => return .absent
  | some (.version ..) | some (.handle ..) | some .documentStart | some .documentEnd =>
    if isMarked then return .absent else failure
  | some _ => node rounds true false

/-- Pass over the marks at which a document ends. -/
def skipEnds : Reader Unit := modify fun reading =>
  { reading with tokens := reading.tokens.dropWhile (· == .documentEnd) }

end Reader

/-- The nodes that have anchors by the numbers of these: for each number the last one first. -/
def Reading.anchors (reading : Reading) : List (Nat × Node) :=
  reading.given.reverse.zipIdx.reverse.filterMap fun (number, before) =>
    (reading.finished.lookup before).map (number, ·)

/-- The document in a text, which must hold no other one. -/
def Document.ofText? (text : List Char) : Option Document := do
  let tokens ← tokens? text
  let (root, reading) ← (Reader.root (4 * (tokens.length + 1))).run { tokens }
  let (_, last) ← Reader.skipEnds.run reading
  if last.tokens.isEmpty then return { root, anchors := reading.anchors } else none

end OpenQasm.Yaml
