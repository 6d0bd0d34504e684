import OpenQasm.Text.Utf8
import OpenQasm.Yaml.Scalar

/-!
# Tokens of YAML texts

The parts that a text is cut into, and how those with a name are read: anchors and references to
them, tags, and the lines before a document that say how it is to be read.
-/

namespace OpenQasm.Yaml

/-- A part of a text. -/
inductive Token where
  /-- A line with the version of the format. -/
  | version (major minor : Nat)
  /-- A line with what a handle stands for at the head of tags. -/
  | handle (name meaning : List Char)
  | documentStart
  | documentEnd
  | blockSequence
  | blockMapping
  /-- The end of a sequence or a mapping in the block style. -/
  | blockEnd
  | flowSequence
  | flowSequenceEnd
  | flowMapping
  | flowMappingEnd
  /-- What stands before an item in the block style. -/
  | dash
  | comma
  /-- What a key begins with, whether or not it is written. -/
  | key
  | value
  | anchor (name : List Char)
  /-- A place for the node that has an anchor. -/
  | reference (name : List Char)
  /-- A tag in two parts. The first one is empty if the second one is all of the tag. -/
  | tag (handle suffix : List Char)
  | scalar (text : List Char) (style : Style)
deriving DecidableEq, Repr

/-! ## Anchors -/

/-- Whether the name of an anchor may end before a text. -/
def endsAnchor (text : List Char) : Bool :=
  startsBlank text || text.head?.any ("?:,]\x7d%@`".toList.contains ·)

/-- The name of an anchor after the mark at a cursor. -/
def anchorName? (cursor : Cursor) : Option (List Char × Cursor) :=
  let name := (cursor.rest.drop 1).takeWhile isNameChar
  let next := cursor.skip (name.length + 1)
  if !name.isEmpty && endsAnchor next.rest then some (name, next) else none

/-! ## Tags -/

/-- The characters of tags that stand for themselves. There are more of them where nothing but the
tag may follow. -/
def isTagChar (isAlone : Bool) (c : Char) : Bool :=
  isNameChar c || ";/?:@&=+$.!~*'()".toList.contains c || (isAlone && ",[]".toList.contains c)

/-- The octets at the head of a text, each as the character with its code, and the number of
characters that they are written with. An octet may be written with a percent sign and two digits
if what is written so has the form of UTF-8; `due` octets of a character begun are still to come. -/
def octets? (isAlone : Bool) : (due : Nat) → List Char → Option (List Char × Nat)
  | due, '%' :: high :: low :: text => do
    let octet ← hexValue? 2 0 [high, low]
    let due ←
      if due = 0 then (Text.leading? (UInt8.ofNat octet)).map Prod.fst
      else if octet / 0x40 = 2 then some (due - 1)
      else none
    let (octets, length) ← octets? isAlone due text
    return (Char.ofNat octet :: octets, length + 3)
  | due, c :: text => do
    if due ≠ 0 ∨ c = '%' then none
    else if isTagChar isAlone c then
      let (octets, length) ← octets? isAlone 0 text
      return (c :: octets, length + 1)
    else return ([], 0)
  | due, [] => if due = 0 then some ([], 0) else none

/-- The part of a tag at a cursor. A null octet and those after it do not count. -/
def tagPart? (isAlone : Bool) (cursor : Cursor) : Option (List Char × Cursor) := do
  let (octets, length) ← octets? isAlone 0 cursor.rest
  return (octets.takeWhile (· != '\x00'), cursor.skip length)

/-- The part of a tag at a cursor, which must be written. -/
def writtenTagPart? (isAlone : Bool) (cursor : Cursor) : Option (List Char × Cursor) := do
  let (part, next) ← tagPart? isAlone cursor
  if next.index = cursor.index then none else return (part, next)

/-- The name between the mark at a cursor and the next one, and whether there is a next one. -/
def handleName (cursor : Cursor) : List Char × Bool × Cursor :=
  let name := (cursor.rest.drop 1).takeWhile isNameChar
  let next := cursor.skip (name.length + 1)
  if next.rest.head? == some '!' then (name, true, next.skip 1) else (name, false, next)

/-- A handle from its name. -/
def handleOf (name : List Char) : List Char := '!' :: (name ++ ['!'])

/-- The tag at a cursor, without a look at what follows. A tag that is only a mark stands for
itself. -/
def tagToken? (cursor : Cursor) : Option (Token × Cursor) :=
  if cursor.rest[1]? == some '<' then do
    let (tag, next) ← writtenTagPart? true (cursor.skip 2)
    if next.rest.head? == some '>' then return (.tag [] tag, next.skip 1) else none
  else do
    let (name, isHandle, next) := handleName cursor
    if isHandle then
      let (suffix, next) ← writtenTagPart? false next
      return (.tag (handleOf name) suffix, next)
    else
      let (more, next) ← tagPart? false next
      let suffix := name ++ more
      return (if suffix.isEmpty then .tag [] ['!'] else .tag ['!'] suffix, next)

/-- The tag at a cursor. -/
def tag? (inFlow : Bool) (cursor : Cursor) : Option (Token × Cursor) := do
  let (token, next) ← tagToken? cursor
  if startsBlank next.rest || (inFlow && next.rest.head? == some ',') then return (token, next)
  else none

/-! ## Lines before documents -/

/-- The number at a cursor, of nine digits at most. -/
def versionNumber? (cursor : Cursor) : Option (Nat × Cursor) :=
  let digits := cursor.rest.takeWhile Char.isDigit
  if 1 ≤ digits.length ∧ digits.length ≤ 9 then
    some (Text.valueIn 10 digits, cursor.skip digits.length)
  else none

/-- The version at a cursor. -/
def version? (cursor : Cursor) : Option (Token × Cursor) := do
  let (major, next) ← versionNumber? cursor
  if next.rest.head? != some '.' then none
  let (minor, next) ← versionNumber? (next.skip 1)
  return (.version major minor, next)

/-- The handle at a cursor, and what it stands for. -/
def handle? (cursor : Cursor) : Option (Token × Cursor) := do
  if cursor.rest.head? != some '!' then none
  let (name, isHandle, next) := handleName cursor
  if !isHandle && !name.isEmpty then none
  if !next.rest.head?.any isBlank then none
  let (meaning, next) ← writtenTagPart? true (next.skipWhile isBlank)
  if !startsBlank next.rest then none
  return (.handle (if isHandle then handleOf name else ['!']) meaning, next)

/-- The line at a cursor that says how a document is to be read. -/
def directive? (cursor : Cursor) : Option (Token × Cursor) := do
  let name := (cursor.rest.drop 1).takeWhile isNameChar
  let next := cursor.skip (name.length + 1)
  if !startsBlank next.rest then none
  let next := next.skipWhile isBlank
  let (token, next) ← match String.ofList name with
    | "YAML" => version? next
    | "TAG" => handle? next
    | _ => none
  return (token, ← next.endLine?)

end OpenQasm.Yaml
