/-!
# Places in YAML texts

A cursor stands before what is left of a text and knows its line and its column, since the layout
of a text carries meaning. A line ends with a line feed, a carriage return, both in this order, or
one of the three further line ends of Unicode.
-/

namespace OpenQasm.Yaml

/-- A blank within a line. -/
def isBlank (c : Char) : Bool := c == ' ' || c == '\t'

/-- A character that ends a line. -/
def isBreak (c : Char) : Bool := "\n\r\x85\u2028\u2029".toList.contains c

/-- Whether a blank, a line end or the end of the text comes next. -/
def startsBlank : List Char → Bool
  | [] => true
  | c :: _ => isBlank c || isBreak c

/-- The characters of names. -/
def isNameChar (c : Char) : Bool := c.isAlphanum || c == '-' || c == '_'

/-- The characters that separate the parts of the flow style. -/
def isFlowMark (c : Char) : Bool := ",[]\x7b\x7d".toList.contains c

/-- The characters that may stand in a text. -/
def isAllowed (c : Char) : Bool :=
  "\t\n\r\x85".toList.contains c || (' ' ≤ c && c ≤ '~') ||
    ('\xa0' ≤ c && c != '\ufffe' && c != '\uffff')

/-- What is left of a text, and where its first character stands. -/
structure Cursor where
  rest : List Char
  /-- The number of characters before. -/
  index : Nat := 0
  /-- The number of lines before. -/
  line : Nat := 0
  /-- The number of characters before in the same line. -/
  column : Nat := 0
deriving Repr

namespace Cursor

/-- Pass over characters that end no line. -/
def skip (cursor : Cursor) (n : Nat) : Cursor :=
  { cursor with
    rest := cursor.rest.drop n
    index := cursor.index + n
    column := cursor.column + n }

/-- Pass over a line end, which counts as a line feed unless it separates lines or paragraphs by
its own meaning. -/
def break? (cursor : Cursor) : Option (Char × Cursor) :=
  let next := fun (rest : List Char) (n : Nat) =>
    { cursor with rest, index := cursor.index + n, line := cursor.line + 1, column := 0 }
  match cursor.rest with
  | '\r' :: '\n' :: text => some ('\n', next text 2)
  | c :: text =>
    if isBreak c then some (if c == '\u2028' || c == '\u2029' then c else '\n', next text 1)
    else none
  | [] => none

/-- Pass over the characters at hand that have a property, none of which ends a line. -/
def skipWhile (cursor : Cursor) (p : Char → Bool) : Cursor :=
  cursor.skip (cursor.rest.takeWhile p).length

/-- Pass over the rest of the line. -/
def skipLine (cursor : Cursor) : Cursor := cursor.skipWhile (!isBreak ·)

/-- Pass over a line of which nothing but blanks and a comment is left. -/
def endLine? (cursor : Cursor) : Option Cursor :=
  let cursor := cursor.skipWhile isBlank
  let cursor := if cursor.rest.head? == some '#' then cursor.skipLine else cursor
  match cursor.break? with
  | some (_, next) => some next
  | none => if cursor.rest.isEmpty then some cursor else none

/-- Whether three times a mark stand alone at the head of a line. -/
def atMarks (cursor : Cursor) (mark : Char) : Bool :=
  cursor.column == 0 && cursor.rest.take 3 == [mark, mark, mark] && startsBlank (cursor.rest.drop 3)

/-- Whether the line marks off a document. -/
def atDocumentMark (cursor : Cursor) : Bool := cursor.atMarks '-' || cursor.atMarks '.'

end Cursor

end OpenQasm.Yaml
