import OpenQasm.Text.Digits
import OpenQasm.Yaml.Cursor

/-!
# Scalars in YAML texts

The five ways to write a text: plain, in single or double quotes, and as a block of lines that is
kept (literal) or folded. Where lines are folded, one line end counts as a space, and more of them
as one line end less.
-/

namespace OpenQasm.Yaml

/-- How a scalar is written. -/
inductive Style where
  | plain
  | quoted
  | literal
  | folded
deriving DecidableEq, Repr

/-! ## Gaps -/

/-- The blanks and line ends between two parts of a scalar. -/
structure Gap where
  /-- The blanks, as long as no line has ended. -/
  blanks : List Char := []
  /-- Whether a line has ended. -/
  broken : Bool := false
  /-- The first line end, unless it was escaped. -/
  first : List Char := []
  /-- The further line ends. -/
  more : List Char := []
deriving DecidableEq, Repr

namespace Gap

def isEmpty (gap : Gap) : Bool := gap.blanks.isEmpty && !gap.broken

/-- Blanks after a line end are dropped. -/
def addBlank (gap : Gap) (c : Char) : Gap :=
  if gap.broken then gap else { gap with blanks := gap.blanks ++ [c] }

/-- Blanks before a line end are dropped too. -/
def addBreak (gap : Gap) (c : Char) : Gap :=
  if gap.broken then { gap with more := gap.more ++ [c] }
  else { blanks := [], broken := true, first := [c] }

/-- What the gap counts as. -/
def text (gap : Gap) : List Char :=
  if !gap.broken then gap.blanks
  else if gap.first.head? != some '\n' then gap.first ++ gap.more
  else if gap.more.isEmpty then [' ']
  else gap.more

end Gap

/-! ## Plain scalars -/

/-- Whether a plain scalar may begin here. -/
def startsPlain (inFlow : Bool) : List Char → Bool
  | [] => false
  | c :: text =>
    if c == '-' then !text.head?.any isBlank
    else if c == '?' || c == ':' then !inFlow && !startsBlank text
    else !isBlank c && !isBreak c && !isFlowMark c && !"#&*!|>'\"%@`".toList.contains c

/-- A plain scalar from a gap on, whose further lines have at least so many blanks before them in
the block style. The result tells whether a line ended after it. A colon that a mark of the flow
style follows is refused there. -/
def plainFrom? (inFlow : Bool) (least : Nat) :
    (steps : Nat) → Gap → Cursor → Option (List Char × Bool × Cursor)
  | 0, gap, cursor => some ([], gap.broken, cursor)
  | steps + 1, gap, cursor =>
    match cursor.break?, cursor.rest with
    | some (c, next), _ => plainFrom? inFlow least steps (gap.addBreak c) next
    | none, [] => some ([], gap.broken, cursor)
    | none, c :: text =>
      if isBlank c then
        if gap.broken && c == '\t' && cursor.column < least then none
        else plainFrom? inFlow least steps (gap.addBlank c) (cursor.skip 1)
      else if !gap.isEmpty && ((!inFlow && cursor.column < least) || cursor.atDocumentMark ||
          c == '#') then
        some ([], gap.broken, cursor)
      else if inFlow && c == ':' && text.head?.any (fun d => isFlowMark d || d == '?') then none
      else if (c == ':' && startsBlank text) || (inFlow && isFlowMark c) then
        some ([], gap.broken, cursor)
      else do
        let (more, broken, last) ← plainFrom? inFlow least steps {} (cursor.skip 1)
        return (gap.text ++ c :: more, broken, last)

/-- The plain scalar at a cursor. -/
def plain? (inFlow : Bool) (least : Nat) (cursor : Cursor) :
    Option (List Char × Bool × Cursor) :=
  plainFrom? inFlow least (cursor.rest.length + 1) {} cursor

/-! ## Scalars in quotes -/

/-- What escapes of one character stand for. -/
def escapes : List (Char × Char) :=
  [('0', '\x00'), ('a', '\x07'), ('b', '\x08'), ('t', '\t'), ('\t', '\t'), ('n', '\n'),
   ('v', '\x0b'), ('f', '\x0c'), ('r', '\r'), ('e', '\x1b'), (' ', ' '), ('"', '"'), ('/', '/'),
   ('\\', '\\'), ('N', '\x85'), ('_', '\xa0'), ('L', '\u2028'), ('P', '\u2029')]

/-- The number of digits after escapes that give the code of a character. -/
def escapeDigits : List (Char × Nat) := [('x', 2), ('u', 4), ('U', 8)]

/-- The value of so many hexadecimal digits. -/
def hexValue? : (count value : Nat) → List Char → Option Nat
  | 0, value, _ => some value
  | _ + 1, _, [] => none
  | count + 1, value, c :: text => do
    let digit ← (Text.digitValue? c).filter (· < 16)
    hexValue? count (value * 16 + digit) text

/-- The character that an escape stands for, after the backslash at a cursor. -/
def escaped? (cursor : Cursor) : Option (Char × Cursor) := do
  let mark ← cursor.rest[1]?
  match escapeDigits.lookup mark with
  | some count =>
    let value ← hexValue? count 0 (cursor.rest.drop 2)
    if value.isValidChar then return (Char.ofNat value, cursor.skip (count + 2)) else none
  | none => return (← escapes.lookup mark, cursor.skip 2)

/-- A scalar from a gap on up to its closing quote. A single quote within single quotes is written
twice. Within double quotes there are escapes, and a line end that is escaped counts as nothing. -/
def quotedFrom? (quote : Char) : (steps : Nat) → Gap → Cursor → Option (List Char × Cursor)
  | 0, _, _ => none
  | steps + 1, gap, cursor =>
    let goOn := fun (c : Char) (next : Cursor) => do
      let (more, last) ← quotedFrom? quote steps {} next
      return (gap.text ++ c :: more, last)
    match cursor.break?, cursor.rest with
    | some (c, next), _ => quotedFrom? quote steps (gap.addBreak c) next
    | none, [] => none
    | none, c :: text =>
      if isBlank c then quotedFrom? quote steps (gap.addBlank c) (cursor.skip 1)
      else if cursor.atDocumentMark then none
      else if c == quote then
        if c == '\'' && text.head? == some '\'' then goOn c (cursor.skip 2)
        else some (gap.text, cursor.skip 1)
      else if c == '\\' && quote == '"' then
        match (cursor.skip 1).break? with
        | some (_, next) => do
          let (more, last) ← quotedFrom? quote steps { broken := true } next
          return (gap.text ++ more, last)
        | none => do
          let (c, next) ← escaped? cursor
          goOn c next
      else goOn c (cursor.skip 1)

/-- The scalar after the opening quote at a cursor. -/
def quoted? (quote : Char) (cursor : Cursor) : Option (List Char × Cursor) :=
  quotedFrom? quote (cursor.rest.length + 1) {} (cursor.skip 1)

/-! ## Blocks of lines -/

/-- What becomes of the line ends after the last line of a block. -/
inductive Chomp where
  | strip
  /-- The first one stays. -/
  | clip
  | keep
deriving DecidableEq, Repr

/-- The sign for what becomes of line ends. -/
def chompSign? (cursor : Cursor) : Option Chomp :=
  match cursor.rest.head? with
  | some '-' => some .strip
  | some '+' => some .keep
  | _ => none

/-- The digit that says by how much a block is indented: none if there is no digit. -/
def indentDigit? (cursor : Cursor) : Option Nat :=
  (cursor.rest.head?.filter Char.isDigit).bind Text.digitValue?

/-- The head of a block after its mark: the sign and the digit in either order, and the end of the
line. -/
def blockHead? (cursor : Cursor) : Option (Chomp × Option Nat × Cursor) := do
  let before := chompSign? cursor
  let cursor := if before.isSome then cursor.skip 1 else cursor
  let digit := indentDigit? cursor
  let cursor := if digit.isSome then cursor.skip 1 else cursor
  let after := if before.isNone && digit.isSome then chompSign? cursor else none
  let cursor := if after.isSome then cursor.skip 1 else cursor
  if digit = some 0 then none
  else return ((before.or after).getD .clip, digit, ← cursor.endLine?)

/-- The line ends and the indentation before the next line of a block, and the greatest column
where a line began. A block whose indentation is not known yet takes all spaces. Tabs are refused
within the indentation. -/
def blockGap? (indent : Option Nat) :
    (steps deepest : Nat) → List Char → Cursor → Option (Nat × List Char × Cursor)
  | 0, _, _, _ => none
  | steps + 1, deepest, breaks, cursor =>
    let within := indent.all (cursor.column < ·)
    if within && cursor.rest.head? == some ' ' then
      blockGap? indent steps deepest breaks (cursor.skip 1)
    else if within && cursor.rest.head? == some '\t' then none
    else
      let deepest := max deepest cursor.column
      match cursor.break? with
      | some (c, next) => blockGap? indent steps deepest (breaks ++ [c]) next
      | none => some (deepest, breaks, cursor)

/-- The lines of a block, given the line end and the further ones before them, and whether the line
before began with a blank. Lines are joined by a space if the block is folded and none of both
begins with a blank. The result holds the line end and the further ones after the last line. -/
def blockLines? (isFolded : Bool) (indent : Nat) :
    (steps : Nat) → (first more : List Char) → (afterBlank : Bool) → Cursor →
    Option (List Char × List Char × List Char × Cursor)
  | 0, _, _, _, _ => none
  | steps + 1, first, more, afterBlank, cursor =>
    if cursor.column = indent ∧ !cursor.rest.isEmpty then do
      let blank := cursor.rest.head?.any isBlank
      let joint :=
        if isFolded && first.head? == some '\n' && !afterBlank && !blank then
          if more.isEmpty then [' '] else []
        else first
      let line := cursor.rest.takeWhile (!isBreak ·)
      let after := cursor.skip line.length
      let (first, next) := match after.break? with
        | some (c, next) => ([c], next)
        | none => ([], after)
      let (_, breaks, next) ← blockGap? (some indent) (next.rest.length + 1) 0 [] next
      let (lines, first, last, cursor) ← blockLines? isFolded indent steps first breaks blank next
      return (joint ++ more ++ line ++ lines, first, last, cursor)
    else some ([], first, more, cursor)

/-- The block after the mark at a cursor, for which at least so many blanks stand before its lines
unless its head says by how many more than its surroundings they are indented. -/
def block? (isFolded : Bool) (least : Nat) (cursor : Cursor) : Option (List Char × Cursor) := do
  let (chomp, digit, cursor) ← blockHead? (cursor.skip 1)
  let told := digit.map (least - 1 + ·)
  let (deepest, breaks, cursor) ← blockGap? told (cursor.rest.length + 1) 0 [] cursor
  let indent := told.getD (max deepest (max least 1))
  let (lines, first, more, cursor) ←
    blockLines? isFolded indent (cursor.rest.length + 1) [] breaks false cursor
  let first := if chomp = .strip then [] else first
  let more := if chomp = .keep then more else []
  return (lines ++ first ++ more, cursor)

end OpenQasm.Yaml
