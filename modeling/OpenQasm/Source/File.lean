import OpenQasm.Path
import OpenQasm.Span
import OpenQasm.Text.Utf8

/-!
# Source files

A registered text with its name. Offsets are turned into lines and columns through the table of
the offsets at which lines begin. Lines and columns count from 1, and columns count characters. Like
offsets, both are held below `2 ^ 32`.
-/

namespace OpenQasm

/-- The offsets just after the newlines among bytes, the first of which stands at `offset`. -/
def lineStartsAfter (offset : Nat) : List UInt8 → List Nat
  | [] => []
  | byte :: bytes =>
    if byte = '\n'.toUInt8 then
      min (offset + 1) maxOffset :: lineStartsAfter (offset + 1) bytes
    else lineStartsAfter (offset + 1) bytes

/-! ## Searching a table -/

/-- Where a search in an increasing table ends: at an entry with the value sought, or at the index
at which such an entry would have to be put in. -/
inductive Sought where
  | found (index : Nat)
  | missing (index : Nat)
deriving DecidableEq, Repr

/-- The index of the last entry that is not greater than the value sought, if there is one. -/
def Sought.atMost? : Sought → Option Nat
  | found index => some index
  | missing 0 => none
  | missing (index + 1) => some index

/-- The last index from `low` on and below `high` whose entry is at most `value`, found by halving;
the entry at `low` is taken to be one. -/
def lastAtMost (table : Array Nat) (value low high : Nat) : Nat :=
  if low + 1 < high then
    let middle := (low + high) / 2
    if table.getD middle 0 ≤ value then lastAtMost table value middle high
    else lastAtMost table value low middle
  else low
termination_by high - low

/-- Search for a value in an increasing table. -/
def search (table : Array Nat) (value : Nat) : Sought :=
  let last := lastAtMost table value 0 table.size
  match table[last]? with
  | none => .missing last
  | some entry =>
    match compare entry value with
    | .lt => .missing (last + 1)
    | .eq => .found last
    | .gt => .missing last

/-! ## Sources -/

/-- A registered source. -/
structure SourceFile where
  id : SourceId
  /-- The name that reports show. -/
  name : String
  /-- Where the text was read from, if it was read from a file. -/
  path : Option Path
  text : String
  /-- The offset at which each line begins, in increasing order. -/
  lineStarts : Array Nat
deriving Repr

namespace SourceFile

/-- A source with the table of its lines. -/
def ofText (id : SourceId) (name : String) (path : Option Path) (text : String) : SourceFile :=
  { id, name, path, text,
    lineStarts := (0 :: lineStartsAfter 0 (Text.encode text.toList)).toArray }

/-- The number of bytes in the text. -/
def size (file : SourceFile) : Nat := Text.width file.text.toList

/-- The span of the whole text. -/
def span (file : SourceFile) : Span := .ofRange file.id 0 file.size

/-- The number of lines, the empty one after a final newline included. -/
def lineCount (file : SourceFile) : Nat := file.lineStarts.size

/-- The number of characters between two bytes. If either falls inside a character, the bytes are
counted. -/
def charsBetween (file : SourceFile) (start stop : Nat) : Nat :=
  match Text.slice? file.text.toList start stop with
  | some between => between.length
  | none => stop - start

/-- The line and the column of a byte. An offset past the end counts as the end. Nothing is found if
no line begins at the byte or before it, if the table does not have the line, or if the line begins
behind the byte. -/
def lineColumn? (file : SourceFile) (offset : Nat) : Option (Nat × Nat) := do
  let stop := min offset (min file.size maxOffset)
  let line ← (search file.lineStarts stop).atMost?
  let start ← file.lineStarts[line]?
  if stop < start then none
  else return (min (line + 1) maxOffset, min (file.charsBetween start stop + 1) maxOffset)

/-- The line and the column of a byte. As the first line begins at the start of the text, they are
always found. -/
def lineColumn (file : SourceFile) (offset : Nat) : Nat × Nat :=
  (file.lineColumn? offset).getD (1, 1)

/-- The number of characters before a byte. Inside a character the bytes are counted. -/
def charOffset (file : SourceFile) (offset : Nat) : Nat :=
  let stop := min offset file.size
  match Text.takeBytes? file.text.toList stop with
  | some before => before.length
  | none => stop

end SourceFile

end OpenQasm
