import OpenQasm.Report.Line
import OpenQasm.Report.Margin
import OpenQasm.Text.Blank
import OpenQasm.Text.Width

/-!
# Reports with the text

A diagnostic is shown with the lines of the program that it is about. Below each line stand a mark
under the text meant and an arm that leads from it to what is said:

```
[Q0101] Error: expected an operand
   ╭─[bell.qasm:2:1]
   │
 2 │ qubit q;
   │ ──┬──  
   │   ╰──── expected an operand
───╯
```

A mark over several lines is a bracket in the margin, and its message stands below its last line.
-/

namespace OpenQasm.Report

/-! ## Cells -/

/-- A row of so many spaces. -/
def spaces (n : Nat) : List Char := List.replicate n ' '

/-- A character as it is shown at a column of its line, and the number of cells that it takes. Tabs
go to the next column that is a multiple of four, and blanks are spaces. -/
def shownChar (c : Char) (column : Nat) : Char × Nat :=
  if c = '\t' then (' ', 4 - column % 4)
  else if Text.isBlank c then (' ', 1)
  else (c, Text.cells c)

/-- The text of a line as it is shown: without the blanks at its end. -/
def Line.shown (line : Line) : List Char :=
  (Text.trimEnd line.text).zipIdx.flatMap fun (c, column) =>
    match shownChar c column with
    | (' ', width) => spaces width
    | (c, _) => [c]

/-- A row below a line: the cell for each column takes as much room as the character above it. A
cell below a character that takes none is left out. -/
def rowBelow (place : Place) (cell : Nat → Cell) : List Char :=
  (List.range place.reach).flatMap fun column =>
    let (c, filler) := cell column
    match (Text.trimEnd place.line.text)[column]?.map (shownChar · column) with
    | none => [c]
    | some (_, 0) => []
    | some (_, width + 1) => c :: List.replicate width filler

/-! ## Rows -/

/-- The cell of the row above an arm. Above the first arm the marks inside the line are drawn. -/
def markCell (place : Place) (row column : Nat) : Cell :=
  let underlined := row = 0 ∧ place.isUnderlined column
  match place.arm? row column with
  | some arm =>
    if underlined then ('┬', '─')
    else if arm.wide ∧ row = 0 then ('▲', ' ')
    else passing
  | none => if underlined then bar else blank

/-- The cell of the row of an arm. An arm leads to the right where its message stands, and that of
a mark over several lines leads to the margin. -/
def armCell (place : Place) (row : Nat) (arm : Arm) (column : Nat) : Cell :=
  let after := decide (arm.column < column)
  if column = arm.column ∧ !place.isStraight arm.mark then
    (if !arm.wide then '╰' else if arm.speaks then '┴' else '╯', '─')
  else if after != arm.wide || (arm.speaks && after) then bar
  else if (place.arm? row column).isSome then passing
  else blank

/-- The text before a row that shows no line: so many columns for line numbers. -/
def unnumbered (gutter : Nat) (border : Char) : List Char := spaces (gutter + 2) ++ [border, ' ']

/-- The text before a line. -/
def withNumber (gutter index : Nat) : List Char :=
  let digits := Nat.toDigits 10 (index + 1)
  ' ' :: spaces (gutter - digits.length) ++ digits ++ [' ', '│', ' ']

/-- Both rows of an arm: the marks, and the arm with its message. -/
def armRows (gutter : Nat) (wides : List Mark) (place : Place) (row : Nat) (arm : Arm) :
    List (List Char) :=
  let border := unnumbered gutter '│'
  [border ++ belowMargin wides place row false ++ rowBelow place (markCell place row),
   border ++ belowMargin wides place row true ++ rowBelow place (armCell place row arm) ++
     if arm.speaks then ' ' :: arm.mark.message.toList else []]

/-- A line with the rows of its arms. -/
def lineRows (gutter : Nat) (wides : List Mark) (place : Place) : List (List Char) :=
  (withNumber gutter place.line.index ++ besideMargin wides place ++ place.line.shown) ::
    place.arms.zipIdx.flatMap fun (arm, row) => armRows gutter wides place row arm

/-- The lines of an excerpt. Lines in a row that nothing leaves are left out, and one row stands for
them: with the brackets around them, or else an empty one. -/
def bodyRows (gutter : Nat) (wides : List Mark) : (skipping : Bool) → List Place → List (List Char)
  | _, [] => []
  | skipping, place :: places =>
    if place.isBare then
      let row :=
        if wides.any (·.holds place.line.start) then
          unnumbered gutter '┆' ++ gapMargin wides place
        else unnumbered gutter '│'
      (if skipping then [] else [row]) ++ bodyRows gutter wides true places
    else lineRows gutter wides place ++ bodyRows gutter wides false places

/-! ## Excerpts -/

namespace Excerpt

/-- The number of columns that line numbers take. -/
def gutter (excerpt : Excerpt) : Nat := (Nat.toDigits 10 (excerpt.bounds.2 + 1)).length

/-- The name of the source with the line and the column of a character. -/
def location (excerpt : Excerpt) (position : Nat) : List Char :=
  let place := match Line.at? excerpt.lines position with
    | some line => s!"{line.index + 1}:{position - line.start + 1}"
    | none => "?:?"
  s!"[{excerpt.name}:{place}]".toList

/-- The lines below the name of the source. -/
def rows (gutter position : Nat) (corner : Char) (excerpt : Excerpt) : List (List Char) :=
  (spaces (gutter + 2) ++ corner :: '─' :: excerpt.location position) ::
    (spaces (gutter + 2) ++ ['│']) ::
    bodyRows gutter excerpt.wides false excerpt.places

/-- A remark below the lines of an excerpt, whose first line the margin goes by. -/
def remarkRows (gutter : Nat) (excerpt : Excerpt) (kind text : String) : List (List Char) :=
  let margin := excerpt.lines.head?.elim [] fun line =>
    belowMargin excerpt.wides { line, straight := none, arms := [] } 0 false
  let border := unnumbered gutter '│' ++ margin
  [border, border ++ s!"{kind}: {text}".toList]

end Excerpt

/-- The suggested replacement and the last note, below the last excerpt. -/
def remarks (gutter : Nat) (diagnostic : Diagnostic) (excerpt : Excerpt) : List (List Char) :=
  (match diagnostic.fix with
    | some fix => excerpt.remarkRows gutter "Help" s!"{fix.message}: `{fix.replacement}`"
    | none => []) ++
  (match diagnostic.notes.getLast? with
    | some note => excerpt.remarkRows gutter "Note" note
    | none => [])

/-- The excerpts one below the other, given the name of the source of the diagnostic and its
position there. -/
def excerptRows (gutter : Nat) (diagnostic : Diagnostic) (name : String) (position : Nat) :
    (corner : Char) → List Excerpt → List (List Char)
  | _, [] => []
  | corner, excerpt :: excerpts =>
    let own :=
      if excerpt.name = name then position else (excerpt.marks.head?.map Mark.start).getD 0
    excerpt.rows gutter own corner ++
      if excerpts.isEmpty then
        remarks gutter diagnostic excerpt ++ [List.replicate (gutter + 2) '─' ++ ['╯']]
      else
        (spaces (gutter + 2) ++ ['│']) :: excerptRows gutter diagnostic name position '├' excerpts

/-! ## Reports -/

/-- The word for the severity. -/
def kindWord : Severity → String
  | .error => "Error"
  | .warning => "Warning"
  | .note => "Advice"

/-- The rows of a report on a diagnostic in a source. -/
def rows (diagnostic : Diagnostic) (file : SourceFile) (excerpts : List Excerpt) :
    List (List Char) :=
  let gutter := ((excerpts.map Excerpt.gutter).max?).getD 0
  let head := s!"[{diagnostic.code}] {kindWord diagnostic.severity}: {diagnostic.message}".toList
  head ::
    excerptRows gutter diagnostic file.name (file.charOffset diagnostic.span.start) '╭' excerpts

end Report

namespace Diagnostic

/-- The report on a diagnostic, with the lines that it is about. -/
def page (diagnostic : Diagnostic) (sources : SourceMap) : String :=
  match sources.get? diagnostic.span.source with
  | none => diagnostic.plain
  | some file =>
    let rows := Report.rows diagnostic file (Report.excerpts diagnostic sources)
    String.ofList (rows.flatMap (· ++ ['\n']))

/-- The reports on diagnostics with empty lines between them. -/
def pages (diagnostics : List Diagnostic) (sources : SourceMap) : String :=
  "\n".intercalate (diagnostics.map (·.page sources))

end Diagnostic

end OpenQasm
