import OpenQasm.Diagnostic.Basic
import OpenQasm.Source.Map

/-!
# Excerpts

A diagnostic marks stretches of sources. An excerpt of a source is its marks with the lines that
they lead through. An arm is the place where a mark leaves a line: a mark inside one line has its
arm in its middle, and a mark over several lines has one where it begins and one where it ends.

Positions count characters, not bytes.
-/

namespace OpenQasm.Report

/-! ## Lines -/

/-- The characters that end a line of an excerpt. -/
def isLineEnd (c : Char) : Bool := "\n\r\x0b\x0c\x85\u2028\u2029".toList.contains c

/-- The lines of a text with the characters that end them. -/
def splitLines : List Char → List (List Char)
  | [] => []
  | '\r' :: '\n' :: text => ['\r', '\n'] :: splitLines text
  | c :: text =>
    if isLineEnd c then [c] :: splitLines text
    else
      match splitLines text with
      | [] => [[c]]
      | line :: lines => (c :: line) :: lines

/-- The lines of a text lose nothing of it. -/
theorem flatten_splitLines (text : List Char) : (splitLines text).flatten = text := by
  fun_induction splitLines text <;> simp_all

/-- A line of a source. -/
structure Line where
  /-- The number of the line, from 0. -/
  index : Nat
  /-- The number of characters before the line. -/
  start : Nat
  /-- The line with the characters that end it. -/
  text : List Char
deriving Repr

/-- The lines numbered, from a line and a character on. -/
def numbered : (index start : Nat) → List (List Char) → List Line
  | _, _, [] => []
  | index, start, text :: lines =>
    ⟨index, start, text⟩ :: numbered (index + 1) (start + text.length) lines

/-- The lines of a text. An empty text has none. -/
def linesOf (text : List Char) : List Line := numbered 0 0 (splitLines text)

namespace Line

/-- The number of characters up to the end of the line. -/
def stop (line : Line) : Nat := line.start + line.text.length

/-- Whether the line holds a character. -/
def holds (line : Line) (position : Nat) : Bool :=
  line.start ≤ position && position < line.stop

/-- The line that holds a character, or the last one for the end of the text. Beyond the end there
is none. -/
def at? (lines : List Line) (position : Nat) : Option Line :=
  if lines.any (position ≤ ·.stop) then (lines.filter (·.start ≤ position)).getLast? else none

end Line

/-! ## Marks -/

/-- What is said of a stretch of characters in a source. -/
structure Mark where
  /-- The place of the mark among all marks of its diagnostic. -/
  number : Nat
  start : Nat
  stop : Nat
  message : String
deriving Repr

namespace Mark

def length (mark : Mark) : Nat := mark.stop - mark.start

/-- The last character of the stretch, or the place of an empty one. -/
def last (mark : Mark) : Nat := max (mark.stop - 1) mark.start

def same (a b : Mark) : Bool := a.number == b.number

/-- Whether the stretch holds a character. -/
def holds (mark : Mark) (position : Nat) : Bool := mark.start ≤ position && position < mark.stop

/-- Whether the stretch begins and ends in different lines. -/
def isWide (lines : List Line) (mark : Mark) : Bool :=
  (Line.at? lines mark.start).map Line.index != (Line.at? lines mark.last).map Line.index

/-- Whether the stretch meets a line. One that begins where the line ends meets it too. -/
def meets (mark : Mark) (line : Line) : Bool :=
  mark.start ≤ line.stop && line.start < mark.stop

end Mark

/-! ## Excerpts -/

/-- The marks in one source, with its lines. -/
structure Excerpt where
  name : String
  lines : List Line
  marks : List Mark
deriving Repr

namespace Excerpt

/-- The marks over several lines, longer ones first. -/
def wides (excerpt : Excerpt) : List Mark :=
  (excerpt.marks.filter (·.isWide excerpt.lines)).mergeSort fun a b => b.length ≤ a.length

/-- The marks inside one line. -/
def narrows (excerpt : Excerpt) : List Mark := excerpt.marks.filter (!·.isWide excerpt.lines)

/-- Where the first mark begins. -/
def start (excerpt : Excerpt) : Nat := ((excerpt.marks.map Mark.start).min?).getD 0

/-- Where the last mark ends. -/
def stop (excerpt : Excerpt) : Nat := ((excerpt.marks.map Mark.stop).max?).getD 0

/-- The indices of the first and the last line that the marks lead through. -/
def bounds (excerpt : Excerpt) : Nat × Nat :=
  let index := fun position => ((Line.at? excerpt.lines position).map Line.index).getD 0
  (index excerpt.start, index (max (excerpt.stop - 1) excerpt.start))

/-- The lines that the marks lead through. -/
def body (excerpt : Excerpt) : List Line :=
  let (first, last) := excerpt.bounds
  excerpt.lines.filter fun line => first ≤ line.index && line.index ≤ last

end Excerpt

/-- Add a mark to the excerpt of its source, which is the last one if it is new. -/
def addMark (name : String) (lines : List Line) (mark : Mark) : List Excerpt → List Excerpt
  | [] => [⟨name, lines, [mark]⟩]
  | excerpt :: excerpts =>
    if excerpt.name = name then { excerpt with marks := excerpt.marks ++ [mark] } :: excerpts
    else excerpt :: addMark name lines mark excerpts

/-- The last source of a name. Excerpts know sources by name. -/
def lastNamed? (sources : SourceMap) (name : String) : Option SourceFile :=
  (sources.files.toList.filter (·.name == name)).getLast?

/-- Add the mark for a span. It is left out if its source is unknown, or if it begins or ends
beyond the text that goes by the name of its source. -/
def addSpan (sources : SourceMap) (excerpts : List Excerpt) (number : Nat) (span : Span)
    (message : String) : List Excerpt :=
  match sources.get? span.source with
  | none => excerpts
  | some file =>
    let start := file.charOffset span.start
    let mark : Mark := { number, start, stop := max (file.charOffset span.stop) start, message }
    let lines := ((lastNamed? sources file.name).map (linesOf ·.text.toList)).getD []
    if (Line.at? lines mark.start).isSome ∧ (Line.at? lines mark.last).isSome then
      addMark file.name lines mark excerpts
    else excerpts

/-- The excerpts for a diagnostic: its own span comes first, then those of its labels. -/
def excerpts (diagnostic : Diagnostic) (sources : SourceMap) : List Excerpt :=
  let spans := (diagnostic.span, diagnostic.message) ::
    diagnostic.labels.map fun label => (label.span, label.message)
  spans.zipIdx.foldl
    (fun excerpts ((span, message), number) => addSpan sources excerpts number span message) []

/-! ## Arms -/

/-- A place where a mark leaves a line. -/
structure Arm where
  mark : Mark
  /-- The number of characters before the place in its line. -/
  column : Nat
  /-- Whether the mark runs over several lines. -/
  wide : Bool
  /-- Whether the message stands at this arm. -/
  speaks : Bool
deriving Repr

namespace Arm

def isOf (mark : Mark) (arm : Arm) : Bool := arm.mark.same mark

/-- The arm of a mark over several lines where it begins. -/
def ofStart? (line : Line) (mark : Mark) : Option Arm :=
  if line.holds mark.start then some ⟨mark, mark.start - line.start, true, false⟩ else none

/-- The arm of a mark over several lines where it ends. -/
def ofEnd? (line : Line) (mark : Mark) : Option Arm :=
  if line.holds mark.last then some ⟨mark, mark.last - line.start, true, true⟩ else none

/-- The arm of a mark inside a line. -/
def ofNarrow? (line : Line) (mark : Mark) : Option Arm :=
  if line.start ≤ mark.start ∧ mark.stop ≤ line.stop then
    some ⟨mark, (mark.start + mark.stop) / 2 - line.start, false, true⟩
  else none

/-- Arms are ordered by their columns. In one column the mark that begins later comes first. -/
def before (a b : Arm) : Bool :=
  a.column < b.column || (a.column == b.column && b.mark.start ≤ a.mark.start)

end Arm

/-- A line with the arms that leave it. -/
structure Place where
  line : Line
  /-- The arm that leads straight into the margin, which needs no row. -/
  straight : Option Arm
  /-- The other arms, a row for each. -/
  arms : List Arm
deriving Repr

namespace Place

/-- Whether a mark has the arm that leads straight into the margin. -/
def isStraight (place : Place) (mark : Mark) : Bool := place.straight.any (Arm.isOf mark)

/-- The arms of marks on a line. -/
def ofMarks (wides narrows : List Mark) (line : Line) : Place :=
  let ends := wides.filterMap fun mark => (Arm.ofStart? line mark).or (Arm.ofEnd? line mark)
  let straight := (ends.mergeSort Arm.before).head?
  let others := wides.filterMap fun mark =>
    let start := if straight.any (Arm.isOf mark) then none else Arm.ofStart? line mark
    start.or (Arm.ofEnd? line mark)
  let inside := narrows.filterMap (Arm.ofNarrow? line)
  { line, straight, arms := (others ++ inside).mergeSort Arm.before }

/-- Whether nothing leaves the line. -/
def isBare (place : Place) : Bool := place.arms.isEmpty && place.straight.isNone

/-- The row of a mark's arm: the first one for a mark without an arm. -/
def rowOf (place : Place) (mark : Mark) : Nat := (place.arms.findIdx? (Arm.isOf mark)).getD 0

/-- The first arm at a column from a row on. An arm that leads straight into the margin is none. -/
def arm? (place : Place) (row column : Nat) : Option Arm :=
  (place.arms.drop row).find? fun arm =>
    arm.column == column && !place.isStraight arm.mark

/-- Whether a mark inside the line holds the character at a column. -/
def isUnderlined (place : Place) (column : Nat) : Bool :=
  place.arms.any fun arm => !arm.wide && arm.mark.holds (place.line.start + column)

/-- The number of columns that the rows below the line take: up to the last mark, or up to the end
of the line where a mark over several lines leaves it, and two more. -/
def reach (place : Place) : Nat :=
  place.arms.foldl
    (fun reach arm =>
      if arm.wide then place.line.text.length
      else max reach (arm.mark.stop - place.line.start)) 0 + 2

end Place

/-- The lines of an excerpt with their arms. -/
def Excerpt.places (excerpt : Excerpt) : List Place :=
  let wides := excerpt.wides
  let narrows := excerpt.narrows
  excerpt.body.map (Place.ofMarks wides narrows)

end OpenQasm.Report
