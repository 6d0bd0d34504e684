import OpenQasm.Report.Excerpt

/-!
# Margins

Between the line numbers and the text stand the brackets of the marks over several lines. Each has
a column of its own, the longest mark the first one, and there is one column more for arrow heads.
A bracket goes from the line where its mark begins to the one where it ends. It is opened and
closed by an arm: a straight one, on the line itself, or one in a row below the line.
-/

namespace OpenQasm.Report

/-- A cell of a row: a character, and the one that fills the columns after it. -/
abbrev Cell := Char × Char

def blank : Cell := (' ', ' ')

def bar : Cell := ('─', '─')

/-- A bracket passes through a row. -/
def passing : Cell := ('│', ' ')

/-- Both columns of a cell of the margin. -/
def both (cell : Cell) : List Char := [cell.1, cell.2]

/-- The columns of the margin: one for each bracket and one for arrow heads, if there are any. -/
def marginColumns (wides : List Mark) : List Nat :=
  List.range (if wides.isEmpty then 0 else wides.length + 1)

/-! ## Beside a line -/

/-- The bracket in its own column beside a line: it passes by, unless it begins here or the line
leads straight to it. -/
def passesBeside (place : Place) (mark : Mark) : Bool :=
  mark.meets place.line && !place.line.holds mark.start && !place.isStraight mark

/-- The cell beside a line. The straight arm begins in its bracket's column, and its arrow head
is the last cell. -/
def besideCell (wides : List Mark) (place : Place) (column : Nat) : Cell :=
  if wides[column]?.any (passesBeside place) then passing
  else
    match place.straight with
    | none => blank
    | some arm =>
      if (wides.take (column + 1)).any (Arm.isOf · arm) then
        if column = wides.length then ('▶', ' ')
        else if wides[column]?.any (Arm.isOf · arm) then
          (if place.line.holds arm.mark.start then '╭' else '├', '─')
        else bar
      else blank

/-- The margin of a line. -/
def besideMargin (wides : List Mark) (place : Place) : List Char :=
  (marginColumns wides).flatMap fun column => both (besideCell wides place column)

/-- The margin of a gap between lines: the brackets pass with a break. -/
def gapMargin (wides : List Mark) (place : Place) : List Char :=
  (marginColumns wides).flatMap fun column =>
    if wides[column]?.any (passesBeside place) then ['┆', ' '] else [' ', ' ']

/-! ## Below a line -/

/-- Whether a mark begins or ends on the line. -/
def turns (place : Place) (mark : Mark) : Bool :=
  mark.meets place.line && (place.line.holds mark.start || place.line.holds mark.last)

/-- Whether the arm in a row leads to the bracket of a mark. -/
def leadsTo (place : Place) (row : Nat) (mark : Mark) : Bool :=
  turns place mark && row == place.rowOf mark &&
    !(place.isStraight mark && place.line.holds mark.start)

/-- Whether the bracket of a mark passes through a row below the line, where `drawn` says that the
arm in the row is drawn to the margin. -/
def passesBelow (place : Place) (row : Nat) (drawn : Bool) (mark : Mark) : Bool :=
  let starts := place.line.holds mark.start
  mark.meets place.line &&
    if !starts && !place.line.holds mark.last then true
    else if row = place.rowOf mark then place.isStraight mark || (!drawn && !starts)
    else starts != decide (row < place.rowOf mark)

/-- The cell in a row below a line. -/
def belowCell (wides : List Mark) (place : Place) (row : Nat) (drawn : Bool) (column : Nat) :
    Cell :=
  let own := wides[column]?
  if drawn ∧ own.any (leadsTo place row) then
    (if own.any (place.line.holds ·.start) then '╭' else '╰', '─')
  else if drawn ∧ (wides.take column).any (leadsTo place row) then bar
  else if own.any (passesBelow place row drawn) then passing
  else blank

/-- The margin of a row below a line. -/
def belowMargin (wides : List Mark) (place : Place) (row : Nat) (drawn : Bool) : List Char :=
  (marginColumns wides).flatMap fun column => both (belowCell wides place row drawn column)

end OpenQasm.Report
