/-!
# Control sequences

Texts that are not printed on a terminal are printed without the characters and sequences that
control one. A sequence begins with an escape character. What follows it says of which kind the
sequence is and where it ends.
-/

namespace OpenQasm.Text

/-- How far a control sequence has been read. -/
inductive Control where
  /-- There is no sequence. -/
  | none
  | escape
  /-- An escape with further marks before its last character. -/
  | escapeMarks
  /-- A sequence with numbers, which a letter or a sign ends. -/
  | numbers
  /-- A text for the terminal's title and the like, which a bell ends. -/
  | title
  /-- A text for a device, which only the next control sequence ends. -/
  | device
deriving DecidableEq, Repr

namespace Control

/-- How far a sequence has been read after one more character. -/
def next (control : Control) (c : Char) : Control :=
  if c == '\x1b' then escape
  else if c == '\x18' || c == '\x1a' then none
  else
    match control with
    | none => none
    | escape =>
      if ' ' ≤ c && c ≤ '/' then escapeMarks
      else if c == '[' then numbers
      else if c == ']' then title
      else if "PX^_".toList.contains c then device
      else if '0' ≤ c && c ≤ '~' then none
      else escape
    | escapeMarks => if '0' ≤ c && c ≤ '~' then none else escapeMarks
    | numbers => if '@' ≤ c && c ≤ '~' then none else numbers
    | title => if c == '\x07' then none else title
    | device => device

/-- Whether a character is printed. In sequences these are only some blanks. -/
def prints (control : Control) (c : Char) : Bool :=
  match control with
  | none => "\t\n\x0c\r".toList.contains c || (' ' ≤ c && c != '\x7f')
  | escape | escapeMarks | numbers => "\t\n\x0c\r".toList.contains c
  | title | device => false

end Control

/-- What is printed of a text. Where a blank has been printed within a sequence, all that follows
is printed like text up to the next control character, with which the sequence goes on; characters
beyond ASCII among it end the sequence. -/
def printedFrom : (printing : Bool) → Control → List Char → List Char
  | _, _, [] => []
  | printing, control, c :: text =>
    if (if printing then Control.none else control).prints c then
      c :: printedFrom true (if c ≤ '\x7f' then control else .none) text
    else printedFrom false (control.next c) text

/-- What is printed of a text without control sequences. -/
def printed (text : String) : String := String.ofList (printedFrom false .none text.toList)

/-- Text without control characters is printed as it is. -/
theorem printedFrom_eq_self {printing : Bool} {text : List Char}
    (h : text.all (Control.none.prints ·)) : printedFrom printing .none text = text := by
  induction text generalizing printing with
  | nil => simp [printedFrom]
  | cons c text ih =>
    simp only [List.all_cons, Bool.and_eq_true] at h
    simp [printedFrom, h.1, ih h.2]

end OpenQasm.Text
