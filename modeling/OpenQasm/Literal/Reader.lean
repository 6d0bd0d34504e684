import OpenQasm.Literal.Basic
import OpenQasm.Text.Blank
import OpenQasm.Text.Digits
import OpenQasm.Text.Fields

/-!
# Reading numeric literals

The text of a literal is cut into a number and a suffix, and the digits of the number are turned
into an exact value. Underscores may stand singly between two digits.
-/

namespace OpenQasm

/-- Why a text is no literal of the kind asked for. -/
inductive LiteralError where
  | empty
  | invalidDigit (digit : Char) (radix : String)
  | misplacedSeparator (text : List Char)
  | exponentOutOfRange (text : List Char)
  | notAnInteger (text : List Char)
  | unknownUnit (unit : List Char)
  | missingUnit (text : List Char)
  | unexpectedSuffix (suffix : List Char) (kind : LiteralKind)
  /-- The exponent is the least machine number, which has no size. Reading it is no error but a
  crash. -/
  | overflow
deriving DecidableEq, Repr

namespace LiteralError

def message : LiteralError → String
  | empty => "empty numeric literal"
  | invalidDigit digit radix => s!"invalid digit '{digit}' in {radix} literal"
  | misplacedSeparator text => s!"misplaced '_' separator in `{String.ofList text}`"
  | exponentOutOfRange text => s!"exponent in `{String.ofList text}` is out of range"
  | notAnInteger text => s!"expected an integer literal, found `{String.ofList text}`"
  | unknownUnit unit =>
    s!"unknown unit `{String.ofList unit}`; expected one of dt, ns, us, \u00b5s, ms, s"
  | missingUnit text => s!"duration literal `{String.ofList text}` is missing a time unit"
  | unexpectedSuffix suffix kind => s!"unexpected suffix `{String.ofList suffix}` on {kind} literal"
  | overflow => "attempt to negate with overflow"

end LiteralError

namespace Literal

/-- The greatest exponent that a literal may be written with. -/
def maxExponent : Nat := 0x7FFFFFFF

/-- The size of the least machine number, one more than the greatest machine number. -/
def machineBound : Nat := 0x8000000000000000

/-! ## Digits -/

/-- A decimal digit or a separator. -/
def isDigitOrSeparator (c : Char) : Bool := c.isDigit || c == '_'

/-- The groups of digits that separators mark off. -/
def digitGroups (text : List Char) : List (List Char) := Text.fields '_' text

/-- The digits of a text without its separators, which must mark off groups that are not empty;
`whole` is named otherwise. -/
def stripSeparators (text whole : List Char) : Except LiteralError (List Char) :=
  if !text.isEmpty && (digitGroups text).any List.isEmpty then .error (.misplacedSeparator whole)
  else .ok (digitGroups text).flatten

/-! ## Integers -/

/-- A way of writing integers. -/
inductive Radix where
  | decimal
  | hexadecimal
  | octal
  | binary
deriving DecidableEq, Repr

namespace Radix

def base : Radix → Nat
  | decimal => 10
  | hexadecimal => 16
  | octal => 8
  | binary => 2

def name : Radix → String
  | decimal => "decimal"
  | hexadecimal => "hexadecimal"
  | octal => "octal"
  | binary => "binary"

/-- The radix that the first two characters announce, and the digits after them. -/
def split : List Char → Radix × List Char
  | '0' :: 'x' :: rest | '0' :: 'X' :: rest => (hexadecimal, rest)
  | '0' :: 'o' :: rest | '0' :: 'O' :: rest => (octal, rest)
  | '0' :: 'b' :: rest | '0' :: 'B' :: rest => (binary, rest)
  | text => (decimal, text)

end Radix

/-- Whether a character belongs to a fraction or an exponent. -/
def isFractional (c : Char) : Bool := c == '.' || c == 'e' || c == 'E'

/-- The value of an integer literal. -/
def readInteger (text : List Char) : Except LiteralError Nat := do
  let (radix, body) := Radix.split text
  if radix = .decimal ∧ text.any isFractional then throw (.notAnInteger text)
  let digits ← stripSeparators body text
  if digits.isEmpty then throw .empty
  match digits.find? (!Text.isDigitIn radix.base ·) with
  | some digit => throw (.invalidDigit digit radix.name)
  | none => return Text.valueIn radix.base digits

/-! ## Decimals -/

/-- The exponent at the head of a text, its mark and its sign included: none unless a digit
follows. -/
def exponentLength : List Char → Nat
  | mark :: rest =>
    if mark == 'e' || mark == 'E' then
      match rest with
      | sign :: digits =>
        if sign == '+' || sign == '-' then
          let n := (digits.takeWhile Char.isDigit).length
          if 0 < n then n + 2 else 0
        else
          let n := (rest.takeWhile Char.isDigit).length
          if 0 < n then n + 1 else 0
      | [] => 0
    else 0
  | [] => 0

/-- The number of characters that belong to the decimal number at the head of a text. -/
def numberLength (text : List Char) : Nat :=
  let whole := (text.takeWhile isDigitOrSeparator).length
  let rest := text.drop whole
  let fraction := match rest with
    | '.' :: rest => (rest.takeWhile isDigitOrSeparator).length + 1
    | _ => 0
  whole + fraction + exponentLength (rest.drop fraction)

/-- The decimal number at the head of a text, and the suffix after it. -/
def splitNumber (text : List Char) : List Char × List Char :=
  (text.take (numberLength text), text.drop (numberLength text))

/-- The machine number that a text spells: a sign, perhaps, and digits. -/
def machineNumber? (text : List Char) : Option Int :=
  let (negative, digits) := match text with
    | '-' :: digits => (true, digits)
    | '+' :: digits => (false, digits)
    | digits => (false, digits)
  if digits.isEmpty ∨ !digits.all Char.isDigit then none
  else
    let value := Text.valueIn 10 digits
    if negative then if value ≤ machineBound then some (-value) else none
    else if value < machineBound then some value else none

/-- The size of a machine number, as a machine number: the least one has none. -/
def machineSize? (n : Int) : Option Nat :=
  if n = -machineBound then none else some n.natAbs

/-- The value of the text after the exponent mark of `number`. -/
def readExponent (text number : List Char) : Except LiteralError Int :=
  match machineNumber? text with
  | none => .error (.exponentOutOfRange number)
  | some exponent =>
    match machineSize? exponent with
    | none => .error .overflow
    | some size => if size ≤ maxExponent then .ok exponent else .error (.exponentOutOfRange number)

/-- The value of a decimal number. -/
def readDecimal (number : List Char) : Except LiteralError Decimal := do
  let significand := number.takeWhile fun c => !(c == 'e' || c == 'E')
  let exponentText := (number.drop significand.length).drop 1
  let hasExponent := significand.length < number.length
  let (whole, fraction) := (Text.cutAt? '.' significand).getD (significand, [])
  let wholeDigits ← stripSeparators whole number
  let fractionDigits ← stripSeparators fraction number
  if wholeDigits.isEmpty ∧ fractionDigits.isEmpty then throw .empty
  let exponent ← if hasExponent then readExponent exponentText number else pure 0
  let mantissa := Text.valueIn 10 (wholeDigits ++ fractionDigits)
  return .ofScaled mantissa (exponent - fractionDigits.length)

/-- The value of a number and the suffix after it, which white space may set apart. -/
def readSuffixed (text : List Char) : Except LiteralError (Decimal × List Char) := do
  let (number, suffix) := splitNumber text
  if number.isEmpty then throw .empty
  return (← readDecimal number, Text.trimStart suffix)

/-- The value of a number that has no suffix. -/
def readBare (text : List Char) (kind : LiteralKind) : Except LiteralError Decimal := do
  let (value, suffix) ← readSuffixed text
  if suffix.isEmpty then return value else throw (.unexpectedSuffix suffix kind)

/-- The literal of the given kind that a text spells, its suffix included. -/
def read (text : List Char) (kind : LiteralKind) : Except LiteralError Literal := do
  if text.isEmpty then throw .empty
  match kind with
  | .integer => return .integer (← readInteger text)
  | .float => return .float (← readBare text kind)
  | .angle => return .angle (← readBare text kind)
  | .imaginary =>
    let (value, suffix) ← readSuffixed text
    if suffix = ['i', 'm'] then return .imaginary value else throw (.unexpectedSuffix suffix kind)
  | .duration =>
    let (value, suffix) ← readSuffixed text
    if suffix.isEmpty then throw (.missingUnit text)
    match TimeUnit.ofSuffix? suffix with
    | some unit => return .duration value unit
    | none => throw (.unknownUnit suffix)

/-- The kind of a number with a suffix: imaginary before `im`, else a duration. -/
def suffixKind (text : List Char) : LiteralKind :=
  if Text.trimStart (splitNumber text).2 = ['i', 'm'] then .imaginary else .duration

end Literal

end OpenQasm
