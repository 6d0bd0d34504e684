import OpenQasm.Json
import OpenQasm.Literal.Decimal

/-!
# Numeric literals

The values of numeric literals, exact throughout: no literal goes through a machine number.
-/

namespace OpenQasm

/-- The kinds of numeric literals. -/
inductive LiteralKind where
  | integer
  | float
  | imaginary
  | angle
  | duration
deriving DecidableEq, Repr, Inhabited

namespace LiteralKind

protected def toString : LiteralKind → String
  | integer => "integer"
  | float => "float"
  | imaginary => "imaginary"
  | angle => "angle"
  | duration => "duration"

instance : ToString LiteralKind := ⟨LiteralKind.toString⟩

end LiteralKind

/-- The units of durations. -/
inductive TimeUnit where
  /-- A sample of the backend. -/
  | dt
  | ns
  | us
  | ms
  | s
deriving DecidableEq, Repr, Inhabited

namespace TimeUnit

protected def toString : TimeUnit → String
  | dt => "dt"
  | ns => "ns"
  | us => "us"
  | ms => "ms"
  | s => "s"

instance : ToString TimeUnit := ⟨TimeUnit.toString⟩

/-- The unit that a suffix spells. Both the micro sign and the Greek mu stand for `u`. -/
def ofSuffix? (suffix : List Char) : Option TimeUnit :=
  match suffix with
  | ['d', 't'] => some dt
  | ['n', 's'] => some ns
  | ['u', 's'] | ['\u00b5', 's'] | ['\u03bc', 's'] => some us
  | ['m', 's'] => some ms
  | ['s'] => some s
  | _ => none

/-- Every unit is spelt by its own text. -/
theorem ofSuffix?_toString (unit : TimeUnit) : ofSuffix? unit.toString.toList = some unit := by
  cases unit <;> rfl

end TimeUnit

/-- A numeric literal. -/
inductive Literal where
  | integer (value : Nat)
  | float (value : Decimal)
  /-- A multiple of the imaginary unit. -/
  | imaginary (value : Decimal)
  | angle (value : Decimal)
  | duration (value : Decimal) (unit : TimeUnit)
deriving DecidableEq, Repr, Inhabited

namespace Literal

def kind : Literal → LiteralKind
  | integer _ => .integer
  | float _ => .float
  | imaginary _ => .imaginary
  | angle _ => .angle
  | duration _ _ => .duration

def unit? : Literal → Option TimeUnit
  | duration _ unit => some unit
  | _ => none

/-- The number of the literal, without its unit. -/
def decimal : Literal → Decimal
  | integer value => .ofNat value
  | float value | imaginary value | angle value | duration value _ => value

def natValue? : Literal → Option Nat
  | integer value => some value
  | _ => none

/-- The literal as an angle, if it is an integer or a float. -/
def toAngle : Literal → Literal
  | integer value => angle (.ofNat value)
  | float value => angle value
  | other => other

/-- The literal as it may be written in a program. -/
def toChars : Literal → List Char
  | integer value => Nat.toDigits 10 value
  | float value | angle value => value.toChars
  | imaginary value => value.toChars ++ ['i', 'm']
  | duration value unit => value.toChars ++ unit.toString.toList

protected def toString (literal : Literal) : String := String.ofList literal.toChars

instance : ToString Literal := ⟨Literal.toString⟩

/-- The literal as a record of its kind, its number and its unit. -/
def toJson (literal : Literal) : Json :=
  .object
    [("kind", literal.kind.toString),
     ("value", literal.decimal.toString),
     ("unit", .orNull (literal.unit?.map fun unit => .string unit.toString))]

end Literal

end OpenQasm
