/-!
# Exact decimals

A decimal is `mantissa * 10 ^ exponent`. It is kept in normal form: a mantissa without trailing
zeros, and zero as `0 * 10 ^ 0`. So two decimals are equal exactly when their values are.
-/

namespace OpenQasm

/-- An exact decimal number. -/
structure Decimal where
  mantissa : Int
  exponent : Int
deriving DecidableEq, Repr, Inhabited

namespace Decimal

/-- Move the trailing zeros of a positive number into an exponent. -/
def stripZeros (magnitude : Nat) (exponent : Int) : Nat × Int :=
  if h : 0 < magnitude ∧ magnitude % 10 = 0 then stripZeros (magnitude / 10) (exponent + 1)
  else (magnitude, exponent)
termination_by magnitude
decreasing_by omega

/-- The decimal with the value `mantissa * 10 ^ exponent`. -/
def ofScaled (mantissa exponent : Int) : Decimal :=
  if mantissa = 0 then ⟨0, 0⟩
  else
    let (magnitude, exponent) := stripZeros mantissa.natAbs exponent
    ⟨mantissa.sign * magnitude, exponent⟩

def zero : Decimal := ⟨0, 0⟩

def ofNat (n : Nat) : Decimal := ofScaled n 0

def isZero (d : Decimal) : Bool := d.mantissa == 0

/-- A decimal in normal form is whole when its exponent is not negative. -/
def isIntegral (d : Decimal) : Bool := 0 ≤ d.exponent

/-- The greatest exponent whose power of ten is written out. -/
def maxExpanded : Nat := 100000

/-- The exact value, if the exponent is small enough to write its power of ten out. -/
def toRat? (d : Decimal) : Option Rat :=
  if d.exponent.natAbs ≤ maxExpanded then
    let power := Nat.pow 10 d.exponent.natAbs
    some (if 0 ≤ d.exponent then mkRat (d.mantissa * power) 1 else mkRat d.mantissa power)
  else none

/-- The digits of a decimal fraction with `places` digits after the point. -/
def positional (digits : List Char) (places : Nat) : List Char :=
  if places < digits.length then
    digits.take (digits.length - places) ++ '.' :: digits.drop (digits.length - places)
  else '0' :: '.' :: (List.replicate (places - digits.length) '0' ++ digits)

/-- The greatest exponent that is written out as zeros. -/
def maxZeros : Int := 6

/-- The greatest number of digits after the point in a positional form. -/
def maxPlaces : Int := 30

/-- The exact value in digits: positional for moderate exponents, else with an exponent. -/
def toChars (d : Decimal) : List Char :=
  let sign := if d.mantissa < 0 then ['-'] else []
  let digits := Nat.toDigits 10 d.mantissa.natAbs
  if 0 ≤ d.exponent ∧ d.exponent ≤ maxZeros then
    sign ++ digits ++ List.replicate d.exponent.natAbs '0'
  else if -maxPlaces ≤ d.exponent ∧ d.exponent < 0 then
    sign ++ positional digits d.exponent.natAbs
  else
    sign ++ digits ++ 'e' :: (if d.exponent < 0 then ['-'] else []) ++
      Nat.toDigits 10 d.exponent.natAbs

protected def toString (d : Decimal) : String := String.ofList d.toChars

instance : ToString Decimal := ⟨Decimal.toString⟩

end Decimal

end OpenQasm
