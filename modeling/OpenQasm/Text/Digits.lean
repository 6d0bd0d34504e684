/-!
# Numbers in digits

The values of digits in a radix, and machine words as they are written in settings and options.
-/

namespace OpenQasm.Text

/-- The value of a digit or letter as a digit, up to 35. -/
def digitValue? (c : Char) : Option Nat :=
  if '0' ≤ c ∧ c ≤ '9' then some (c.toNat - '0'.toNat)
  else if 'a' ≤ c ∧ c ≤ 'z' then some (c.toNat - 'a'.toNat + 10)
  else if 'A' ≤ c ∧ c ≤ 'Z' then some (c.toNat - 'A'.toNat + 10)
  else none

/-- Whether a character is a digit in a radix. -/
def isDigitIn (radix : Nat) (c : Char) : Bool := (digitValue? c).any (· < radix)

/-- The number that digits spell in a radix. -/
def valueIn (radix : Nat) (digits : List Char) : Nat :=
  digits.foldl (fun value c => value * radix + (digitValue? c).getD 0) 0

/-! ## Machine words -/

/-- One more than the greatest machine word: `2 ^ 64`. -/
def wordBound : Nat := 0x10000000000000000

/-- A machine word from its digits in a radix. -/
def digits? (radix : Nat) (text : List Char) : Option Nat :=
  if !text.isEmpty && text.all (isDigitIn radix) && decide (valueIn radix text < wordBound) then
    some (valueIn radix text)
  else none

/-- A machine word in decimal digits. A plus sign may stand before them. -/
def word? : List Char → Option Nat
  | '+' :: text => digits? 10 text
  | text => digits? 10 text

theorem digits?_lt {radix n : Nat} {text : List Char} (h : digits? radix text = some n) :
    n < wordBound := by
  unfold digits? at h
  split at h <;> simp_all

end OpenQasm.Text
