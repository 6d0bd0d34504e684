/-!
# Ranges of characters

A property of characters is given by the ranges of code points that have it, both ends included.
The characters whose UTF-8 form begins with the same byte are a range too, so that a reader of
bytes, who knows a first byte only, can tell which properties are still open.
-/

namespace OpenQasm.Text

/-- Ranges of code points, each with its first and its last member. -/
abbrev Ranges := List (Nat × Nat)

/-- Whether the code point of `c` lies in one of the ranges. -/
def Ranges.has (ranges : Ranges) (c : Char) : Bool :=
  ranges.any fun range => range.1 ≤ c.toNat && c.toNat ≤ range.2

theorem Ranges.has_iff {ranges : Ranges} {c : Char} :
    ranges.has c = true ↔ ∃ range ∈ ranges, range.1 ≤ c.toNat ∧ c.toNat ≤ range.2 := by
  simp [Ranges.has, List.any_eq_true]

/-- Whether a code point lies both in one of the ranges and between two bounds. -/
def Ranges.meets (ranges : Ranges) (bounds : Nat × Nat) : Bool :=
  ranges.any fun range => range.1 ≤ bounds.2 && bounds.1 ≤ range.2

/-- The number of code points that share a first byte, and the least code point that is written
with as many bytes. -/
def leadSpan (c : Char) : Nat × Nat :=
  if c.toNat < 0x80 then (1, 0)
  else if c.toNat < 0x800 then (0x40, 0x80)
  else if c.toNat < 0x10000 then (0x1000, 0x800)
  else (0x40000, 0x10000)

/-- The first and the last code point of those whose UTF-8 form begins like that of `c`. -/
def leadBlock (c : Char) : Nat × Nat :=
  let (size, least) := leadSpan c
  let first := c.toNat / size * size
  (max first least, first + (size - 1))

end OpenQasm.Text
