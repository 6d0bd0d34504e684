/-!
# Sources and spans

A span is a half-open range of bytes in one source. Offsets and ids are held below `2 ^ 32`: a
larger number is cut down to the greatest one.
-/

namespace OpenQasm

/-- The greatest offset, and the greatest id. -/
def maxOffset : Nat := 0xFFFFFFFF

/-- The number of a source in its registry. The entry of a compilation is source 0. -/
structure SourceId where
  index : Nat
deriving DecidableEq, Repr, Inhabited

namespace SourceId

/-- The id numbered `n`, or the greatest one. -/
def ofNat (n : Nat) : SourceId := ⟨min n maxOffset⟩

protected def toString (id : SourceId) : String := s!"src{id.index}"

instance : ToString SourceId := ⟨SourceId.toString⟩

end SourceId

/-- A half-open range of bytes in a source. -/
structure Span where
  source : SourceId
  start : Nat
  stop : Nat
deriving DecidableEq, Repr, Inhabited

namespace Span

/-- The span of a range of bytes, its ends cut down to the greatest offset. -/
def ofRange (source : SourceId) (start stop : Nat) : Span :=
  ⟨source, min start maxOffset, min stop maxOffset⟩

/-- The empty span at an offset. -/
def point (source : SourceId) (offset : Nat) : Span := ⟨source, offset, offset⟩

/-- The number of bytes in the span. -/
def length (span : Span) : Nat := span.stop - span.start

def isEmpty (span : Span) : Bool := span.start == span.stop

/-- Whether `other` lies inside the span, in the same source. -/
def contains (span other : Span) : Bool :=
  span.source == other.source && span.start ≤ other.start && other.stop ≤ span.stop

/-- Whether the two spans share a byte. -/
def overlaps (span other : Span) : Bool :=
  span.source == other.source && span.start < other.stop && other.start < span.stop

/-- The least span that covers both. Spans of two sources cannot be joined: the first one stays. -/
def join (span other : Span) : Span :=
  if span.source = other.source then
    ⟨span.source, min span.start other.start, max span.stop other.stop⟩
  else span

protected def toString (span : Span) : String := s!"{span.source}:{span.start}..{span.stop}"

instance : ToString Span := ⟨Span.toString⟩

/-- A span contains those of its source that start and end within it. -/
theorem contains_iff {span other : Span} :
    span.contains other = true ↔
      span.source = other.source ∧ span.start ≤ other.start ∧ other.stop ≤ span.stop := by
  simp [contains, and_assoc]

theorem contains_self (span : Span) : span.contains span = true := by simp [contains]

/-- A join covers both spans of one source. -/
theorem join_contains {span other : Span} (h : span.source = other.source) :
    (span.join other).contains span ∧ (span.join other).contains other := by
  simp only [contains_iff, join, if_pos h]
  simp only [h, true_and]
  omega

/-- The order of spans in reports: by source, then by start, then by end. -/
def before (a b : Span) : Bool :=
  if a.source.index = b.source.index then
    if a.start = b.start then a.stop ≤ b.stop else a.start < b.start
  else a.source.index < b.source.index

/-- Spans are ordered by source, then by start, then by end. -/
theorem before_iff {a b : Span} : a.before b = true ↔
    a.source.index < b.source.index ∨ a.source.index = b.source.index ∧
      (a.start < b.start ∨ a.start = b.start ∧ a.stop ≤ b.stop) := by
  simp only [before]
  split
  · split <;> simp <;> omega
  · simp; omega

theorem before_total (a b : Span) : a.before b || b.before a := by
  rw [Bool.or_eq_true, before_iff, before_iff]
  omega

theorem before_trans {a b c : Span} (hab : a.before b) (hbc : b.before c) : a.before c := by
  rw [before_iff] at *
  omega

end Span

end OpenQasm
