import OpenQasm.Diagnostic.Code
import OpenQasm.Span

/-!
# Diagnostics

A located error, warning or note, with further locations, a suggested replacement and remarks.
-/

namespace OpenQasm

/-- A further location, such as that of an earlier declaration. -/
structure Label where
  span : Span
  message : String
deriving DecidableEq, Repr, Inhabited

/-- A replacement suggested for a span of text. -/
structure Fix where
  span : Span
  replacement : String
  message : String
deriving DecidableEq, Repr, Inhabited

/-- A located error, warning or note. -/
structure Diagnostic where
  code : Code
  /-- The primary location. -/
  span : Span
  message : String
  severity : Severity := code.severity
  labels : List Label := []
  fix : Option Fix := none
  notes : List String := []
deriving DecidableEq, Repr, Inhabited

namespace Diagnostic

def isError (diagnostic : Diagnostic) : Bool := diagnostic.severity == .error

/-- One line without the location: `error[Q0101]: message`. -/
protected def toString (diagnostic : Diagnostic) : String :=
  s!"{diagnostic.severity}[{diagnostic.code}]: {diagnostic.message}"

instance : ToString Diagnostic := ⟨Diagnostic.toString⟩

/-- Two diagnostics that agree here say the same. -/
def identity (diagnostic : Diagnostic) : Code × Span × String :=
  (diagnostic.code, diagnostic.span, diagnostic.message)

end Diagnostic

end OpenQasm
