import OpenQasm.Diagnostic.Basic
import OpenQasm.Source.Map

/-!
# Reports on one line

A diagnostic with its location in the form in which tools read it.
-/

namespace OpenQasm.Diagnostic

/-- One line with the location: `file:line:column: error[Q0101]: message`. A location that is in no
source is left out. -/
def line (diagnostic : Diagnostic) (sources : SourceMap) : String :=
  match sources.location? diagnostic.span with
  | some place => s!"{place.file}:{place.line}:{place.column}: {diagnostic}"
  | none => toString diagnostic

/-- The form of a diagnostic whose location is in no source: `error[Q0101]: message at span`. -/
def plain (diagnostic : Diagnostic) : String := s!"{diagnostic} at {diagnostic.span}\n"

end OpenQasm.Diagnostic
