import OpenQasm.Diagnostic.Basic
import OpenQasm.Json
import OpenQasm.Source.Map
import OpenQasm.Tree.Record

/-!
# Diagnostics as records

The JSON form of diagnostics and of their locations. Lists of labels and notes are left out where
they are empty, and so is a fix that is not there.
-/

namespace OpenQasm

def Label.toJson (label : Label) : Json :=
  .object [("span", label.span.toJson), ("message", label.message)]

def Fix.toJson (fix : Fix) : Json :=
  .object
    [("span", fix.span.toJson), ("replacement", fix.replacement), ("message", fix.message)]

def Location.toJson (location : Location) : Json :=
  .object
    [("file", location.file), ("line", location.line), ("column", location.column),
     ("offset", location.offset), ("length", location.length)]

namespace Diagnostic

/-- What is said, by field. -/
def fields (diagnostic : Diagnostic) : List (String × Json) :=
  [("severity", (toString diagnostic.severity : Json)), ("code", toString diagnostic.code),
   ("message", diagnostic.message), ("span", diagnostic.span.toJson)] ++
  (if diagnostic.labels.isEmpty then []
    else [("labels", .array (diagnostic.labels.map Label.toJson))]) ++
  (match diagnostic.fix with
    | some fix => [("fix", fix.toJson)]
    | none => []) ++
  (if diagnostic.notes.isEmpty then []
    else [("notes", .array (diagnostic.notes.map .string))])

def toJson (diagnostic : Diagnostic) : Json := .object diagnostic.fields

/-- The record with the location, which is null in no known source. -/
def toJsonAt (diagnostic : Diagnostic) (sources : SourceMap) : Json :=
  .object (diagnostic.fields ++
    [("location", .orNull ((sources.location? diagnostic.span).map Location.toJson))])

end Diagnostic

end OpenQasm
