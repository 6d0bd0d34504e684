import OpenQasm.Source.File

/-!
# Source maps

The registry of all sources of a compilation. Ids are handed out in the order of registration.
-/

namespace OpenQasm

/-- Where a span begins, as shown to a reader. -/
structure Location where
  file : String
  line : Nat
  column : Nat
  /-- Bytes before the span. -/
  offset : Nat
  /-- Bytes in the span. -/
  length : Nat
deriving DecidableEq, Repr

/-- All sources of a compilation. -/
structure SourceMap where
  files : Array SourceFile := #[]
deriving Repr, Inhabited

namespace SourceMap

/-- Register a text under a name. -/
def insert (map : SourceMap) (name : String) (path : Option Path) (text : String) :
    SourceId × SourceMap :=
  let id := SourceId.ofNat map.files.size
  (id, ⟨map.files.push (.ofText id name path text)⟩)

/-- Register a text that does not stem from a file. -/
def add (map : SourceMap) (name text : String) : SourceId × SourceMap := map.insert name none text

/-- Register the text of a file under its path. -/
def addFile (map : SourceMap) (path : Path) (text : String) : SourceId × SourceMap :=
  map.insert path.text (some path) text

def get? (map : SourceMap) (id : SourceId) : Option SourceFile := map.files[id.index]?

def size (map : SourceMap) : Nat := map.files.size

/-- The text of a source, empty for an unknown id. -/
def text (map : SourceMap) (id : SourceId) : String :=
  match map.get? id with
  | some file => file.text
  | none => ""

/-- The text that a span covers. -/
def snippet? (map : SourceMap) (span : Span) : Option String := do
  let file ← map.get? span.source
  let text ← Text.slice? file.text.toList span.start span.stop
  return String.ofList text

/-- The first source that was read from a path. -/
def findPath? (map : SourceMap) (path : Path) : Option SourceId :=
  (map.files.find? fun file => file.path.any (·.same path)).map (·.id)

def location? (map : SourceMap) (span : Span) : Option Location := do
  let file ← map.get? span.source
  let (line, column) := file.lineColumn span.start
  return { file := file.name, line, column, offset := span.start, length := span.length }

end SourceMap

end OpenQasm
