import OpenQasm.Text.Fields

/-!
# Paths

A path is a text cut into parts by slashes. Two paths name the same place when their parts agree,
however many slashes stand between them.
-/

namespace OpenQasm

/-- The name of a place in a file system. -/
structure Path where
  text : String
deriving DecidableEq, Repr, Inhabited

namespace Path

/-- One part of a path. -/
inductive Part where
  /-- The slash that begins an absolute path. -/
  | root
  /-- The directory at hand: a single dot. -/
  | here
  /-- The directory above: two dots. -/
  | up
  | name (text : String)
deriving DecidableEq, Repr

protected def toString (path : Path) : String := path.text

instance : ToString Path := ⟨Path.toString⟩

/-- An absolute path begins with a slash. -/
def isAbsolute (path : Path) : Bool := path.text.toList.head? == some '/'

def isEmpty (path : Path) : Bool := path.text.isEmpty

/-- The part that the text between two slashes stands for. A dot is none. -/
def part? (piece : List Char) : Option Part :=
  match piece with
  | [] | ['.'] => none
  | ['.', '.'] => some .up
  | piece => some (.name (String.ofList piece))

/-- The parts of a path. A dot counts only at the start of a relative path. -/
def parts (path : Path) : List Part :=
  let pieces := Text.fields '/' path.text.toList
  let first :=
    if path.isAbsolute then [Part.root] else if pieces.head? = some ['.'] then [Part.here] else []
  first ++ pieces.filterMap part?

/-- Whether two paths have the same parts. -/
def same (a b : Path) : Bool := a.parts == b.parts

/-- The text of one part. -/
def Part.text : Part → String
  | root => "/"
  | here => "."
  | up => ".."
  | name text => text

/-- The path with the given parts. -/
def ofParts : List Part → Path
  | .root :: parts => ⟨"/" ++ "/".intercalate (parts.map Part.text)⟩
  | parts => ⟨"/".intercalate (parts.map Part.text)⟩

/-- The path without its last part. The root and the empty path have none. -/
def parent? (path : Path) : Option Path :=
  match path.parts.reverse with
  | [] | [.root] => none
  | _ :: before => some (ofParts before.reverse)

/-- The place that a relative path names as seen from `directory`. An absolute path stays. -/
def join (directory path : Path) : Path :=
  if path.isAbsolute || directory.isEmpty then path
  else if directory.text.toList.getLast? = some '/' then ⟨directory.text ++ path.text⟩
  else ⟨directory.text ++ "/" ++ path.text⟩

end Path

end OpenQasm
