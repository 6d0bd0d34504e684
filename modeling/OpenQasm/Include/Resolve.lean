import OpenQasm.Disk.Basic
import OpenQasm.Include.Library

/-!
# Where includes lead

A relative name is looked for in the directory of the including file first, and then in each of
the search directories. An absolute name is looked for where it points. What is not found on the
disk may be a built-in library.
-/

namespace OpenQasm

/-- Where the name of an include statement leads. -/
inductive Resolution where
  /-- To a file, by its canonical path. -/
  | file (path : Path)
  | library (library : Library)
  | notFound
deriving DecidableEq, Repr

/-- Where includes are looked for. -/
structure IncludeSearch where
  directories : List Path := []
  /-- Whether the built-in libraries are a last resort. -/
  libraries : Bool := true
deriving DecidableEq, Repr

namespace IncludeSearch

section
variable {m : Type → Type} [Monad m] (disk : Disk m)

/-- The first path that leads to a file. -/
def firstFile? : List Path → m (Option Path)
  | [] => return none
  | path :: paths => do
    if ← disk.isFile path then return some path
    firstFile? paths

/-- The paths that a name may stand for, seen from the directory of the including file. -/
def candidates (search : IncludeSearch) (directory : Option Path) (name : Path) : List Path :=
  if name.isAbsolute then [name]
  else (directory.toList ++ search.directories).map (·.join name)

/-- The built-in library of a name, if there is one and it may be used. -/
def library? (search : IncludeSearch) (name : String) : Option Library :=
  if search.libraries then Library.find? name else none

/-- Where the name leads, seen from the directory of the including file. -/
def resolve (search : IncludeSearch) (directory : Option Path) (name : String) : m Resolution := do
  if name.isEmpty then return .notFound
  match ← firstFile? disk (search.candidates directory ⟨name⟩) with
  | some path => return .file (← disk.canonical path)
  | none =>
    match search.library? name with
    | some library => return .library library
    | none => return .notFound

end

end IncludeSearch

end OpenQasm
