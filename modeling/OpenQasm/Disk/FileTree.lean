import OpenQasm.Disk.Basic

/-!
# Trees of files

A disk as a value: the entries at absolute places, with a working directory. Directories above an
entry are there without being listed. Paths are followed part by part, symbolic links included.
-/

namespace OpenQasm

/-- An absolute place: the names from the root down. -/
abbrev Place := List String

/-- What may stand at a place. -/
inductive Entry where
  | file (bytes : List UInt8)
  | directory
  /-- A symbolic link. -/
  | link (target : Path)
deriving DecidableEq, Repr

/-- A disk as a value. -/
structure FileTree where
  entries : List (Place × Entry) := []
  /-- The place from which relative paths lead. -/
  workingDirectory : Place := []
deriving Repr

namespace FileTree

/-- The greatest number of bytes in a name. -/
def maxNameWidth : Nat := 255

/-- The greatest number of bytes in a path. -/
def maxPathWidth : Nat := 4095

/-- The greatest number of symbolic links on the way to a file. -/
def maxLinks : Nat := 40

/-- What stands at a place. -/
def entry? (tree : FileTree) (place : Place) : Option Entry :=
  match tree.entries.lookup place with
  | some entry => some entry
  | none =>
    let above := fun (p : Place) => place.isPrefixOf p
    if above tree.workingDirectory || tree.entries.any fun (p, _) => above p then some .directory
    else none

def isDirectory (tree : FileTree) (place : Place) : Bool := tree.entry? place == some .directory

/-- The names and dots between the slashes of a path. An empty piece asks for a directory, as a
single dot does. -/
def pieces (path : Path) : List (List Char) := Text.fields '/' path.text.toList

/-- The place above. The root is above itself. -/
def above (place : Place) : Place := place.dropLast

/-- Follow the pieces of a path from a place until a symbolic link is met or nothing is left: the
place reached, with the target of the link and the pieces after it. -/
def follow (tree : FileTree) :
    Place → List (List Char) → Except DiskError (Place × Option (Path × List (List Char)))
  | place, [] => .ok (place, none)
  | place, piece :: rest =>
    if !tree.isDirectory place then .error .notDirectory
    else
      match Path.part? piece with
      | none | some .root | some .here => follow tree place rest
      | some .up => follow tree (above place) rest
      | some (.name name) =>
        if maxNameWidth < Text.width piece then .error .nameTooLong
        else
          match tree.entry? (place ++ [name]) with
          | none => .error .notFound
          | some (.link target) => .ok (place, some (target, rest))
          | some _ => follow tree (place ++ [name]) rest

/-- Where a path begins. -/
def startOf (path : Path) (place : Place) : Place := if path.isAbsolute then [] else place

/-- Follow pieces from a place through at most so many symbolic links. -/
def followLinks (tree : FileTree) :
    Nat → Place → List (List Char) → Except DiskError Place
  | links, place, rest => do
    match ← tree.follow place rest with
    | (place, none) => return place
    | (place, some (target, rest)) =>
      match links with
      | 0 => throw .tooManyLinks
      | links + 1 => tree.followLinks links (startOf target place) (pieces target ++ rest)

/-- The place that a path leads to. -/
def locate (tree : FileTree) (path : Path) : Except DiskError Place :=
  if path.text.toList.contains '\x00' then .error .nullInPath
  else if path.isEmpty then .error .notFound
  else if maxPathWidth < Text.width path.text.toList then .error .nameTooLong
  else tree.followLinks maxLinks (startOf path tree.workingDirectory) (pieces path)

/-- The absolute path of a place. -/
def pathOf (place : Place) : Path := .ofParts (.root :: place.map .name)

def isFile (tree : FileTree) (path : Path) : Bool :=
  match tree.locate path with
  | .ok place =>
    match tree.entry? place with
    | some (.file _) => true
    | _ => false
  | .error _ => false

def canonical (tree : FileTree) (path : Path) : Path :=
  match tree.locate path with
  | .ok place => pathOf place
  | .error _ => path

def read (tree : FileTree) (path : Path) : Except DiskError (List UInt8) := do
  let place ← tree.locate path
  match tree.entry? place with
  | some (.file bytes) => return bytes
  | some _ => throw .isDirectory
  | none => throw .notFound

/-- The tree as a disk. -/
def disk (tree : FileTree) : Disk Id where
  isFile path := tree.isFile path
  canonical path := tree.canonical path
  read path := tree.read path

/-- Put an entry at a place. -/
def insert (tree : FileTree) (place : Place) (entry : Entry) : FileTree :=
  { tree with entries := (place, entry) :: tree.entries }

/-- Every file that can be read is one, and its bytes are those at its place. -/
theorem isFile_of_read {tree : FileTree} {path : Path} {bytes : List UInt8}
    (h : tree.read path = .ok bytes) : tree.isFile path = true := by
  unfold read at h
  unfold isFile
  cases hplace : tree.locate path with
  | error e => simp [hplace, bind, Except.bind] at h
  | ok place =>
    simp only [hplace, bind, Except.bind] at h
    cases hentry : tree.entry? place with
    | none => simp [hentry, throw, throwThe, MonadExceptOf.throw] at h
    | some entry =>
      cases entry with
      | file _ => simp [hentry]
      | directory => simp [hentry, throw, throwThe, MonadExceptOf.throw] at h
      | link _ => simp [hentry, throw, throwThe, MonadExceptOf.throw] at h

end FileTree

end OpenQasm
