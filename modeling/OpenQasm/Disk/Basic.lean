import OpenQasm.Path
import OpenQasm.Text.Utf8

/-!
# Disks

What may be asked of a disk, and how it may refuse. A disk answers in a monad of its own, so that
the same programs run on a real disk and on a tree of files.
-/

namespace OpenQasm

/-- Why a disk does not give a file. -/
inductive DiskError where
  | notFound
  | notDirectory
  | isDirectory
  /-- No path may hold a null character. -/
  | nullInPath
  | nameTooLong
  /-- Symbolic links lead to links without an end. -/
  | tooManyLinks
  /-- Anything else, with its number and its description. -/
  | other (number : Nat) (description : String)
deriving DecidableEq, Repr

/-- The description with the number that systems give the error. -/
def DiskError.message : DiskError → String
  | notFound => "No such file or directory (os error 2)"
  | notDirectory => "Not a directory (os error 20)"
  | isDirectory => "Is a directory (os error 21)"
  | nullInPath => "file name contained an unexpected NUL byte"
  | nameTooLong => "File name too long (os error 36)"
  | tooManyLinks => "Too many levels of symbolic links (os error 40)"
  | other number description => s!"{description} (os error {number})"

/-- What may be asked of a disk. -/
structure Disk (m : Type → Type) where
  /-- Whether a path leads to a file that is no directory. -/
  isFile : Path → m Bool
  /-- The absolute path of a file without links on its way, or the path itself if it leads to
  nothing. -/
  canonical : Path → m Path
  /-- The bytes of a file. -/
  read : Path → m (Except DiskError (List UInt8))

end OpenQasm
