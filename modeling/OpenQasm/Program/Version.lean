import OpenQasm.Program.Basic

/-!
# Versions of programs

A program is to begin with its version, which must be a known one.
-/

namespace OpenQasm

/-- The versions that are known: all of 2, and 3 up to 3.1. -/
def Version.isSupported (version : Version) : Bool :=
  match version.major, version.minor with
  | 2, _ => true
  | 3, none => true
  | 3, some minor => decide (minor ≤ 1)
  | _, _ => false

namespace Program

/-- What is said of a program without a version. -/
def missingVersion (entry : SourceId) : Diagnostic where
  code := .missingVersion
  span := .point entry 0
  message := "missing `OPENQASM` version declaration"
  notes := ["assuming OpenQASM 3.1"]

/-- What is said of a version that is not known. -/
def unsupportedVersion (version : Version) (span : Span) : Diagnostic where
  code := .versionMismatch
  span := span
  message := s!"unsupported OpenQASM version {version}"
  notes := ["supported versions are 2.x, 3, 3.0 and 3.1"]

/-- Report a missing or unknown version of the entry. -/
def checkVersion (program : Program) (entry : SourceId) : Program :=
  match program.leadingVersion? entry with
  | none => program.report (missingVersion entry)
  | some (version, span) =>
    if version.isSupported then program else program.report (unsupportedVersion version span)

end Program

end OpenQasm
