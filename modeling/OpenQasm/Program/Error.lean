import OpenQasm.Settings.Basic

/-!
# Programs that are not compiled

What is wrong with the text of a program is reported by diagnostics. Here are the reasons for which
there is no text to report on.
-/

namespace OpenQasm

/-- Why a program is not compiled. -/
inductive CompileError where
  | unreadable (path : Path) (error : DiskError)
  /-- The bytes of a file are no text, from an offset on. -/
  | notText (path : Path) (offset : Nat)
  /-- A source has more bytes than offsets can count. -/
  | tooLarge (name : String) (size : Nat)
  | settings (error : SettingsError)
  | crash (crash : Crash)
deriving DecidableEq, Repr

def CompileError.message : CompileError → String
  | unreadable path error => s!"cannot read {path}: {error.message}"
  | notText path offset => s!"{path} is not valid UTF-8 (invalid byte at offset {offset})"
  | tooLarge name size => s!"{name} is too large ({size} bytes, limit is {maxOffset} bytes)"
  | settings error => error.message
  | crash c => c.message

end OpenQasm
