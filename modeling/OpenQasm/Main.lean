import OpenQasm.Command.Run

/-!
# The program

Asks the real disk and the real environment, and prints what a run prints.
-/

namespace OpenQasm

/-- What a refusal of the system means. -/
def DiskError.ofSystem : IO.Error → DiskError
  | .noFileOrDirectory .. => .notFound
  | .inappropriateType _ code details | .permissionDenied _ code details |
    .noSuchThing _ code details | .resourceExhausted _ code details |
    .invalidArgument _ code details | .interrupted _ code details =>
    .other code.toNat details
  | .otherError code details | .hardwareFault code details | .resourceBusy code details |
    .unsupportedOperation code details =>
    .other code.toNat details
  | error => .other 0 (toString error)

/-- The disk of the system. -/
def systemDisk : Disk IO where
  isFile path := do
    try
      let place ← IO.FS.realPath path.text
      return (← place.metadata).type matches .file
    catch _ => return false
  canonical path := do
    try
      return ⟨(← IO.FS.realPath path.text).toString⟩
    catch _ => return path
  read path := do
    try
      return .ok (← IO.FS.readBinFile path.text).toList
    catch error => return .error (.ofSystem error)

/-- The variables of the environment that a run asks for. -/
def systemVariables : IO (String → Option String) := do
  let names :=
    [Command.settingsVariable, Settings.includePathVariable, Settings.maxDepthVariable,
     Settings.errorLimitVariable]
  let table ← names.mapM fun name => do return (name, ← IO.getEnv name)
  return fun name => (table.lookup name).join

/-- Print on the way out that a text is meant for. -/
def Printed.emit : Printed → IO Unit
  | output text => IO.println text
  | aside text => IO.eprintln text

end OpenQasm

open OpenQasm in
def main (words : List String) : IO UInt32 := do
  let outcome ← Command.runWords systemDisk (← systemVariables) words
  outcome.printed.forM Printed.emit
  return outcome.code.toUInt32
