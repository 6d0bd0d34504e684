import OpenQasm.Disk.Basic
import OpenQasm.Grammar.Parser
import OpenQasm.Include.Resolve

/-!
# Settings

What a run of the front end may be told: where includes are looked for, how deep programs may be
nested, and how much is reported.
-/

namespace OpenQasm

/-- What a run of the front end may be told. -/
structure Settings where
  /-- The directories in which includes are looked for after that of the including file. -/
  includePaths : List Path := []
  /-- The greatest nesting of expressions and blocks. -/
  maxDepth : Nat := 256
  /-- So many tokens after a recovery, syntax errors are not reported. -/
  suppressionWindow : Nat := 4
  /-- The greatest number of errors reported. Zero stands for any number. -/
  errorLimit : Nat := 0
  /-- Whether the built-in libraries may be included. -/
  libraries : Bool := true
deriving DecidableEq, Repr, Inhabited

/-- Why there are no settings to run with. -/
inductive SettingsError where
  /-- The file that holds them cannot be read. -/
  | unreadable (path : Path) (error : DiskError)
  /-- The file that holds them is no text. -/
  | notText (path : Path)
  /-- The document that holds them does not have their form. -/
  | malformed
  | zeroDepth
  /-- A variable of the environment that is to hold a number holds another text. -/
  | notNumber (variableName value : String)
deriving DecidableEq, Repr

def SettingsError.message : SettingsError → String
  | unreadable path error => s!"cannot read config file {path}: {error.message}"
  | notText path => s!"cannot read config file {path}: stream did not contain valid UTF-8"
  | malformed => "invalid config file"
  | zeroDepth => "invalid configuration: max_depth must be greater than 0"
  | notNumber variableName value =>
    s!"invalid configuration: {variableName} must be a non-negative integer, got `{value}`"

namespace Settings

/-- Settings must allow some nesting. -/
def validate (settings : Settings) : Except SettingsError Settings :=
  if settings.maxDepth = 0 then .error .zeroDepth else .ok settings

/-- What a parse is told, given the version of a text without one of its own. -/
def parseOptions (settings : Settings) (version : Option Version) : ParseOptions where
  maxDepth := settings.maxDepth
  suppressionWindow := settings.suppressionWindow
  defaultVersion := version

/-- Where includes are looked for. -/
def search (settings : Settings) : IncludeSearch where
  directories := settings.includePaths
  libraries := settings.libraries

protected def toString (settings : Settings) : String :=
  s!"max_depth={settings.maxDepth} suppression_window={settings.suppressionWindow} " ++
  s!"error_limit={settings.errorLimit} include_paths={settings.includePaths.length} " ++
  s!"embedded_includes={settings.libraries}"

instance : ToString Settings := ⟨Settings.toString⟩

theorem validate_eq_ok_iff {settings result : Settings} :
    settings.validate = .ok result ↔ result = settings ∧ settings.maxDepth ≠ 0 := by
  unfold validate
  split <;> simp_all [eq_comm]

end Settings

end OpenQasm
