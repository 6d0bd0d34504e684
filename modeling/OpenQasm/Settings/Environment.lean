import OpenQasm.Settings.Basic
import OpenQasm.Text.Blank
import OpenQasm.Text.Digits

/-!
# Settings in the environment

Variables of the environment override settings. Directories for includes are added after those
that are set already.
-/

namespace OpenQasm.Settings

/-- The variable with directories for includes, separated by colons. -/
def includePathVariable : String := "QFRONT_INCLUDE_PATH"

def maxDepthVariable : String := "QFRONT_MAX_DEPTH"

def errorLimitVariable : String := "QFRONT_ERROR_LIMIT"

/-- The directories named in a list. Empty names are left out. -/
def directories (list : String) : List Path :=
  ((Text.fields ':' list.toList).filter (!·.isEmpty)).map fun name => ⟨String.ofList name⟩

/-- The number that a variable holds, perhaps between blanks. -/
def variableNumber (variableName value : String) : Except SettingsError Nat :=
  match Text.word? (Text.trim value.toList) with
  | some n => .ok n
  | none => .error (.notNumber variableName value)

/-- A number, unless a variable overrides it. -/
def overridden (environment : String → Option String) (variableName : String) (number : Nat) :
    Except SettingsError Nat :=
  match environment variableName with
  | some value => variableNumber variableName value
  | none => .ok number

/-- The settings with the overrides from the environment. They must be valid then. -/
def withEnvironment (settings : Settings) (environment : String → Option String) :
    Except SettingsError Settings := do
  let added := match environment includePathVariable with
    | some list => directories list
    | none => []
  let maxDepth ← overridden environment maxDepthVariable settings.maxDepth
  let errorLimit ← overridden environment errorLimitVariable settings.errorLimit
  let settings := { settings with
    includePaths := settings.includePaths ++ added, maxDepth, errorLimit }
  settings.validate

end OpenQasm.Settings
