import OpenQasm.Command.Help
import OpenQasm.Diagnostic.Record
import OpenQasm.Program.Compilation
import OpenQasm.Report.Page
import OpenQasm.Settings.Environment
import OpenQasm.Settings.Reader
import OpenQasm.Text.Control
import OpenQasm.Tree.Outline
import OpenQasm.Tree.Record

/-!
# Running commands

What a command prints and how it ends. Results are printed on the output, and reports and the
reason of a failure on the side.
-/

namespace OpenQasm

/-- A text on one of the two ways out, without its last line end. -/
inductive Printed where
  | output (text : String)
  | aside (text : String)
deriving DecidableEq, Repr

/-- All that a run prints, and its exit code. -/
structure Outcome where
  printed : List Printed := []
  code : Nat := 0
deriving DecidableEq, Repr

/-- Why a command fails. -/
inductive CommandError where
  /-- The file with the settings cannot be used. -/
  | settingsFile (path : Path)
  | settings (error : SettingsError)
  | notCompiled (path : Path)
  /-- The program has errors, and so many. -/
  | programErrors (path : Path) (count : Nat)
  /-- So many of so many programs have errors. -/
  | failedPrograms (failed total : Nat)
deriving DecidableEq, Repr

def CommandError.message : CommandError → String
  | settingsFile path => s!"Failed to load config: {path}"
  | settings error => error.message
  | notCompiled path => s!"Failed to compile {path}"
  | programErrors path count =>
    s!"{path} produced {count} error" ++ if count = 1 then "" else "s"
  | failedPrograms failed total => s!"{failed} of {total} file(s) failed"

namespace Outcome

/-- The end of a run that failed. -/
def failed (printed : List Printed) (error : CommandError) : Outcome where
  printed := printed ++ [.aside ("Error: " ++ error.message)]
  code := 1

/-- The end of a run that crashed. -/
def crashed (printed : List Printed) : Outcome where
  printed := printed
  code := 101

end Outcome

namespace Command

/-! ## Settings -/

/-- The settings with what overrides them. Directories that are given come first. They must be
valid then. -/
def applyOverrides (settings : Settings) (overrides : Overrides) :
    Except SettingsError Settings :=
  Settings.validate
    { settings with
      includePaths := overrides.includePaths ++ settings.includePaths
      errorLimit := overrides.errorLimit.getD settings.errorLimit
      maxDepth := overrides.maxDepth.getD settings.maxDepth
      libraries := settings.libraries && !overrides.noLibraries }

section
variable {m : Type → Type} [Monad m] (disk : Disk m) (environment : String → Option String)

/-- The settings that a run starts from: those in the file, if one is named. -/
def baseSettings (overrides : Overrides) : m (Except CommandError Settings) := do
  match overrides.settingsFile with
  | none => return .ok {}
  | some path => return (← Settings.ofFile disk path).mapError fun _ => .settingsFile path

/-- The settings of a run: from the file, then from the environment, then from what is given. -/
def settings (overrides : Overrides) : m (Except CommandError Settings) := do
  match ← baseSettings disk overrides with
  | .error error => return .error error
  | .ok base =>
    let settings := (base.withEnvironment environment).bind (applyOverrides · overrides)
    return settings.mapError .settings

/-! ## Parsing -/

/-- A compilation as a record. -/
def record (compilation : Compilation) : Json :=
  let names := compilation.sources.files.toList.map SourceFile.name
  let file := ((compilation.sources.get? compilation.entry).map SourceFile.name).getD ""
  .object
    [("file", file), ("files", .array (names.map .string)), ("ast", compilation.tree.toJson),
     ("diagnostics",
      .array (compilation.diagnostics.map fun d => d.toJsonAt compilation.sources))]

/-- The reports on all diagnostics with their count, if there are any. -/
def reports (compilation : Compilation) : List Printed :=
  let errors := compilation.errorCount
  let others := compilation.diagnostics.length - errors
  if compilation.diagnostics.isEmpty then []
  else
    [.aside (Diagnostic.pages compilation.diagnostics compilation.sources),
     .aside s!"→ {errors} error(s), {others} other diagnostic(s)"]

/-- What is printed of a compilation. -/
def present (compilation : Compilation) : OutputFormat → List Printed
  | .tree => compilation.tree.outline.map .output ++ reports compilation
  | .json => [.output ((record compilation).pretty 0)]
  | .diagnostics => reports compilation
  | .short => compilation.diagnostics.map fun d => .output (d.line compilation.sources)

/-- Print a program. -/
def runParse (input : Path) (format : OutputFormat) (settings : Settings) : m Outcome := do
  match ← (compile disk settings input).run with
  | .error (.crash _) => return .crashed []
  | .error _ => return .failed [] (.notCompiled input)
  | .ok compilation =>
    let printed := present compilation format
    if compilation.errorCount = 0 then return { printed }
    else return .failed printed (.programErrors input compilation.errorCount)

/-! ## Checking -/

/-- Whether a program was compiled without errors. -/
def isClean : Except CompileError Compilation → Bool
  | .ok compilation => !compilation.hasErrors
  | .error _ => false

/-- Whether the compilation of a program crashed. -/
def isCrash : Except CompileError Compilation → Bool
  | .error (.crash _) => true
  | _ => false

/-- What is said of one program. -/
def verdict (input : Path) : Except CompileError Compilation → List Printed
  | .error error => [.output s!"  ✗ {input}: {error.message}"]
  | .ok compilation =>
    let pages := Diagnostic.pages compilation.diagnostics compilation.sources
    let count := compilation.diagnostics.length
    if compilation.hasErrors then
      [.output s!"  ✗ {input} ({compilation.errorCount} error(s))", .aside pages]
    else
      .output s!"  ✓ {input} ({compilation.sources.size} file(s), {count} warning(s))" ::
        if count = 0 then [] else [.aside pages]

/-- Check programs, each on its own. -/
def runCheck (inputs : List Path) (settings : Settings) : m Outcome := do
  let results ← compileAll disk settings inputs
  let start := Printed.output s!"→ Checking {inputs.length} file(s)"
  if results.any isCrash then return .crashed [start]
  let verdicts := (inputs.zip results).flatMap fun (input, result) => verdict input result
  let failed := results.countP (!isClean ·)
  if failed = 0 then
    return { printed := start :: verdicts ++ [.output "✓ All files passed"] }
  else return .failed (start :: verdicts) (.failedPrograms failed inputs.length)

end

/-! ## Texts about the program -/

def versionNumber : String := "0.3.0"

/-- What the command `version` prints. -/
def versionLines : List String :=
  [s!"qfront v{versionNumber} - error-recovering OpenQASM 2/3 front-end",
   "",
   "Components:",
   "  qfront-diag    Spans, source maps and diagnostics",
   "  qfront-ast     Arena syntax tree and exact literals",
   "  qfront-parser  Lexer and recovering parser",
   "  qfront-driver  Includes, version checks, merging",
   "  qfront-cli     Command-line interface",
   "",
   "Supported:  OpenQASM 2.x, 3.0, 3.1",
   "License:    Apache-2.0"]

/-- The end of a run without a command. -/
def refused (environment : String → Option String) : Refusal → Outcome
  | .misuse =>
    { printed := [.aside "usage: qfront [OPTIONS] <COMMAND> (see qfront --help)"], code := 2 }
  | .help scope form =>
    let lines := (scope.page environment form).lines form
    { printed := [.output (Text.printed ("\n".intercalate lines))] }
  | .version => { printed := [.output s!"qfront {versionNumber}"] }

/-! ## Runs -/

section
variable {m : Type → Type} [Monad m] (disk : Disk m) (environment : String → Option String)

/-- Run a program with the settings of a command. -/
def withSettings (overrides : Overrides) (run : Settings → m Outcome) : m Outcome := do
  match ← settings disk environment overrides with
  | .ok settings => run settings
  | .error error => return .failed [] error

/-- Run a command. -/
def run : Command → m Outcome
  | parse input format overrides =>
    withSettings disk environment overrides (runParse disk input format)
  | check inputs overrides => withSettings disk environment overrides (runCheck disk inputs)
  | version => return { printed := versionLines.map .output }

/-- Run the command that words make. -/
def runWords (words : List String) : m Outcome :=
  match ofArguments environment words with
  | .ok command => run disk environment command
  | .error refusal => return refused environment refusal

end

end Command

end OpenQasm
