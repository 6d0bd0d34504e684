import OpenQasm.Command.Basic
import OpenQasm.Text.Digits
import OpenQasm.Text.Fields

/-!
# Arguments

A command as it is given by the words after the name of the program: its name, options in long and
short forms, and the paths of files. The value of an option stands in the next word, or in the same
one: after an equals sign or, in the short form, directly. Short options without values may be
written together. After two dashes all words are paths.
-/

namespace OpenQasm

/-- The options that some command has. -/
inductive CommandOption where
  | format
  | includePath
  | settingsFile
  | errorLimit
  | maxDepth
  | noLibraries
  | noColor
  | verbose
  /-- Asks for help in full. -/
  | help
  /-- Asks for a summary of the help. -/
  | summary
  | version
deriving DecidableEq, Repr

/-- The commands by name, and the program itself, as they have options. -/
inductive CommandScope where
  | program
  | parse
  | check
  | version
  | help
deriving DecidableEq, Repr

/-- How much of the help is shown. -/
inductive HelpForm where
  | summary
  | full
deriving DecidableEq, Repr

/-- Why no command is run. -/
inductive Refusal where
  /-- The words do not make a command. -/
  | misuse
  /-- Help on the program or on a command was asked for. -/
  | help (scope : CommandScope) (form : HelpForm)
  /-- The version was asked for. -/
  | version
deriving DecidableEq, Repr

namespace CommandOption

/-- The name after two dashes. -/
def long? : CommandOption → Option String
  | format => some "format"
  | includePath => some "include-path"
  | settingsFile => some "config"
  | errorLimit => some "max-errors"
  | maxDepth => some "max-depth"
  | noLibraries => some "no-builtin-includes"
  | noColor => some "no-color"
  | verbose => some "verbose"
  | help => some "help"
  | summary => none
  | version => some "version"

/-- The letter after one dash. -/
def short? : CommandOption → Option Char
  | format => some 'f'
  | includePath => some 'I'
  | settingsFile => some 'c'
  | verbose => some 'v'
  | summary => some 'h'
  | version => some 'V'
  | errorLimit | maxDepth | noLibraries | noColor | help => none

def hasValue : CommandOption → Bool
  | format | includePath | settingsFile | errorLimit | maxDepth => true
  | _ => false

end CommandOption

namespace CommandScope

/-- The options of the commands that run the front end. -/
def frontEndOptions : List CommandOption :=
  [.includePath, .settingsFile, .errorLimit, .maxDepth, .noLibraries, .noColor, .verbose, .help,
   .summary]

/-- The options of a command. -/
def options : CommandScope → List CommandOption
  | program => [.verbose, .help, .summary, .version]
  | parse => .format :: frontEndOptions
  | check => frontEndOptions
  | version => [.verbose, .help, .summary]
  | help => []

def long? (scope : CommandScope) (name : String) : Option CommandOption :=
  scope.options.find? fun option => option.long? == some name

def short? (scope : CommandScope) (letter : Char) : Option CommandOption :=
  scope.options.find? fun option => option.short? == some letter

/-- The word that names a command. -/
def name : CommandScope → String
  | program => "qfront"
  | parse => "parse"
  | check => "check"
  | version => "version"
  | help => "help"

/-- The commands, without the program itself. -/
def commands : List CommandScope := [parse, check, version, help]

def ofName? (name : String) : Option CommandScope := commands.find? fun scope => scope.name == name

end CommandScope

/-- What the words of a command have given so far. -/
structure Given where
  paths : List String := []
  format : Option OutputFormat := none
  noColor : Bool := false
  overrides : Overrides := {}
deriving DecidableEq, Repr

namespace Given

/-- A path, which may not be empty. -/
def path (value : String) : Except Refusal Path :=
  if value.isEmpty then .error .misuse else .ok ⟨value⟩

/-- A number, which must be a machine word. -/
def number (value : String) : Except Refusal Nat :=
  match Text.word? value.toList with
  | some n => .ok n
  | none => .error .misuse

/-- Set what was not set before. -/
def once {α : Type} (before : Option α) (value : α) : Except Refusal (Option α) :=
  if before.isSome then .error .misuse else .ok (some value)

/-- Set a flag that was not set before. -/
def flagOnce (before : Bool) : Except Refusal Bool :=
  if before then .error .misuse else .ok true

/-- Take an option with its value, which is empty for options without one. Only directories for
includes and the wish for more messages may be repeated. -/
def option (scope : CommandScope) (given : Given) (option : CommandOption) (value : String) :
    Except Refusal Given := do
  let overrides := given.overrides
  match option with
  | .format =>
    match OutputFormat.ofName? value with
    | some format => return { given with format := ← once given.format format }
    | none => throw .misuse
  | .includePath =>
    let includePaths := overrides.includePaths ++ [← path value]
    return { given with overrides := { overrides with includePaths } }
  | .settingsFile =>
    let settingsFile ← once overrides.settingsFile (← path value)
    return { given with overrides := { overrides with settingsFile } }
  | .errorLimit =>
    let errorLimit ← once overrides.errorLimit (← number value)
    return { given with overrides := { overrides with errorLimit } }
  | .maxDepth =>
    let maxDepth ← once overrides.maxDepth (← number value)
    return { given with overrides := { overrides with maxDepth } }
  | .noLibraries =>
    let noLibraries ← flagOnce overrides.noLibraries
    return { given with overrides := { overrides with noLibraries } }
  | .noColor => return { given with noColor := ← flagOnce given.noColor }
  | .verbose => return given
  | .help => throw (.help scope .full)
  | .summary => throw (.help scope .summary)
  | .version => throw .version

/-- Take a path. Only `check` has more than one. -/
def addPath (scope : CommandScope) (given : Given) (value : String) : Except Refusal Given :=
  if scope = .check || (scope = .parse && given.paths.isEmpty) then do
    let _ ← path value
    return { given with paths := given.paths ++ [value] }
  else .error .misuse

/-- Take short options that are written together. An option that needs a value and has none yet
comes out. -/
def letters (scope : CommandScope) : Given → List Char →
    Except Refusal (Given × Option CommandOption)
  | given, [] => .ok (given, none)
  | given, letter :: rest =>
    match scope.short? letter with
    | none => .error .misuse
    | some option =>
      if option.hasValue then
        match rest with
        | [] => .ok (given, some option)
        | '=' :: value => do
          return (← given.option scope option (String.ofList value), none)
        | value => do
          return (← given.option scope option (String.ofList value), none)
      else do letters scope (← given.option scope option "") rest

/-- Take the text after two dashes. An option that needs a value and has none yet comes out. -/
def longOption (scope : CommandScope) (given : Given) (text : List Char) :
    Except Refusal (Given × Option CommandOption) :=
  let (name, value) := match Text.cutAt? '=' text with
    | some (name, value) => (name, some value)
    | none => (text, none)
  match scope.long? (String.ofList name) with
  | none => .error .misuse
  | some option =>
    match option.hasValue, value with
    | true, some value => do
      return (← given.option scope option (String.ofList value), none)
    | true, none => .ok (given, some option)
    | false, some _ => .error .misuse
    | false, none => do return (← given.option scope option "", none)

/-- Whether a word is an option, or the two dashes before the paths. -/
def isOption (word : String) : Bool :=
  match word.toList with
  | '-' :: _ :: _ => true
  | _ => false

/-- Take all words. `pending` is an option whose value is to come next. -/
def words (scope : CommandScope) :
    (pending : Option CommandOption) → Given → List String → Except Refusal Given
  | some _, _, [] => .error .misuse
  | none, given, [] => .ok given
  | some option, given, word :: rest =>
    if isOption word then .error .misuse
    else do words scope none (← given.option scope option word) rest
  | none, given, word :: rest =>
    match word.toList with
    | ['-', '-'] => rest.foldlM (addPath scope) given
    | '-' :: '-' :: text => do
      let (given, pending) ← given.longOption scope text
      words scope pending given rest
    | '-' :: letter :: letters => do
      let (given, pending) ← given.letters scope (letter :: letters)
      words scope pending given rest
    | _ => do words scope none (← given.addPath scope word) rest

/-- The command that the words have given. -/
def command (given : Given) : CommandScope → Except Refusal Command
  | .parse =>
    match given.paths with
    | input :: _ => .ok (.parse ⟨input⟩ (given.format.getD .tree) given.overrides)
    | [] => .error .misuse
  | .check =>
    if given.paths.isEmpty then .error .misuse
    else .ok (.check (given.paths.map Path.mk) given.overrides)
  | .version => .ok .version
  | .program | .help => .error .misuse

end Given

namespace Command

/-- The variable with the file that holds the settings, unless an option names one. -/
def settingsVariable : String := "QFRONT_CONFIG"

/-- The file with the settings that a variable names, for a command that has the option. -/
def withSettingsVariable (scope : CommandScope) (environment : String → Option String)
    (given : Given) : Except Refusal Given :=
  match given.overrides.settingsFile, environment settingsVariable with
  | none, some value =>
    if scope.options.contains .settingsFile then
      given.option scope .settingsFile value
    else .ok given
  | _, _ => .ok given

/-- The command whose name has been read, from the words after it. -/
def ofWords (environment : String → Option String) (scope : CommandScope) (words : List String) :
    Except Refusal Command := do
  let given ← Given.words scope none {} words
  let given ← withSettingsVariable scope environment given
  given.command scope

/-- What the command `help` asks for with the words after it. -/
def helpOn : List String → Refusal
  | [] => .help .program .full
  | [name] =>
    match CommandScope.ofName? name with
    | some scope => .help scope .full
    | none => .misuse
  | _ => .misuse

/-- The command that words make. Options of the program may stand before the name of the
command. -/
def ofArguments (environment : String → Option String) : List String → Except Refusal Command
  | [] => .error .misuse
  | word :: rest =>
    match word.toList with
    | ['-', '-'] => .error .misuse
    | '-' :: '-' :: text => do
      let _ ← ({} : Given).longOption .program text
      ofArguments environment rest
    | '-' :: letter :: letters => do
      let _ ← ({} : Given).letters .program (letter :: letters)
      ofArguments environment rest
    | _ =>
      match CommandScope.ofName? word with
      | some .help => .error (helpOn rest)
      | some scope => ofWords environment scope rest
      | none => .error .misuse

end Command

end OpenQasm
