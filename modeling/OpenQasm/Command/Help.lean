import OpenQasm.Command.Arguments
import OpenQasm.Text.Fields

/-!
# Help

The pages on the program and on its commands. A page is shown as a summary, with one line for each
argument, or in full, with one paragraph for each. A page whose arguments have no values to explain
is the same in both forms.
-/

namespace OpenQasm

/-- An argument as a page of help shows it. -/
structure HelpEntry where
  /-- How the argument is written. -/
  form : String
  about : String
  /-- Where the value comes from when the argument is not given. -/
  remarks : List String := []
  /-- The values that the argument may have, each with its meaning. -/
  values : List (String × String) := []
deriving DecidableEq, Repr

/-- A page of help. -/
structure HelpPage where
  about : String
  usage : String
  commands : List HelpEntry := []
  arguments : List HelpEntry := []
  options : List HelpEntry := []
deriving DecidableEq, Repr

/-! ## Layout -/

/-- The least width that holds all of some texts. -/
def widest (texts : List String) : Nat := (texts.map String.length).foldl max 0

/-- A text filled up with blanks. -/
def fillUp (width : Nat) (text : String) : String := text.pushn ' ' (width - text.length)

/-- A text whose further lines are set in by so many columns. -/
def hung (columns : Nat) (text : String) : String :=
  ("\n".pushn ' ' columns).intercalate ((Text.fields '\n' text.toList).map String.ofList)

namespace HelpEntry

/-- The line of an entry, whose form takes so many columns. -/
def line (width : Nat) (entry : HelpEntry) : String :=
  let names := ", ".intercalate (entry.values.map Prod.fst)
  let values := if entry.values.isEmpty then [] else ["[possible values: " ++ names ++ "]"]
  "  " ++ fillUp width entry.form ++ "  " ++
    hung (width + 4) (" ".intercalate (entry.about :: entry.remarks ++ values))

/-- The lines of a list of entries. -/
def lines (entries : List HelpEntry) : List String :=
  entries.map (line (widest (entries.map form)))

/-- The margin of a paragraph under the form of its argument. -/
def margin : Nat := 10

/-- The text of a paragraph, under the form of its argument. -/
def indented (text : String) : String := fillUp margin "" ++ hung margin text

/-- The paragraph of an entry, after an empty line: what it is about, its values, its remarks. -/
def paragraph (entry : HelpEntry) : List String :=
  let width := widest (entry.values.map Prod.fst) + 1
  let values := entry.values.map fun (name, meaning) =>
    indented ("- " ++ fillUp width (name ++ ":") ++ " " ++ meaning)
  let explained := if values.isEmpty then [] else "" :: indented "Possible values:" :: values
  let remarks := if entry.remarks.isEmpty then [] else ("" :: entry.remarks).map indented
  ["", "  " ++ entry.form, indented entry.about] ++ explained ++ remarks

/-- The paragraphs of a list of entries. -/
def paragraphs (entries : List HelpEntry) : List String :=
  (entries.flatMap paragraph).drop 1

end HelpEntry

namespace HelpPage

/-- Whether some argument has values to explain. -/
def explains (page : HelpPage) : Bool :=
  (page.arguments ++ page.options).any (!·.values.isEmpty)

/-- A part of a page under its title, if it has entries. -/
def part (title : String) (layout : List HelpEntry → List String) (entries : List HelpEntry) :
    List String :=
  if entries.isEmpty then [] else "" :: (title ++ ":") :: layout entries

/-- The option that asks for a page. Its line tells of the other form, if there is one. -/
def helpEntry (explained : Bool) (form : HelpForm) : HelpEntry where
  form := "-h, --help"
  about :=
    match explained, form with
    | false, _ => "Print help"
    | true, .summary => "Print help (see more with '--help')"
    | true, .full => "Print help (see a summary with '-h')"

/-- The lines of a page. -/
def lines (page : HelpPage) (form : HelpForm) : List String :=
  let layout :=
    match page.explains, form with
    | true, .full => HelpEntry.paragraphs
    | _, _ => HelpEntry.lines
  [page.about, "", "Usage: qfront " ++ page.usage] ++
    part "Commands" HelpEntry.lines page.commands ++ part "Arguments" layout page.arguments ++
    part "Options" layout page.options

end HelpPage

/-! ## The pages -/

def OutputFormat.about : OutputFormat → String
  | tree => "Indented syntax tree followed by rendered diagnostics"
  | json => "Tree and diagnostics as JSON"
  | diagnostics => "Rendered diagnostics only"
  | short => "One line per diagnostic"

namespace CommandScope

def about : CommandScope → String
  | program => "qfront command-line interface"
  | parse => "Parse a program and print its syntax tree and diagnostics"
  | check => "Check several programs in parallel and summarize the results"
  | version => "Show version information"
  | help => "Print this message or the help of the given subcommand(s)"

def formatEntry : HelpEntry where
  form := "-f, --format <FORMAT>"
  about := "Output format"
  remarks := ["[default: tree]"]
  values := OutputFormat.all.map fun format => (format.name, format.about)

def verboseEntry : HelpEntry where
  form := "-v, --verbose..."
  about := "Increase verbosity (-v, -vv, -vvv)"

def includePathEntry : HelpEntry where
  form := "-I, --include-path <DIR>"
  about := "Add a directory to the include search path"

def versionEntry : HelpEntry where
  form := "-V, --version"
  about := "Print version"

/-- The further options of the commands that run the front end. -/
def frontEndEntries (environment : String → Option String) : List HelpEntry :=
  let value := (environment Command.settingsVariable).getD ""
  [{ form := "-c, --config <CONFIG>", about := "YAML configuration file",
     remarks := ["[env: " ++ Command.settingsVariable ++ "=" ++ value ++ "]"] },
   { form := "    --max-errors <MAX_ERRORS>",
     about := "Stop reporting after this many errors (0 = unlimited)" },
   { form := "    --max-depth <MAX_DEPTH>",
     about := "Maximum nesting depth of expressions and blocks" },
   { form := "    --no-builtin-includes",
     about := "Do not fall back to the built-in stdgates.inc and qelib1.inc" },
   { form := "    --no-color", about := "Disable colored diagnostics" }]

/-- The page of a command. -/
def page (environment : String → Option String) (form : HelpForm) (scope : CommandScope) :
    HelpPage :=
  let about := scope.about
  match scope with
  | program =>
    { about, usage := "[OPTIONS] <COMMAND>",
      commands := commands.map fun command =>
        { form := command.name, about := command.about },
      options := [verboseEntry, HelpPage.helpEntry false form, versionEntry] }
  | parse =>
    { about, usage := "parse [OPTIONS] <INPUT>",
      arguments := [{ form := "<INPUT>", about := "Entry file" }],
      options :=
        formatEntry :: verboseEntry :: includePathEntry :: frontEndEntries environment ++
          [HelpPage.helpEntry true form] }
  | check =>
    { about, usage := "check [OPTIONS] <INPUTS>...",
      arguments := [{ form := "<INPUTS>...", about := "Entry files" }],
      options :=
        includePathEntry :: verboseEntry :: frontEndEntries environment ++
          [HelpPage.helpEntry false form] }
  | version =>
    { about, usage := "version [OPTIONS]",
      options := [verboseEntry, HelpPage.helpEntry false form] }
  | help =>
    { about, usage := "help [COMMAND]...",
      arguments := [{ form := "[COMMAND]...", about := "Print help for the subcommand(s)" }] }

end CommandScope

end OpenQasm
