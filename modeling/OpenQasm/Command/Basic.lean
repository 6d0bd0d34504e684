import OpenQasm.Path

/-!
# Commands

What the program can be asked to do.
-/

namespace OpenQasm

/-- What is printed of a parsed program. -/
inductive OutputFormat where
  /-- The outline of the tree, with reports on the side. -/
  | tree
  /-- The tree and the diagnostics as one JSON value. -/
  | json
  /-- Nothing but reports on the side. -/
  | diagnostics
  /-- One line for each diagnostic. -/
  | short
deriving DecidableEq, Repr

namespace OutputFormat

def name : OutputFormat → String
  | tree => "tree"
  | json => "json"
  | diagnostics => "diagnostics"
  | short => "short"

def all : List OutputFormat := [tree, json, diagnostics, short]

def ofName? (name : String) : Option OutputFormat := all.find? fun format => format.name == name

theorem ofName?_name (format : OutputFormat) : ofName? format.name = some format := by
  cases format <;> decide

end OutputFormat

/-- What overrides the settings of a run. -/
structure Overrides where
  /-- Directories for includes, searched before those in the settings. -/
  includePaths : List Path := []
  /-- The file with the settings. -/
  settingsFile : Option Path := none
  errorLimit : Option Nat := none
  maxDepth : Option Nat := none
  /-- Whether the built-in libraries are left out. -/
  noLibraries : Bool := false
deriving DecidableEq, Repr

/-- What the program can be asked to do. -/
inductive Command where
  /-- Print the tree and the diagnostics of a program. -/
  | parse (input : Path) (format : OutputFormat) (overrides : Overrides)
  /-- Tell for each of some programs whether it is free of errors. -/
  | check (inputs : List Path) (overrides : Overrides)
  | version
deriving DecidableEq, Repr

end OpenQasm
