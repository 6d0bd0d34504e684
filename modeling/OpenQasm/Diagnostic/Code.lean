/-!
# Codes of diagnostics

Every diagnostic carries a stable code `Q0000`, whose first two digits name the phase that reports
it. The code fixes the severity that a diagnostic has unless it is given another one.
-/

namespace OpenQasm

/-- How grave a diagnostic is. -/
inductive Severity where
  | error
  | warning
  | note
deriving DecidableEq, Repr, Inhabited

namespace Severity

protected def toString : Severity → String
  | error => "error"
  | warning => "warning"
  | note => "note"

instance : ToString Severity := ⟨Severity.toString⟩

end Severity

/-- What a diagnostic is about. -/
inductive Code where
  /-- Text that is no token: an invalid character, an unterminated string or comment. -/
  | lexicalError
  /-- A token where the grammar allows none of its kind. -/
  | syntaxError
  /-- Nesting deeper than the limit. -/
  | maxDepthExceeded
  /-- A malformed or oversized number, or an unknown unit. -/
  | literalError
  /-- A name declared twice in one scope. -/
  | duplicateDeclaration
  /-- Syntax of version 2 in a program of version 3. -/
  | semanticWarning
  /-- A construct that the program's version lacks. -/
  | unsupportedFeature
  /-- An include that leads to no file. -/
  | includeNotFound
  /-- An include of a file that is being included. -/
  | includeCycle
  /-- A program without a version statement. -/
  | missingVersion
  /-- A version that is not supported. -/
  | versionMismatch
  /-- Errors left out because of the limit on their number. -/
  | errorLimitReached
deriving DecidableEq, Repr, Inhabited

namespace Code

/-- The codes in the order of their numbers. -/
def all : List Code :=
  [lexicalError, syntaxError, maxDepthExceeded, literalError, duplicateDeclaration,
   semanticWarning, unsupportedFeature, includeNotFound, includeCycle, missingVersion,
   versionMismatch, errorLimitReached]

/-- The stable text of the code. -/
protected def toString : Code → String
  | lexicalError => "Q0001"
  | syntaxError => "Q0101"
  | maxDepthExceeded => "Q0102"
  | literalError => "Q0201"
  | duplicateDeclaration => "Q0301"
  | semanticWarning => "Q0401"
  | unsupportedFeature => "Q0402"
  | includeNotFound => "Q0501"
  | includeCycle => "Q0502"
  | missingVersion => "Q0601"
  | versionMismatch => "Q0602"
  | errorLimitReached => "Q0901"

instance : ToString Code := ⟨Code.toString⟩

/-- The name of the kind of problem. -/
def name : Code → String
  | lexicalError => "LexicalError"
  | syntaxError => "SyntaxError"
  | maxDepthExceeded => "MaxDepthExceeded"
  | literalError => "LiteralError"
  | duplicateDeclaration => "DuplicateDeclaration"
  | semanticWarning => "SemanticWarning"
  | unsupportedFeature => "UnsupportedFeature"
  | includeNotFound => "IncludeNotFound"
  | includeCycle => "IncludeCycle"
  | missingVersion => "MissingVersion"
  | versionMismatch => "VersionMismatch"
  | errorLimitReached => "ErrorLimitReached"

/-- The severity of a diagnostic that is given no other. -/
def severity : Code → Severity
  | semanticWarning | missingVersion => .warning
  | errorLimitReached => .note
  | _ => .error

/-- The number of codes before this one. -/
def rank (code : Code) : Nat := all.idxOf code

theorem mem_all (code : Code) : code ∈ all := by cases code <;> decide

/-- A code is found by its text. -/
def ofString? (text : String) : Option Code := all.find? (·.toString == text)

/-- A code is found by its name. -/
def ofName? (text : String) : Option Code := all.find? (·.name == text)

theorem ofString?_toString (code : Code) : ofString? code.toString = some code := by
  cases code <;> decide

theorem ofName?_name (code : Code) : ofName? code.name = some code := by
  cases code <;> decide

end Code

end OpenQasm
