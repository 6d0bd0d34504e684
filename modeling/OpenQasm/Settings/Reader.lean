import OpenQasm.Settings.Basic
import OpenQasm.Text.Digits
import OpenQasm.Yaml.Document

/-!
# Settings from documents

Every field of a document sets one setting and may occur once. Settings without a field keep their
defaults.
-/

namespace OpenQasm.Settings

/-- The names of fields. -/
inductive Field where
  | includePaths
  | maxDepth
  | suppressionWindow
  | errorLimit
  | libraries
deriving DecidableEq, Repr

namespace Field

def name : Field → String
  | includePaths => "include_paths"
  | maxDepth => "max_depth"
  | suppressionWindow => "suppression_window"
  | errorLimit => "error_limit"
  | libraries => "embedded_includes"

def all : List Field := [includePaths, maxDepth, suppressionWindow, errorLimit, libraries]

def ofName? (name : List Char) : Option Field :=
  all.find? fun field => field.name.toList == name

end Field

/-! ## Values -/

/-- Whether digits after a leading zero make a text of what looks like a number. -/
def hasLeadingZero : List Char → Bool
  | '0' :: text => !text.isEmpty && text.all Char.isDigit
  | _ => false

/-- A machine word, in the radix that its first characters announce. A plus sign may stand before
it. -/
def number? (text : List Char) : Option Nat :=
  let body := match text with
    | '+' :: body => body
    | body => body
  let announced := match body with
    | '0' :: 'x' :: digits => Text.digits? 16 digits
    | '0' :: 'o' :: digits => Text.digits? 8 digits
    | '0' :: 'b' :: digits => Text.digits? 2 digits
    | _ => none
  announced.or (if hasLeadingZero body then none else Text.digits? 10 body)

/-- One of the three spellings of each truth value. -/
def flag? (text : List Char) : Option Bool :=
  match String.ofList text with
  | "true" | "True" | "TRUE" => some true
  | "false" | "False" | "FALSE" => some false
  | _ => none

section
variable (document : Yaml.Document)

/-- The text of a scalar, however it is written. -/
def text? (node : Yaml.Node) : Option (List Char) :=
  match document.resolve node with
  | .scalar text _ _ => some text
  | _ => none

/-- The text of a scalar that is written as a value of some kind: without quotes, or as lines that
are kept with the tag of the kind. -/
def valueText? (kind : String) (node : Yaml.Node) : Option (List Char) :=
  match document.resolve node with
  | .scalar text .plain _ => some text
  | .scalar text .literal tag =>
    if tag == some ("tag:yaml.org,2002:" ++ kind).toList then some text else none
  | _ => none

/-- The paths of a sequence. A value that is not written is an empty sequence. -/
def paths? (node : Yaml.Node) : Option (List Path) :=
  match document.resolve node with
  | .sequence items => items.mapM fun item => (text? document item).map (⟨String.ofList ·⟩)
  | node => if node.isAbsent then some [] else none

/-! ## Fields -/

/-- Set what a field sets. -/
def set? (settings : Settings) (field : Field) (value : Yaml.Node) : Option Settings := do
  let number := (valueText? document "int" value).bind number?
  match field with
  | .includePaths => return { settings with includePaths := ← paths? document value }
  | .maxDepth => return { settings with maxDepth := ← number }
  | .suppressionWindow => return { settings with suppressionWindow := ← number }
  | .errorLimit => return { settings with errorLimit := ← number }
  | .libraries =>
    return { settings with libraries := ← (valueText? document "bool" value).bind flag? }

/-- Set what the fields of a mapping set, unless they are among those set before. -/
def setAll? : (seen : List Field) → List (Yaml.Node × Yaml.Node) → Settings → Option Settings
  | _, [], settings => some settings
  | seen, (name, value) :: rest, settings => do
    let field ← (text? document name).bind Field.ofName?
    if seen.contains field then none
    else setAll? (field :: seen) rest (← set? document settings field value)

/-- The settings that a document holds: a mapping, or nothing if all are to keep their defaults. -/
def ofDocument? : Option Settings :=
  match document.root with
  | .mapping pairs => setAll? document [] pairs {}
  | node => if node.isAbsent then some {} else none

end

/-- The settings that a text holds. They must be valid. -/
def ofText (text : List Char) : Except SettingsError Settings :=
  match (Yaml.Document.ofText? text).bind ofDocument? with
  | some settings => settings.validate
  | none => .error .malformed

section
variable {m : Type → Type} [Monad m] (disk : Disk m)

/-- The settings that a file holds. -/
def ofFile (path : Path) : m (Except SettingsError Settings) := do
  match ← disk.read path with
  | .error error => return .error (.unreadable path error)
  | .ok bytes =>
    match Text.decode bytes with
    | .error _ => return .error (.notText path)
    | .ok text => return ofText text

end

end OpenQasm.Settings
