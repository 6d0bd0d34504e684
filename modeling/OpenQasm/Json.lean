import OpenQasm.Text.Quoted

/-!
# JSON values

Values whose objects keep the order of their fields, and their indented form: two spaces a level,
one member a line, and nothing between the brackets of an empty list or object.
-/

namespace OpenQasm

/-- A JSON value. Numbers are whole. -/
inductive Json where
  | null
  | bool (value : Bool)
  | number (value : Int)
  | string (value : String)
  | array (items : List Json)
  | object (fields : List (String × Json))
deriving Inhabited

namespace Json

instance : Coe String Json := ⟨string⟩

instance : Coe Nat Json := ⟨fun n => number n⟩

instance : Coe Bool Json := ⟨bool⟩

/-- The value, or `null` for none. -/
def orNull : Option Json → Json
  | some value => value
  | none => null

/-- Four hexadecimal digits of a number below `16 ^ 4`. -/
def hex4 (n : Nat) : List Char :=
  let digits := Text.hexDigits n
  List.replicate (4 - digits.length) '0' ++ digits

/-- One character of a string. Only quotes, backslashes and control characters are escaped. -/
def escapeChar (c : Char) : List Char :=
  match c with
  | '"' => ['\\', '"']
  | '\\' => ['\\', '\\']
  | '\n' => ['\\', 'n']
  | '\r' => ['\\', 'r']
  | '\t' => ['\\', 't']
  | '\x08' => ['\\', 'b']
  | '\x0c' => ['\\', 'f']
  | c => if c.toNat < 0x20 then '\\' :: 'u' :: hex4 c.toNat else [c]

/-- A string between quotes. -/
def quote (text : String) : String :=
  String.ofList ('"' :: text.toList.flatMap escapeChar ++ ['"'])

/-- The line break before a member at a level. -/
def newline (level : Nat) : String := "\n" ++ String.ofList (List.replicate (2 * level) ' ')

mutual

/-- The indented form of a value that stands at a level. -/
def pretty (level : Nat) : Json → String
  | null => "null"
  | bool true => "true"
  | bool false => "false"
  | number value => toString value
  | string value => quote value
  | array [] => "[]"
  | array (item :: items) =>
    "[" ++ newline (level + 1) ++ pretty (level + 1) item ++ prettyItems (level + 1) items ++
      newline level ++ "]"
  | object [] => "\x7b\x7d"
  | object ((name, value) :: fields) =>
    "\x7b" ++ newline (level + 1) ++ quote name ++ ": " ++ pretty (level + 1) value ++
      prettyFields (level + 1) fields ++ newline level ++ "\x7d"

/-- The further members of a list, each after a comma. -/
def prettyItems (level : Nat) : List Json → String
  | [] => ""
  | item :: items => "," ++ newline level ++ pretty level item ++ prettyItems level items

/-- The further fields of an object, each after a comma. -/
def prettyFields (level : Nat) : List (String × Json) → String
  | [] => ""
  | (name, value) :: fields =>
    "," ++ newline level ++ quote name ++ ": " ++ pretty level value ++ prettyFields level fields

end

end Json

end OpenQasm
