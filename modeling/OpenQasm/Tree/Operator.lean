/-!
# Operators and keywords in the tree

The small enumerations that nodes of the tree carry, with the way each is written in a program and
the name it has in the tree's printed forms.
-/

namespace OpenQasm

/-- The two kinds of registers of version 2. -/
inductive RegisterKind where
  | qreg
  | creg
deriving DecidableEq, Repr

def RegisterKind.name : RegisterKind → String
  | qreg => "QReg"
  | creg => "CReg"

/-- Whether a declared value comes from outside or goes there. -/
inductive Direction where
  | input
  | output
deriving DecidableEq, Repr

def Direction.name : Direction → String
  | input => "Input"
  | output => "Output"

/-- The classical scalar types. -/
inductive ScalarKind where
  | bit
  | int
  | uint
  | float
  | angle
  | bool
  | duration
  | stretch
deriving DecidableEq, Repr

namespace ScalarKind

def keyword : ScalarKind → String
  | bit => "bit"
  | int => "int"
  | uint => "uint"
  | float => "float"
  | angle => "angle"
  | bool => "bool"
  | duration => "duration"
  | stretch => "stretch"

def name : ScalarKind → String
  | bit => "Bit"
  | int => "Int"
  | uint => "Uint"
  | float => "Float"
  | angle => "Angle"
  | bool => "Bool"
  | duration => "Duration"
  | stretch => "Stretch"

end ScalarKind

/-- The modifiers of gate calls. -/
inductive ModifierKind where
  | inv
  | pow
  | ctrl
  | negctrl
deriving DecidableEq, Repr

def ModifierKind.name : ModifierKind → String
  | inv => "Inv"
  | pow => "Pow"
  | ctrl => "Ctrl"
  | negctrl => "NegCtrl"

/-- The mathematical constants. -/
inductive MathConstant where
  | pi
  | tau
  | euler
deriving DecidableEq, Repr

def MathConstant.name : MathConstant → String
  | pi => "Pi"
  | tau => "Tau"
  | euler => "Euler"

/-- The operators before an operand. -/
inductive UnaryOp where
  | neg
  | not
  | bitNot
deriving DecidableEq, Repr

namespace UnaryOp

def sign : UnaryOp → String
  | neg => "-"
  | not => "!"
  | bitNot => "~"

def name : UnaryOp → String
  | neg => "Neg"
  | not => "Not"
  | bitNot => "BitNot"

end UnaryOp

/-- The operators between two operands. -/
inductive BinaryOp where
  | add
  | sub
  | mul
  | div
  | mod
  | pow
  | eq
  | notEq
  | less
  | lessEq
  | greater
  | greaterEq
  | and
  | or
  | bitAnd
  | bitOr
  | bitXor
  | shiftLeft
  | shiftRight
deriving DecidableEq, Repr

namespace BinaryOp

def sign : BinaryOp → String
  | add => "+"
  | sub => "-"
  | mul => "*"
  | div => "/"
  | mod => "%"
  | pow => "**"
  | eq => "=="
  | notEq => "!="
  | less => "<"
  | lessEq => "<="
  | greater => ">"
  | greaterEq => ">="
  | and => "&&"
  | or => "||"
  | bitAnd => "&"
  | bitOr => "|"
  | bitXor => "^"
  | shiftLeft => "<<"
  | shiftRight => ">>"

def name : BinaryOp → String
  | add => "Add"
  | sub => "Sub"
  | mul => "Mul"
  | div => "Div"
  | mod => "Mod"
  | pow => "Pow"
  | eq => "Eq"
  | notEq => "NotEq"
  | less => "Lt"
  | lessEq => "LtEq"
  | greater => "Gt"
  | greaterEq => "GtEq"
  | and => "And"
  | or => "Or"
  | bitAnd => "BitAnd"
  | bitOr => "BitOr"
  | bitXor => "BitXor"
  | shiftLeft => "Shl"
  | shiftRight => "Shr"

/-- How tightly the operator binds, from 1 for the loosest. -/
def precedence : BinaryOp → Nat
  | or => 1
  | and => 2
  | bitOr => 3
  | bitXor => 4
  | bitAnd => 5
  | eq | notEq => 6
  | less | lessEq | greater | greaterEq => 7
  | shiftLeft | shiftRight => 8
  | add | sub => 9
  | mul | div | mod => 10
  | pow => 11

/-- The precedence of the operators that bind most tightly. -/
def tightest : Nat := 11

theorem precedence_le_tightest (op : BinaryOp) : op.precedence ≤ tightest := by
  cases op <;> decide

/-- Only powers bind most tightly. -/
theorem precedence_lt_tightest {op : BinaryOp} (h : op ≠ pow) : op.precedence < tightest := by
  cases op <;> first | decide | exact absurd rfl h

end BinaryOp

/-- The operators of assignments. -/
inductive AssignOp where
  | plain
  /-- The target is combined with the value. -/
  | compound (op : BinaryOp)
deriving DecidableEq, Repr

/-- The operator as it is written in a program. -/
def AssignOp.sign : AssignOp → String
  | plain => "="
  | compound op => op.sign ++ "="

/-- A version of the language: the major number, and the minor one if it is given. -/
structure Version where
  major : Nat
  minor : Option Nat
deriving DecidableEq, Repr, Inhabited

protected def Version.toString (version : Version) : String :=
  match version.minor with
  | some minor => s!"{version.major}.{minor}"
  | none => toString version.major

instance : ToString Version := ⟨Version.toString⟩

end OpenQasm
