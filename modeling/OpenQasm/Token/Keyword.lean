/-!
# Keywords

The reserved words of OpenQASM, with the signs for the mathematical constants.
-/

namespace OpenQasm

/-- A reserved word. -/
inductive Keyword where
  | kwVersion
  | kwInclude
  | kwDefcalGrammar
  | kwDef
  | kwCal
  | kwDefcal
  | kwGate
  | kwOpaque
  | kwExtern
  | kwBox
  | kwLet
  | kwBreak
  | kwContinue
  | kwIf
  | kwElse
  | kwEnd
  | kwReturn
  | kwFor
  | kwWhile
  | kwIn
  | kwSwitch
  | kwCase
  | kwDefault
  | kwNop
  | kwInput
  | kwOutput
  | kwConst
  | kwReadonly
  | kwMutable
  | kwQReg
  | kwQubit
  | kwCReg
  | kwBool
  | kwBit
  | kwInt
  | kwUint
  | kwFloat
  | kwAngle
  | kwComplex
  | kwArray
  | kwVoid
  | kwDuration
  | kwStretch
  | kwGphase
  | kwInv
  | kwPow
  | kwCtrl
  | kwNegCtrl
  | kwDurationOf
  | kwDelay
  | kwReset
  | kwMeasure
  | kwBarrier
  | kwTrue
  | kwFalse
  | kwIm
  | kwPi
  | kwTau
  | kwEuler
deriving DecidableEq, Repr, Inhabited

namespace Keyword

/-- Every keyword once. -/
def all : List Keyword :=
  [kwVersion, kwInclude, kwDefcalGrammar, kwDef, kwCal, kwDefcal, kwGate, kwOpaque, kwExtern,
   kwBox, kwLet, kwBreak, kwContinue, kwIf, kwElse, kwEnd, kwReturn, kwFor, kwWhile, kwIn,
   kwSwitch, kwCase, kwDefault, kwNop, kwInput, kwOutput, kwConst, kwReadonly, kwMutable, kwQReg,
   kwQubit, kwCReg, kwBool, kwBit, kwInt, kwUint, kwFloat, kwAngle, kwComplex, kwArray, kwVoid,
   kwDuration, kwStretch, kwGphase, kwInv, kwPow, kwCtrl, kwNegCtrl, kwDurationOf, kwDelay,
   kwReset, kwMeasure, kwBarrier, kwTrue, kwFalse, kwIm, kwPi, kwTau, kwEuler]

/-- The word that spells the keyword. -/
def text : Keyword → String
  | kwVersion => "OPENQASM"
  | kwInclude => "include"
  | kwDefcalGrammar => "defcalgrammar"
  | kwDef => "def"
  | kwCal => "cal"
  | kwDefcal => "defcal"
  | kwGate => "gate"
  | kwOpaque => "opaque"
  | kwExtern => "extern"
  | kwBox => "box"
  | kwLet => "let"
  | kwBreak => "break"
  | kwContinue => "continue"
  | kwIf => "if"
  | kwElse => "else"
  | kwEnd => "end"
  | kwReturn => "return"
  | kwFor => "for"
  | kwWhile => "while"
  | kwIn => "in"
  | kwSwitch => "switch"
  | kwCase => "case"
  | kwDefault => "default"
  | kwNop => "nop"
  | kwInput => "input"
  | kwOutput => "output"
  | kwConst => "const"
  | kwReadonly => "readonly"
  | kwMutable => "mutable"
  | kwQReg => "qreg"
  | kwQubit => "qubit"
  | kwCReg => "creg"
  | kwBool => "bool"
  | kwBit => "bit"
  | kwInt => "int"
  | kwUint => "uint"
  | kwFloat => "float"
  | kwAngle => "angle"
  | kwComplex => "complex"
  | kwArray => "array"
  | kwVoid => "void"
  | kwDuration => "duration"
  | kwStretch => "stretch"
  | kwGphase => "gphase"
  | kwInv => "inv"
  | kwPow => "pow"
  | kwCtrl => "ctrl"
  | kwNegCtrl => "negctrl"
  | kwDurationOf => "durationof"
  | kwDelay => "delay"
  | kwReset => "reset"
  | kwMeasure => "measure"
  | kwBarrier => "barrier"
  | kwTrue => "true"
  | kwFalse => "false"
  | kwIm => "im"
  | kwPi => "pi"
  | kwTau => "tau"
  | kwEuler => "euler"

/-- The signs that spell a constant besides its word. -/
def signs : List (Char × Keyword) :=
  [('\u03c0', kwPi), ('\u03c4', kwTau), ('\u2107', kwEuler)]

/-- The keyword that a word spells. -/
def ofWord? (word : List Char) : Option Keyword :=
  all.find? fun keyword => keyword.text.toList == word

/-- The keyword that a sign spells. -/
def ofSign? (word : List Char) : Option Keyword :=
  (signs.find? fun sign => [sign.1] == word).map Prod.snd

/-- Keywords that can only begin a statement. -/
def startsStatement : Keyword → Bool
  | kwVersion | kwInclude | kwDefcalGrammar | kwDef | kwCal | kwDefcal | kwGate | kwOpaque |
    kwExtern | kwBox | kwLet | kwBreak | kwContinue | kwIf | kwEnd | kwReturn | kwFor | kwWhile |
    kwSwitch | kwNop | kwInput | kwOutput | kwConst | kwQReg | kwQubit | kwCReg | kwDelay |
    kwReset | kwBarrier => true
  | _ => false

theorem mem_all (keyword : Keyword) : keyword ∈ all := by cases keyword <;> decide

end Keyword

end OpenQasm
