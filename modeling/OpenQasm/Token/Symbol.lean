/-!
# Symbols

Operators and punctuation. Where several symbols begin a text, the longest one is read.
-/

namespace OpenQasm

/-- An operator or a punctuation mark. -/
inductive Symbol where
  | plus
  | plusPlus
  | minus
  | star
  | starStar
  | slash
  | percent
  | eqEq
  | notEq
  | less
  | lessEq
  | greater
  | greaterEq
  | andAnd
  | orOr
  | bang
  | tilde
  | amp
  | pipe
  | caret
  | shiftLeft
  | shiftRight
  | assign
  | plusAssign
  | minusAssign
  | starAssign
  | slashAssign
  | percentAssign
  | starStarAssign
  | ampAssign
  | pipeAssign
  | caretAssign
  | shiftLeftAssign
  | shiftRightAssign
  | arrow
  | atSign
  | leftParen
  | rightParen
  | leftBracket
  | rightBracket
  | leftBrace
  | rightBrace
  | semicolon
  | colon
  | comma
  | dot
  | hashDim
deriving DecidableEq, Repr, Inhabited

namespace Symbol

/-- The characters of the symbol. -/
def text : Symbol → String
  | plus => "+"
  | plusPlus => "++"
  | minus => "-"
  | star => "*"
  | starStar => "**"
  | slash => "/"
  | percent => "%"
  | eqEq => "=="
  | notEq => "!="
  | less => "<"
  | lessEq => "<="
  | greater => ">"
  | greaterEq => ">="
  | andAnd => "&&"
  | orOr => "||"
  | bang => "!"
  | tilde => "~"
  | amp => "&"
  | pipe => "|"
  | caret => "^"
  | shiftLeft => "<<"
  | shiftRight => ">>"
  | assign => "="
  | plusAssign => "+="
  | minusAssign => "-="
  | starAssign => "*="
  | slashAssign => "/="
  | percentAssign => "%="
  | starStarAssign => "**="
  | ampAssign => "&="
  | pipeAssign => "|="
  | caretAssign => "^="
  | shiftLeftAssign => "<<="
  | shiftRightAssign => ">>="
  | arrow => "->"
  | atSign => "@"
  | leftParen => "("
  | rightParen => ")"
  | leftBracket => "["
  | rightBracket => "]"
  | leftBrace => "\x7b"
  | rightBrace => "\x7d"
  | semicolon => ";"
  | colon => ":"
  | comma => ","
  | dot => "."
  | hashDim => "#dim"

/-- Every symbol once, longer ones before shorter ones. -/
def byLength : List Symbol :=
  [hashDim, starStarAssign, shiftLeftAssign, shiftRightAssign, plusPlus, starStar, eqEq, notEq,
   lessEq, greaterEq, andAnd, orOr, shiftLeft, shiftRight, plusAssign, minusAssign, starAssign,
   slashAssign, percentAssign, ampAssign, pipeAssign, caretAssign, arrow, plus, minus, star,
   slash, percent, less, greater, bang, tilde, amp, pipe, caret, assign, atSign, leftParen,
   rightParen, leftBracket, rightBracket, leftBrace, rightBrace, semicolon, colon, comma, dot]

/-- The longest symbol at the head of a text. -/
def atHead? (text : List Char) : Option Symbol :=
  byLength.find? fun symbol => symbol.text.toList.isPrefixOf text

theorem mem_byLength (symbol : Symbol) : symbol ∈ byLength := by cases symbol <;> decide

/-- What is read at the head is there. -/
theorem isPrefix_of_atHead? {text : List Char} {symbol : Symbol} (h : atHead? text = some symbol) :
    symbol.text.toList <+: text := by
  have := List.find?_some h
  simpa using this

end Symbol

end OpenQasm
