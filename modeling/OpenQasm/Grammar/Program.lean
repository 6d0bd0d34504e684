import OpenQasm.Grammar.Statement
import OpenQasm.Token.Lexer

/-!
# Programs

The productions of all levels, and the parse of a whole text. A parse always yields a program: what
cannot be read stands as an error in its tree, and is reported.
-/

namespace OpenQasm

namespace Grammar

/-- A production over those of the next level. -/
def Production.parse (inner : Level) : (production : Production) → Parser production.Result
  | .expression => binaryExpression inner
  | .unary => unaryExpression inner
  | .scalarType => Grammar.scalarType inner
  | .statement => Grammar.statement inner
  | .blockItems => inScope (Grammar.blockItems inner)
  | .cases => Grammar.cases inner
  | .arrayLiteral => Grammar.arrayLiteral inner

/-- The productions with so many levels below them. -/
def level : Nat → Level
  | 0, _ => crash .stalled
  | levels + 1, production => nested (production.parse (level levels))

/-- The statements of a program up to the end of the text. Closing braces without a block are
reported and passed over. -/
def programItems (inner : Level) : Parser (List Placed) :=
  iterate
    (fun items => do
      match ← peek with
      | none => return .done items
      | some (.symbol .rightBrace) =>
        reportSyntax "unexpected `\x7d`"
        advance
        return .again items
      | some _ =>
        match ← attempt (statementOrError inner) with
        | some item => return .again (items ++ [item])
        | none => return .again items)
    []

/-- A whole program. -/
def program : Parser Placed := do
  let context ← read
  let items ← programItems (level (context.options.maxDepth + 1))
  place (.program items) ⟨context.source, 0, min (Text.width context.text) maxOffset⟩

end Grammar

/-- What a parse yields: the tree, and what was reported, sorted by location. -/
structure ParseOutput where
  tree : Tree
  diagnostics : List Diagnostic

def ParseOutput.hasErrors (output : ParseOutput) : Bool := output.diagnostics.any Diagnostic.isError

open Grammar in
/-- Parse a text. -/
def parse (source : SourceId) (text : List Char) (options : ParseOptions) :
    Except Crash ParseOutput :=
  let (tokens, lexical) := tokenize source text
  let comments := (tokens.filter (·.kind.isTrivia)).map Token.span
  let start : State :=
    { rest := tokens.filter (!·.kind.isTrivia)
      builder := { comments }
      version := options.defaultVersion }
  match program ⟨source, text, options⟩ start with
  | .ok root state =>
    match state.builder.finish root.id with
    | .ok tree =>
      let reported : Diagnostics := ⟨lexical ++ state.diagnostics.items⟩
      .ok { tree, diagnostics := reported.sorted }
    | .error fault => .error (.fault fault)
  | .error (.crash crash) _ => .error crash
  | .error .recovered _ => .error .stalled

end OpenQasm
