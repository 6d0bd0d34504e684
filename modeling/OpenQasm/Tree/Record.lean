import OpenQasm.Json
import OpenQasm.Tree.Basic

/-!
# Trees as records

The JSON form of a tree: its nodes in the order of their ids, each with its kind and its span. A
kind is an object whose one field is the tag, or the tag alone where the node carries nothing.
-/

namespace OpenQasm

def SourceId.toJson (id : SourceId) : Json := id.index

def Span.toJson (span : Span) : Json :=
  .object [("source", span.source.toJson), ("start", span.start), ("end", span.stop)]

def AssignOp.toJson : AssignOp → Json
  | plain => "Assign"
  | compound op => .object [("Compound", op.name)]

namespace NodeKind

section
variable {ι : Type} (ref : ι → Json)

/-- A list of references. -/
def refs (children : List ι) : Json := .array (children.map ref)

/-- A reference, or null. -/
def ref? (child : Option ι) : Json := .orNull (child.map ref)

/-- What a node carries, by field. -/
def fields : NodeKind ι → List (String × Json)
  | program items | scope items => [("items", refs ref items)]
  | versionPragma version =>
    [("major", version.major), ("minor", .orNull (version.minor.map fun n => .number n))]
  | includeFile path items => [("path", path), ("items", refs ref items)]
  | includeError path => [("path", path)]
  | calibrationGrammar name => [("name", name)]
  | pragma content => [("content", content)]
  | annotationLine keyword content =>
    [("keyword", keyword), ("content", .orNull (content.map .string))]
  | qubitDecl name size => [("name", ref name), ("size", ref? ref size)]
  | registerDecl register name size =>
    [("register", register.name), ("name", ref name), ("size", ref? ref size)]
  | classicalDecl type name init =>
    [("ty", ref type), ("name", ref name), ("init", ref? ref init)]
  | constDecl type name init => [("ty", ref type), ("name", ref name), ("init", ref init)]
  | ioDecl direction type name =>
    [("direction", direction.name), ("ty", ref type), ("name", ref name)]
  | aliasDecl name parts => [("name", ref name), ("parts", refs ref parts)]
  | gateDef name params qubits body =>
    [("name", ref name), ("params", refs ref params), ("qubits", refs ref qubits),
     ("body", ref body)]
  | subroutineDef name params returnType body =>
    [("name", ref name), ("params", refs ref params), ("return_ty", ref? ref returnType),
     ("body", ref body)]
  | externDecl name params returnType =>
    [("name", ref name), ("params", refs ref params), ("return_ty", ref? ref returnType)]
  | opaqueDecl name params qubits =>
    [("name", ref name), ("params", refs ref params), ("qubits", refs ref qubits)]
  | param type name => [("ty", ref type), ("name", ref name)]
  | gateCall modifiers callee args duration operands =>
    [("modifiers", refs ref modifiers), ("callee", ref callee), ("args", refs ref args),
     ("duration", ref? ref duration), ("operands", refs ref operands)]
  | gateModifier modifier arg => [("modifier", modifier.name), ("arg", ref? ref arg)]
  | measureArrow measurement target =>
    [("measure", ref measurement), ("target", ref? ref target)]
  | reset operand | measure operand => [("operand", ref operand)]
  | barrier operands | nop operands => [("operands", refs ref operands)]
  | delay duration operands => [("duration", ref duration), ("operands", refs ref operands)]
  | box duration body => [("duration", ref? ref duration), ("body", ref body)]
  | assignment target op value =>
    [("target", ref target), ("op", op.toJson), ("value", ref value)]
  | exprStmt expr => [("expr", ref expr)]
  | returnStmt value => [("value", ref? ref value)]
  | breakStmt | continueStmt | endStmt | error | literal _ => []
  | ifStmt condition thenBranch elseBranch =>
    [("condition", ref condition), ("then_branch", ref thenBranch),
     ("else_branch", ref? ref elseBranch)]
  | forStmt type var iterable body =>
    [("ty", ref? ref type), ("var", ref var), ("iterable", ref iterable), ("body", ref body)]
  | whileStmt condition body => [("condition", ref condition), ("body", ref body)]
  | switchStmt subject cases => [("subject", ref subject), ("cases", refs ref cases)]
  | caseClause values body => [("values", refs ref values), ("body", ref body)]
  | defaultClause body => [("body", ref body)]
  | cal body => [("body", body)]
  | defcal target signature body =>
    [("target", target), ("signature", signature), ("body", body)]
  | scalarType scalar designator =>
    [("scalar", scalar.name), ("designator", ref? ref designator)]
  | complexType component => [("component", ref? ref component)]
  | qubitType size => [("size", ref? ref size)]
  | registerType register size => [("register", register.name), ("size", ref? ref size)]
  | arrayType element dims => [("element", ref element), ("dims", refs ref dims)]
  | arrayRefType isMutable element dims rank =>
    [("mutable", isMutable), ("element", ref element), ("dims", refs ref dims),
     ("rank", ref? ref rank)]
  | identifier name => [("name", name)]
  | hardwareQubit number => [("index", number)]
  | boolean value => [("value", value)]
  | bitstring bits => [("bits", bits)]
  | constant c => [("constant", c.name)]
  | paren inner => [("inner", ref inner)]
  | unary op operand => [("op", op.name), ("operand", ref operand)]
  | binary op lhs rhs => [("op", op.name), ("lhs", ref lhs), ("rhs", ref rhs)]
  | cast type operand => [("ty", ref type), ("operand", ref operand)]
  | call callee args => [("callee", ref callee), ("args", refs ref args)]
  | index base items => [("base", ref base), ("items", refs ref items)]
  | range start step stop =>
    [("start", ref? ref start), ("step", ref? ref step), ("end", ref? ref stop)]
  | set elements | arrayLiteral elements => [("elements", refs ref elements)]
  | durationOf body => [("scope", ref body)]

/-- The kind as a record. -/
def toJson (kind : NodeKind ι) : Json :=
  match kind with
  | literal value => .object [(kind.tag, value.toJson)]
  | breakStmt | continueStmt | endStmt | error => kind.tag
  | kind => .object [(kind.tag, .object (kind.fields ref))]

end

end NodeKind

def NodeId.toJson (id : NodeId) : Json := id.index

def Node.toJson (node : Node) : Json :=
  .object [("kind", node.kind.toJson NodeId.toJson), ("span", node.span.toJson)]

/-- The tree as a record. -/
def Tree.toJson (tree : Tree) : Json :=
  .object
    [("nodes", .array (tree.nodes.toList.map Node.toJson)),
     ("root", tree.root.toJson),
     ("comments", .array (tree.comments.map Span.toJson))]

end OpenQasm
