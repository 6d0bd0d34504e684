import OpenQasm.Text.Quoted
import OpenQasm.Tree.Basic

/-!
# Outlines

A tree is written one node a line, each line two spaces deeper than its parent's. A line names the
kind of the node, what it carries besides its children, and its span.
-/

namespace OpenQasm

/-- What a line of an outline says of a node between its tag and its span. -/
def NodeKind.details {ι : Type} : NodeKind ι → String
  | .versionPragma version => s!" {version}"
  | .includeFile path _ | .includeError path => s!" {Text.quote path}"
  | .calibrationGrammar name => s!" {Text.quote name}"
  | .pragma content => s!" {Text.quote content}"
  | .annotationLine keyword _ => s!" @{keyword}"
  | .registerDecl register .. | .registerType register _ => s!" {register.name}"
  | .ioDecl direction .. => s!" {direction.name}"
  | .gateModifier modifier _ => s!" {modifier.name}"
  | .assignment _ op _ => s!" {op.sign}"
  | .defcal target .. => s!" {target}"
  | .scalarType scalar _ => s!" {scalar.keyword}"
  | .arrayRefType isMutable .. => if isMutable then " mutable" else " readonly"
  | .identifier name => s!" {name}"
  | .hardwareQubit number => s!" ${number}"
  | .literal value => s!" {value} ({value.kind})"
  | .boolean value => s!" {value}"
  | .bitstring bits => s!" \"{bits}\""
  | .constant c => s!" {c.name}"
  | .unary op _ => s!" {op.sign}"
  | .binary op .. => s!" {op.sign}"
  | _ => ""

namespace Tree

/-- The line of one node, so many levels below the root. -/
def outlineLine (level : Nat) (node : Node) : String :=
  String.ofList (List.replicate (2 * level) ' ') ++ node.kind.tag ++ node.kind.details ++
    s!" [{node.span.start}..{node.span.stop}]"

/-- The lines of a node at a level and of all below it, down to so many levels more. -/
def outlineFrom (tree : Tree) : Nat → Nat → NodeId → List String
  | 0, _, _ => []
  | levels + 1, level, id =>
    match tree.node? id with
    | some node =>
      outlineLine level node :: node.kind.children.flatMap (tree.outlineFrom levels (level + 1))
    | none => []

/-- The whole tree, a line for each node. -/
def outline (tree : Tree) : List String := tree.outlineFrom tree.size 0 tree.root

end Tree

end OpenQasm
