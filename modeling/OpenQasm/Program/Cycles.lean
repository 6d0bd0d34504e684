import OpenQasm.Program.Basic

/-!
# Cycles of includes

An include statement that leads back to a source that is being included is reported and left out.
-/

namespace OpenQasm.Program

/-- What is said of an include statement that closes a cycle. -/
def cyclic (name : String) (span : Span) : Diagnostic where
  code := .includeCycle
  span := span
  message := s!"`{name}` is already being included; this include forms a cycle"
  notes := ["the cyclic include is skipped"]

/-- Report an include statement and mark it in its tree. -/
def cutInclude (program : Program) (edge : Inclusion) : Except Fault Program :=
  match program.tree? edge.includer with
  | none => .ok program
  | some tree =>
    match tree.kind? edge.node with
    | some (.includeFile name _) => do
      let tree ← tree.markIncludeError edge.node
      return (program.report (cyclic name edge.span)).setTree edge.includer tree
    | some _ => .ok program
    | none => .error (.unknownNode "Include" edge.node)

/-- Cut every include statement that closes a cycle. -/
def cutCycles (program : Program) (entry : SourceId) : Except Fault Program :=
  ((program.graph.backEdges entry).filterMap program.graph.edge?).foldlM cutInclude program

end OpenQasm.Program
