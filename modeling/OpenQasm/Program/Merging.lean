import OpenQasm.Program.Basic

/-!
# Merging programs

The trees of all sources become one: every include statement receives the statements of the source
that it leads to.
-/

namespace OpenQasm.Program

/-- Trees with all their includes merged, by their sources. -/
abbrev Merged := List (SourceId × Tree)

/-- Graft the tree that an include statement leads to. Statements that were left out before stay
so. -/
def graftInclude (merged : Merged) (tree : Tree) (edge : Inclusion) : Except Fault Tree :=
  match tree.kind? edge.node with
  | some (.includeFile ..) =>
    match merged.lookup edge.included with
    | some included => tree.graft edge.node included
    | none => tree.markIncludeError edge.node
  | some _ => .ok tree
  | none => .error (.unknownNode "Include" edge.node)

/-- Merge the tree of one source after those of the sources that it includes. -/
def mergeSource (program : Program) (merged : Merged) (source : SourceId) :
    Except Fault Merged :=
  match program.tree? source with
  | none => .ok merged
  | some tree => do
    let tree ← (program.graph.includesOf source).foldlM (graftInclude merged) tree
    return (source, tree) :: merged

/-- The tree of the entry with all includes merged. A program without sources has none. -/
def merge? (program : Program) (entry : SourceId) : Except Fault (Option Tree) := do
  let merged ← (program.graph.mergeOrder entry []).foldlM program.mergeSource []
  return merged.lookup entry

end OpenQasm.Program
