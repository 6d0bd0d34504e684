import OpenQasm.Grammar.Program
import OpenQasm.Include.Graph
import OpenQasm.Source.Map
import OpenQasm.Tree.Graft

/-!
# Programs in files

A program as it was read: its sources, the tree of each, which of them includes which, and what was
reported so far.
-/

namespace OpenQasm

/-- The files of a program, each with a tree of its own. -/
structure Program where
  sources : SourceMap := {}
  /-- The trees of the sources that have been parsed, by their ids. -/
  trees : Array Tree := #[]
  graph : IncludeGraph := {}
  diagnostics : Diagnostics := {}

namespace Program

/-- The tree of a source, if it has been parsed. -/
def tree? (program : Program) (id : SourceId) : Option Tree := program.trees[id.index]?

/-- Replace the tree of a source. -/
def setTree (program : Program) (id : SourceId) (tree : Tree) : Program :=
  { program with trees := program.trees.setIfInBounds id.index tree }

def report (program : Program) (diagnostic : Diagnostic) : Program :=
  { program with diagnostics := program.diagnostics.push diagnostic }

/-- The version statement with which a source begins, and its span. -/
def leadingVersion? (program : Program) (id : SourceId) : Option (Version × Span) := do
  let tree ← program.tree? id
  let node ← tree.node? (← tree.items.head?)
  match node.kind with
  | .versionPragma version => return (version, node.span)
  | _ => none

end Program

end OpenQasm
