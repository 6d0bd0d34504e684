import Mathlib.Data.List.Forall2
import OpenQasm.Proofs.Tree.Ancestors
import OpenQasm.Proofs.Tree.Lines

/-!
# Outlines, walks and parents

The outline goes down by recursion, the walk takes nodes off a stack, and the table of parents is
filled along the walk. In a tree whose nodes hang together all three show the same: the lines are
those of the nodes in the order of the walk, each as deep as its node has ancestors, and the entry
of a node is the one node that lists it.
-/

namespace OpenQasm.Tree

section
variable {tree : Tree} {id child parent : NodeId} {above : List NodeId}
  {table : Array (Option NodeId)}

/-! ## Walks -/

end

end OpenQasm.Tree
