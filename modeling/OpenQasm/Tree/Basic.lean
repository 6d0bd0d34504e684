import OpenQasm.Span
import OpenQasm.Tree.Kind

/-!
# Syntax trees

A tree keeps its nodes in one array and refers to them by their ids. The walk, the table of
parents and the outline go through the nodes that the root leads to.
-/

namespace OpenQasm

/-- A node: what it is, and the text it was read from. -/
structure Node where
  kind : NodeKind NodeId
  span : Span
deriving Repr

/-- A program as a tree of nodes. -/
structure Tree where
  nodes : Array Node
  root : NodeId
  /-- The spans of the comments in the order of the text. -/
  comments : List Span
deriving Repr

namespace Tree

def size (tree : Tree) : Nat := tree.nodes.size

def node? (tree : Tree) (id : NodeId) : Option Node := tree.nodes[id.index]?

def kind? (tree : Tree) (id : NodeId) : Option (NodeKind NodeId) := (tree.node? id).map Node.kind

/-- The children of a node in the order of the text. -/
def children (tree : Tree) (id : NodeId) : List NodeId :=
  match tree.node? id with
  | some node => node.kind.children
  | none => []

/-- The top-level statements of the program. -/
def items (tree : Tree) : List NodeId :=
  match tree.kind? tree.root with
  | some (.program items) => items
  | _ => []

/-! ## Walks -/

/-- The nodes on a stack and all below them, each before its children, as far as so many steps
lead. A step takes a node off the stack and puts its children in its place. -/
def walkFrom (tree : Tree) : Nat → List NodeId → List NodeId
  | 0, _ => []
  | _ + 1, [] => []
  | steps + 1, id :: stack => id :: tree.walkFrom steps (tree.children id ++ stack)

/-- The number of places at which a node and those below it stand, down to so many levels. A node
that several others lead to stands at several places. -/
def places (tree : Tree) : Nat → NodeId → Nat
  | 0, _ => 0
  | levels + 1, id => (tree.children id).foldl (fun n child => n + tree.places levels child) 1

/-- The node and all below it, each before its children. Every step takes one place, and no way
down leads through more levels than there are nodes. -/
def walk (tree : Tree) (id : NodeId) : List NodeId :=
  tree.walkFrom (tree.places tree.size id) [id]

/-- All nodes that the root leads to, each before its children. -/
def descendants (tree : Tree) : List NodeId := tree.walk tree.root

/-- Enter a node as the parent of its children. -/
def enterParent (tree : Tree) (parents : Array (Option NodeId)) (id : NodeId) :
    Array (Option NodeId) :=
  (tree.children id).foldl (fun parents child => parents.setIfInBounds child.index (some id))
    parents

/-- The parent of every node that the root leads to, by the ids of the nodes. Of several parents
the last one on the walk is entered. -/
def parents (tree : Tree) : Array (Option NodeId) :=
  tree.descendants.foldl tree.enterParent (Array.replicate tree.size none)

@[simp] theorem walkFrom_nil (tree : Tree) (steps : Nat) : tree.walkFrom steps [] = [] := by
  cases steps <;> rfl

theorem walkFrom_cons (tree : Tree) (steps : Nat) (id : NodeId) (stack : List NodeId) :
    tree.walkFrom (steps + 1) (id :: stack) =
      id :: tree.walkFrom steps (tree.children id ++ stack) := rfl

end Tree

end OpenQasm
