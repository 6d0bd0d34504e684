import OpenQasm.Tree.Basic
import OpenQasm.Tree.Fault

/-!
# Grafting trees

The statements of an included program become the items of the include statement. The nodes of the
included tree are appended with new ids, all but its root; their spans stay, so that every node
still points at the file that it came from.
-/

namespace OpenQasm.Tree

/-- The new id of a node of a tree that is appended after `offset` nodes without its root. -/
def shift (offset root : Nat) (id : NodeId) : NodeId :=
  ⟨offset + if root < id.index then id.index - 1 else id.index⟩

/-- The nodes of `other`, all but its root, as they stand after `offset` other nodes. -/
def shifted (offset : Nat) (other : Tree) : Array Node :=
  (other.nodes.eraseIdxIfInBounds other.root.index).map fun node =>
    { node with kind := node.kind.map (shift offset other.root.index) }

/-- Whether the root stands below another node, or among its own statements. -/
def hasRootChild (tree : Tree) : Bool :=
  tree.items.contains tree.root ||
    (tree.nodes.eraseIdxIfInBounds tree.root.index).any fun node =>
      node.kind.children.contains tree.root

/-- Put the statements of `other` into the include statement `target`, which must be empty. The root
of `other` gets no new id, so that it must not be a child. -/
def graft (tree : Tree) (target : NodeId) (other : Tree) : Except Fault Tree :=
  if other.hasRootChild then .error .rootChild
  else
    match tree.kind? target with
    | some (.includeFile path []) =>
      let items := other.items.map (shift tree.size other.root.index)
      let nodes := tree.nodes.modify target.index fun node =>
        { node with kind := .includeFile path items }
      .ok { tree with
        nodes := nodes ++ shifted tree.size other
        comments := tree.comments ++ other.comments }
    | some (.includeFile _ (_ :: _)) => .error .graftedTwice
    | some kind => .error (.graftTarget kind.tag)
    | none => .error (.unknownNode "Include" target)

/-- Turn an include statement into the mark of a file that is not there. Other nodes stay. -/
def markIncludeError (tree : Tree) (target : NodeId) : Except Fault Tree :=
  match tree.kind? target with
  | some (.includeFile path []) =>
    .ok { tree with
      nodes := tree.nodes.modify target.index fun node => { node with kind := .includeError path } }
  | some (.includeFile _ (_ :: _)) => .error .alreadyGrafted
  | some _ => .ok tree
  | none => .error (.unknownNode "Include" target)

end OpenQasm.Tree
