import OpenQasm.Tree.Basic
import OpenQasm.Tree.Fault

/-!
# Building trees

A builder takes nodes one after the other, children before their parents. Each node is checked as
it comes: its children are there, none of them has a parent yet, and each may take its place. What
was pushed since a mark can be dropped again.
-/

namespace OpenQasm

/-- A tree in the making. -/
structure Builder where
  nodes : Array Node := #[]
  /-- The parent of each node, if it has one yet. -/
  parents : Array (Option NodeId) := #[]
  comments : List Span := []
deriving Repr, Inhabited

namespace Builder

def size (builder : Builder) : Nat := builder.nodes.size

def node? (builder : Builder) (id : NodeId) : Option Node := builder.nodes[id.index]?

/-- Enter `parent` for each of the children, which must be there and have no parent. -/
def adopt (tag : String) (parent : NodeId) :
    List NodeId → Array (Option NodeId) → Except Fault (Array (Option NodeId))
  | [], parents => .ok parents
  | child :: children, parents =>
    match parents[child.index]? with
    | none => .error (.unknownNode tag child)
    | some (some _) => .error (.alreadyChild child)
    | some none => adopt tag parent children (parents.setIfInBounds child.index (some parent))

/-- Whether every child may take its place. -/
def fits (builder : Builder) (kind : NodeKind NodeId) : Bool :=
  kind.slots.all fun (slot, child) =>
    (builder.node? child).any fun node => slot.accepts node.kind

/-- Push a node. Its id is the number of nodes before it. -/
def push (builder : Builder) (kind : NodeKind NodeId) (span : Span) :
    Except Fault (NodeId × Builder) := do
  let id : NodeId := ⟨builder.size⟩
  let parents ← adopt kind.tag id kind.children builder.parents
  if builder.fits kind then
    return (id, { builder with
      nodes := builder.nodes.push { kind, span }
      parents := parents.push none })
  else
    throw (.wrongKind kind.tag)

/-- Replace what a node is. Nothing is checked. -/
def setKind (builder : Builder) (id : NodeId) (kind : NodeKind NodeId) : Builder :=
  { builder with nodes := builder.nodes.modify id.index fun node => { node with kind } }

/-- Note a comment. -/
def addComment (builder : Builder) (span : Span) : Builder :=
  { builder with comments := builder.comments ++ [span] }

/-- Release a child: it has no parent any more. -/
def release (parents : Array (Option NodeId)) (child : NodeId) : Array (Option NodeId) :=
  parents.setIfInBounds child.index none

/-- Drop every node from `mark` on. Their children that stay are released. -/
def truncate (builder : Builder) (mark : Nat) : Builder :=
  let dropped := builder.nodes.toList.drop mark
  let released := dropped.flatMap fun node => node.kind.children.filter (·.index < mark)
  { builder with
    nodes := builder.nodes.take mark
    parents := (released.foldl release builder.parents).take mark }

/-- The finished tree, whose root must be a program. -/
def finish (builder : Builder) (root : NodeId) : Except Fault Tree :=
  match builder.node? root with
  | some { kind := .program _, .. } =>
    .ok { nodes := builder.nodes, root, comments := builder.comments }
  | _ => .error .rootKind

end Builder

end OpenQasm
