import OpenQasm.Tree.Kind

/-!
# Faults of construction

Ways to ask for a tree that is none. They are mistakes of whoever builds the tree, not problems of
the program text.
-/

namespace OpenQasm

/-- A request that would leave no tree. -/
inductive Fault where
  /-- A child is no node yet. -/
  | unknownNode (tag : String) (child : NodeId)
  /-- A child stands below another node already. -/
  | alreadyChild (child : NodeId)
  /-- A child may not take its place. -/
  | wrongKind (tag : String)
  /-- The root is no program. -/
  | rootKind
  /-- The root of a tree that is grafted stands below one of its nodes. -/
  | rootChild
  /-- An include receives its statements a second time. -/
  | graftedTwice
  /-- An include that has its statements is to be an error. -/
  | alreadyGrafted
  /-- Statements are given to a node that is no include. -/
  | graftTarget (tag : String)
deriving DecidableEq, Repr

def Fault.message : Fault → String
  | unknownNode tag child => s!"{tag} references unknown node {child}"
  | alreadyChild child => s!"node {child} already has a parent"
  | wrongKind tag => s!"{tag} has a child of the wrong kind"
  | rootKind => "root must be a Program"
  | rootChild => "program root cannot be a child"
  | graftedTwice => "include grafted twice"
  | alreadyGrafted => "include already grafted"
  | graftTarget tag => s!"graft target is {tag}, not Include"

end OpenQasm
