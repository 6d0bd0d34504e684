import OpenQasm.Yaml.Scalar

/-!
# Nodes of YAML documents

A node is a text, a sequence or a mapping, or a reference to a node that has an anchor. What is
not written where a node may stand counts as a plain scalar without text.
-/

namespace OpenQasm.Yaml

inductive Node where
  | scalar (text : List Char) (style : Style) (tag : Option (List Char))
  | sequence (items : List Node)
  | mapping (pairs : List (Node × Node))
  /-- A place for the node that has the anchor with a number. -/
  | reference (anchor : Nat)
deriving Repr, Inhabited

/-- The node where nothing is written. -/
def Node.absent : Node := .scalar [] .plain none

/-- Whether a node may stand for nothing: a plain scalar without text. -/
def Node.isAbsent : Node → Bool
  | scalar text style _ => text.isEmpty && style == .plain
  | _ => false

end OpenQasm.Yaml
