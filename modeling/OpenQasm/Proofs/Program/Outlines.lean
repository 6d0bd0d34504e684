import OpenQasm.Proofs.Grammar.Kinds
import OpenQasm.Proofs.Program.Trees
import OpenQasm.Proofs.Tree.Outline

/-!
# Outlines of parses and compilations

The tree of a parse hangs together, and no token that becomes a name, a keyword of an annotation, a
target of a calibration or a bitstring goes beyond its line. A mark leaves the path of a statement,
and a graft copies the texts of the nodes. So the outline of every tree that a parse or a
compilation gives has one line for each node.
-/

namespace OpenQasm

namespace Tree

/-- A well-kinded tree the texts of which stand on one line each. -/
structure Legible (tree : Tree) : Prop extends tree.WellKinded where
  lines : ∀ id node, tree.node? id = some node → node.kind.isOneLine

section
variable {tree marked other grafted : Tree} {target : NodeId} {path : String} {span : Span}
  {cut : NodeId → Prop}

theorem Legible.marks (h : tree.Legible) (hm : Marks tree marked cut) : marked.Legible where
  toWellKinded := h.toWellKinded.marks hm
  lines := by
    intro id node hn
    by_cases hid : cut id
    · obtain ⟨path, span, -, herror⟩ := hm.cut id hid
      obtain rfl := Option.some.inj (hn.symm.trans herror)
      rfl
    · exact h.lines id node (hm.same id hid ▸ hn)

theorem Legible.grafts (h : tree.Legible) (ho : other.Legible)
    (hn : tree.node? target = some ⟨.includeFile path [], span⟩)
    (hg : Grafts tree target other grafted) : grafted.Legible where
  toWellKinded := hg.wellKinded h.toWellKinded ho.toWellKinded hn
  lines := by
    intro id node hnode
    by_cases hid : id.index < tree.size
    · by_cases htarget : id = target
      · subst htarget
        obtain rfl := Option.some.inj ((hg.target path span hn).symm.trans hnode)
        rfl
      · exact h.lines id node (hg.same id hid htarget ▸ hnode)
    · obtain ⟨part, hpart, rfl⟩ := hg.copied (Nat.le_of_not_lt hid) hnode
      simp [ho.lines _ part hpart]

end

end Tree

end OpenQasm
