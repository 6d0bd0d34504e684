import OpenQasm.Proofs.Grammar.Arena
import OpenQasm.Proofs.Tree.Kinds

/-!
# Kinds in parses

The builder checks the kinds of the children when a node is pushed over them, and no child becomes
another kind of node later on, but a literal another literal. So the tree of a parse is well-kinded.
-/

namespace OpenQasm

namespace Grammar

/-- The children of a node are among the nodes from an index on, and may take their places. -/
def FitsIn (first : Nat) (nodes : List Node) (node : Node) : Prop :=
  ∀ place ∈ node.kind.slots, ∃ child, first ≤ place.2.index ∧
    nodes[place.2.index - first]? = some child ∧ place.1.accepts child.kind

section
variable {source : SourceId} {first : Nat} {nodes more : List Node} {node : Node}
  {parents : List (Option NodeId)} {roots : List Placed}

theorem FitsIn.append_left (h : FitsIn first nodes node) : FitsIn first (nodes ++ more) node := by
  intro place hp
  obtain ⟨child, hle, hchild, haccepts⟩ := h place hp
  refine ⟨child, hle, ?_, haccepts⟩
  rw [List.getElem?_append_left (List.getElem?_eq_some_iff.1 hchild).1, hchild]

theorem FitsIn.append_right (h : FitsIn (first + nodes.length) more node) :
    FitsIn first (nodes ++ more) node := by
  intro place hp
  obtain ⟨child, hle, hchild, haccepts⟩ := h place hp
  refine ⟨child, by omega, ?_, haccepts⟩
  rw [List.getElem?_append_right (by omega), Nat.sub_sub, hchild]

/-- A node over the roots of a forest fits if the roots may take their places. -/
theorem Forest.fitsIn_over {kind : NodeKind Placed}
    (h : Forest source first nodes parents kind.children)
    (hfit : ∀ place ∈ kind.slots, place.1.accepts place.2.kind) (span : Span) :
    FitsIn first nodes ⟨kind.map Placed.id, span⟩ := by
  intro place hp
  rw [NodeKind.slots_map] at hp
  obtain ⟨⟨slot, root⟩, hroot, rfl⟩ := List.mem_map.1 hp
  obtain ⟨hle, hnode⟩ := h.root_mem (show root ∈ kind.children from List.mem_map_of_mem hroot)
  exact ⟨_, hle, hnode, hfit _ hroot⟩

/-- Every node of a forest fits. -/
theorem Forest.fitsIn (h : Forest source first nodes parents roots) :
    ∀ node ∈ nodes, FitsIn first nodes node := by
  induction h with
  | nil => exact fun _ hn => nomatch hn
  | append _ _ ih ih' =>
    intro node hn
    rcases List.mem_append.1 hn with hn | hn
    · exact (ih node hn).append_left
    · exact (ih' node hn).append_right
  | node kind span h hfit _ _ _ _ ih =>
    intro node hn
    rcases List.mem_append.1 hn with hn | hn
    · exact (ih node hn).append_left
    · obtain rfl := List.mem_singleton.1 hn
      exact (h.fitsIn_over hfit span).append_left

end

/-- The tree of a parse is well-kinded. -/
theorem parse_wellKinded {source : SourceId} {text : List Char} {options : ParseOptions}
    {output : ParseOutput} (h : parse source text options = .ok output) :
    output.tree.WellKinded := by
  have hgrounded := (parse_grounded h).1
  refine ⟨hgrounded.root, parse_joined h, fun id node hn place hp => ?_⟩
  rcases parse_forest source text options with
    ⟨output', items, nodes, parents, hok, hforest, hfit, hnodes, -⟩ | ⟨_, herror, -⟩
  · obtain rfl := Except.ok.inj (h.symm.trans hok)
    have hnode : ∀ id, output.tree.node? id = (nodes ++ [_])[id.index]? := fun id => by
      rw [Tree.node?, ← Array.getElem?_toList, hnodes]
    have hover : FitsIn 0 nodes ⟨(NodeKind.program items).map Placed.id,
        ⟨source, 0, min (Text.width text) maxOffset⟩⟩ :=
      Forest.fitsIn_over (by rwa [NodeKind.children_program]) hfit _
    have hfits : FitsIn 0 nodes node := by
      rw [hnode] at hn
      rcases List.mem_append.1 (List.mem_of_getElem? hn) with hm | hm
      · exact hforest.fitsIn node hm
      · exact List.mem_singleton.1 hm ▸ hover
    obtain ⟨child, -, hchild, haccepts⟩ := hfits.append_left place hp
    exact ⟨child, (hnode place.2).trans hchild, haccepts⟩
  · cases h.symm.trans herror

end Grammar

end OpenQasm
