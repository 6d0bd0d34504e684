import OpenQasm.Proofs.Grammar.Texts
import OpenQasm.Proofs.Tree.Graft

/-!
# Trees of parses

In the tree of a parse the children of a node come before it, and the program is the last node. The
include statements are empty, and none of them is marked as an error.
-/

namespace OpenQasm

/-- Replacing references leaves kinds fresh. -/
theorem NodeKind.isFresh_map {ι κ : Type} (f : ι → κ) (kind : NodeKind ι) :
    (kind.map f).isFresh = kind.isFresh := by
  cases kind <;> try rfl
  next path items => cases items <;> rfl

namespace Grammar

section
variable {source : SourceId} {first : Nat} {nodes : List Node} {parents : List (Option NodeId)}
  {roots : List Placed} {node : Node} {index : Nat}

/-- The children of a node of a forest come before it. -/
theorem Forest.child_lt (h : Forest source first nodes parents roots)
    (hn : nodes[index]? = some node) :
    ∀ child ∈ node.kind.children, child.index < first + index := by
  induction h generalizing index with
  | nil => cases hn
  | @append first nodes more _ _ _ _ _ _ ih ih' =>
    rw [List.getElem?_append] at hn
    split at hn
    · exact ih hn
    · intro child hc
      have := ih' hn child hc
      omega
  | @node first nodes parents kind span h _ _ _ _ _ ih =>
    rw [List.getElem?_append] at hn
    split at hn
    · exact ih hn
    · obtain ⟨hzero, hnode⟩ := List.getElem?_eq_some_iff.1 hn
      rw [List.getElem_singleton] at hnode
      subst hnode
      intro child hc
      rw [NodeKind.children_map, List.mem_map] at hc
      obtain ⟨root, hr, rfl⟩ := hc
      obtain ⟨hle, hroot⟩ := h.root_mem hr
      have := (List.getElem?_eq_some_iff.1 hroot).1
      omega

/-- The roots of a forest are in the order of their ids. -/
theorem Forest.roots_ordered (h : Forest source first nodes parents roots) :
    roots.Pairwise fun left right => left.id.index < right.id.index := by
  induction h with
  | nil => exact .nil
  | append h h' ih ih' =>
    refine List.pairwise_append.2 ⟨ih, ih', fun left hl right hr => ?_⟩
    obtain ⟨hle, hroot⟩ := h.root_mem hl
    have := (List.getElem?_eq_some_iff.1 hroot).1
    have := (h'.root_mem hr).1
    omega
  | node => exact List.pairwise_singleton ..

/-- No node of a forest is a program, a marked include statement or one with items. -/
theorem Forest.fresh (h : Forest source first nodes parents roots) :
    ∀ node ∈ nodes, node.kind.isFresh := by
  induction h with
  | nil => exact fun _ hn => nomatch hn
  | append _ _ ih ih' => exact fun node hn => (List.mem_append.1 hn).elim (ih node) (ih' node)
  | node kind span _ _ hfresh _ _ _ ih =>
    intro node hn
    rcases List.mem_append.1 hn with hn | hn
    · exact ih node hn
    · obtain rfl := List.mem_singleton.1 hn
      exact (NodeKind.isFresh_map _ kind).trans hfresh

end

/-- The tree of a parse is grounded, all its nodes but the root are fresh, and its reports are about
the text. -/
theorem parse_grounded {source : SourceId} {text : List Char} {options : ParseOptions}
    {output : ParseOutput} (h : parse source text options = .ok output) :
    output.tree.Grounded ∧ (∀ id node, output.tree.node? id = some node →
      id ≠ output.tree.root → node.kind.isFresh) ∧
      ∀ diagnostic ∈ output.diagnostics, diagnostic.code.isOfText := by
  rcases parse_forest source text options with
    ⟨output', items, nodes, parents, hok, hforest, -, hnodes, hroot, hreports⟩ | ⟨_, herror, -⟩
  · obtain rfl := Except.ok.inj (hok.symm.trans h)
    have hnode : ∀ id, output'.tree.node? id = (nodes ++ [_])[id.index]? := fun id => by
      rw [Tree.node?, ← Array.getElem?_toList, hnodes]
    have hsize : output'.tree.size = nodes.length + 1 := by
      rw [Tree.size, ← Array.length_toList, hnodes, List.length_append, List.length_singleton]
    have hprogram := hnode output'.tree.root
    rw [hroot, List.getElem?_concat_length] at hprogram
    rw [← hroot] at hprogram
    refine ⟨⟨⟨_, _, hprogram⟩, by rw [hsize, hroot], fun id node hn => ?_, ?_⟩,
      fun id node hn hne => ?_, hreports⟩
    · rw [hnode, List.getElem?_append] at hn
      split at hn
      · have hlt := hforest.child_lt hn
        intro child hc
        have := hlt child hc
        omega
      · obtain ⟨hzero, hlast⟩ := List.getElem?_eq_some_iff.1 hn
        rw [List.getElem_singleton] at hlast
        subst hlast
        intro child hc
        rw [NodeKind.children_program] at hc
        obtain ⟨item, hi, rfl⟩ := List.mem_map.1 hc
        obtain ⟨-, hitem⟩ := hforest.root_mem hi
        have := (List.getElem?_eq_some_iff.1 hitem).1
        omega
    · rw [Tree.items_eq hprogram]
      refine List.Pairwise.map _ (fun left right hlt heq => ?_) hforest.roots_ordered
      rw [heq] at hlt
      omega
    · rw [hnode, List.getElem?_append] at hn
      split at hn
      · exact hforest.fresh node (List.mem_of_getElem? hn)
      · obtain ⟨hzero, -⟩ := List.getElem?_eq_some_iff.1 hn
        refine absurd ?_ (Tree.index_ne hne)
        have hindex : output'.tree.root.index = nodes.length := by rw [hroot]
        rw [List.length_singleton] at hzero
        omega
  · cases herror.symm.trans h

end Grammar

end OpenQasm
