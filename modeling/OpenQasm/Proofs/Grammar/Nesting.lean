import OpenQasm.Proofs.Grammar.Texts

/-!
# Nesting of spans

In the tree of a parse the children of each node stand in a row within the span of the node, and the
program spans the whole text. The nodes of a forest have this property whatever was pushed, failed
and was dropped before.
-/

namespace OpenQasm

/-- The span of a node of a tree. -/
def Tree.span? (tree : Tree) (id : NodeId) : Option Span := (tree.node? id).map Node.span

/-- The span of every node begins before it ends, and its children are nodes of the tree whose spans
follow each other within it, in the order in which they are listed. -/
def Tree.Nested (tree : Tree) : Prop :=
  ∀ id node, tree.node? id = some node → node.span.start ≤ node.span.stop ∧
    ∃ spans, (tree.children id).map tree.span? = spans.map some ∧
      Span.InRow node.span.source node.span.start node.span.stop spans

namespace Grammar

/-- The span of a node among those from an index on. -/
def spanFrom? (first : Nat) (nodes : List Node) (id : NodeId) : Option Span :=
  if first ≤ id.index then (nodes[id.index - first]?).map Node.span else none

/-- The span of a node is well placed among the nodes from an index on. -/
def WellPlaced (source : SourceId) (first : Nat) (nodes : List Node) (node : Node) : Prop :=
  node.span.source = source ∧ node.span.start ≤ node.span.stop ∧
    ∃ spans, node.kind.children.map (spanFrom? first nodes) = spans.map some ∧
      Span.InRow source node.span.start node.span.stop spans

section
variable {source : SourceId} {first first' : Nat} {nodes nodes' more : List Node} {node : Node}
  {parents : List (Option NodeId)} {roots : List Placed}

/-- A node stays well placed where its children keep their spans. -/
theorem WellPlaced.mono (h : WellPlaced source first nodes node)
    (hm : ∀ id span, spanFrom? first nodes id = some span →
      spanFrom? first' nodes' id = some span) :
    WellPlaced source first' nodes' node := by
  obtain ⟨hs, hle, spans, hspans, hrow⟩ := h
  refine ⟨hs, hle, spans, ?_, hrow⟩
  rw [← hspans]
  refine List.map_congr_left fun id hid => ?_
  have hmem : spanFrom? first nodes id ∈ spans.map some := hspans ▸ List.mem_map_of_mem hid
  obtain ⟨span, -, hspan⟩ := List.mem_map.1 hmem
  rw [← hspan, hm id span hspan.symm]

theorem spanFrom?_append_left {id : NodeId} {span : Span}
    (h : spanFrom? first nodes id = some span) :
    spanFrom? first (nodes ++ more) id = some span := by
  unfold spanFrom? at h ⊢
  split at h
  · next hle =>
    rw [if_pos hle]
    obtain ⟨node, hnode, rfl⟩ := Option.map_eq_some_iff.1 h
    rw [List.getElem?_append_left (List.getElem?_eq_some_iff.1 hnode).1, hnode, Option.map_some]
  · cases h

theorem spanFrom?_append_right {id : NodeId} {span : Span}
    (h : spanFrom? (first + nodes.length) more id = some span) :
    spanFrom? first (nodes ++ more) id = some span := by
  unfold spanFrom? at h ⊢
  split at h
  · next hle =>
    rw [if_pos (by omega), List.getElem?_append_right (by omega), ← h]
    congr 2
    omega
  · cases h

/-- The roots of a forest have the spans that they are placed with. -/
theorem Forest.map_spanFrom? (h : Forest source first nodes parents roots) :
    (roots.map Placed.id).map (spanFrom? first nodes) = (roots.map Placed.span).map some := by
  rw [List.map_map, List.map_map]
  refine List.map_congr_left fun root hr => ?_
  obtain ⟨hle, hroot⟩ := h.root_mem hr
  simp [spanFrom?, hle, hroot]

/-- Every node of a forest is well placed in it. -/
theorem Forest.wellPlaced (h : Forest source first nodes parents roots) :
    ∀ node ∈ nodes, WellPlaced source first nodes node := by
  induction h with
  | nil => exact fun _ hn => nomatch hn
  | append _ _ ih ih' =>
    intro node hn
    rcases List.mem_append.1 hn with hn | hn
    · exact (ih node hn).mono fun _ _ => spanFrom?_append_left
    · exact (ih' node hn).mono fun _ _ => spanFrom?_append_right
  | @node first nodes parents kind span h _ _ hs hle hrow ih =>
    intro node hn
    rcases List.mem_append.1 hn with hn | hn
    · exact (ih node hn).mono fun _ _ => spanFrom?_append_left
    · obtain rfl := List.mem_singleton.1 hn
      have hwell : WellPlaced source first nodes ⟨kind.map Placed.id, span⟩ :=
        ⟨hs, hle, _, by rw [NodeKind.children_map]; exact h.map_spanFrom?, hrow⟩
      exact hwell.mono fun _ _ => spanFrom?_append_left

end

/-- The spans of a parse are nested: every tree it returns is nested, and its root is a program that
spans the whole text. It returns a tree unless the machine numbers do not suffice. -/
theorem parse_nested (source : SourceId) (text : List Char) (options : ParseOptions) :
    (∃ output items, parse source text options = .ok output ∧ output.tree.Nested ∧
      output.tree.node? output.tree.root =
        some ⟨.program items, ⟨source, 0, min (Text.width text) maxOffset⟩⟩) ∨
    Crashes source text options := by
  refine (parse_completes source text options).imp_left ?_
  rintro ⟨root, state, output, ⟨items, nodes, parents, hforest, hrow, hroot, hnodes, -⟩, hparse,
    htree, hid, -⟩
  have hall : output.tree.nodes.toList = nodes ++ [⟨root.kind, root.span⟩] := by
    rw [htree, hnodes]
    simp [startState]
  have hnode : ∀ id, output.tree.node? id = (nodes ++ [⟨root.kind, root.span⟩])[id.index]? :=
    fun id => by rw [Tree.node?, ← hall, Array.getElem?_toList]
  have hspan : output.tree.span? = spanFrom? 0 (nodes ++ [⟨root.kind, root.span⟩]) := by
    funext id
    simp [Tree.span?, spanFrom?, hnode]
  have hprogram : WellPlaced source 0 nodes ⟨root.kind, root.span⟩ := by
    rw [hroot]
    refine ⟨rfl, Nat.zero_le _, items.map Placed.span, ?_, hrow⟩
    rw [← hforest.map_spanFrom?]
    simp [NodeKind.children, NodeKind.slots, startState, Builder.size]
  refine ⟨output, items.map Placed.id, hparse, fun id node hn => ?_, ?_⟩
  · have hwell : WellPlaced source 0 nodes node := by
      rw [hnode] at hn
      rcases List.mem_append.1 (List.mem_of_getElem? hn) with hm | hm
      · exact hforest.wellPlaced node hm
      · exact List.mem_singleton.1 hm ▸ hprogram
    have hwell' : WellPlaced source 0 (nodes ++ [⟨root.kind, root.span⟩]) node :=
      hwell.mono fun _ _ => spanFrom?_append_left
    obtain ⟨hs, hle, spans, hspans, hinside⟩ := hwell'
    refine ⟨hle, spans, ?_, hs ▸ hinside⟩
    rw [Tree.children, hn, hspan]
    exact hspans
  · rw [hid, hnode, hroot]
    simp [startState, Builder.size, Reading.limit, Reading.ofText]

end Grammar

end OpenQasm
