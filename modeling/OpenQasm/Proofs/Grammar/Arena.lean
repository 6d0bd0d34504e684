import OpenQasm.Proofs.Grammar.Grounding
import OpenQasm.Proofs.Tree.Walk

/-!
# Arenas of parses

Nodes are pushed long before it is known whether their statement can be read, and are dropped again
when it cannot. What is left in the tree of a parse hangs together: the children of its nodes are
all the nodes but the program, each of them once. The checks of the builder pass for every node.
-/

namespace OpenQasm

/-- Push nodes one after the other. -/
def Builder.pushAll (builder : Builder) (nodes : List Node) : Except Fault Builder :=
  nodes.foldlM (fun builder node => do return (← builder.push node.kind node.span).2) builder

theorem Builder.pushAll_append (builder : Builder) (nodes more : List Node) :
    builder.pushAll (nodes ++ more) =
      (builder.pushAll nodes).bind fun pushed => pushed.pushAll more :=
  List.foldlM_append

theorem Builder.pushAll_singleton {builder pushed : Builder} {node : Node} {id : NodeId}
    (h : builder.push node.kind node.span = .ok (id, pushed)) :
    builder.pushAll [node] = .ok pushed := by
  simp only [pushAll, List.foldlM_cons, List.foldlM_nil, h]
  rfl

/-- So many ids in a row. -/
def idsFrom (first count : Nat) : List NodeId := (List.range' first count).map NodeId.mk

theorem idsFrom_add (first count more : Nat) :
    idsFrom first (count + more) = idsFrom first count ++ idsFrom (first + count) more := by
  rw [idsFrom, ← List.range'_append_1, List.map_append]
  rfl

/-- Every id of a row is there once. -/
theorem count_idsFrom (first count : Nat) (id : NodeId) :
    (idsFrom first count).count id =
      if first ≤ id.index ∧ id.index < first + count then 1 else 0 := by
  have hnodup : (idsFrom first count).Nodup :=
    List.Pairwise.map _ (fun _ _ hne heq => hne (congrArg NodeId.index heq)) List.nodup_range'
  have hmem : id ∈ idsFrom first count ↔ first ≤ id.index ∧ id.index < first + count := by
    simp only [idsFrom, List.mem_map, List.mem_range'_1]
    exact ⟨fun ⟨_, hi, heq⟩ => heq ▸ hi, fun hi => ⟨_, hi, rfl⟩⟩
  rw [hnodup.count, if_congr hmem rfl rfl]

namespace Tree

section
variable {tree : Tree} {nodes : List Node} {id : NodeId}

/-- A node that occurs once among the children of all nodes is the child of one node. -/
theorem exists_parent_of_count (h : (nodes.flatMap (·.kind.children)).count id = 1) :
    ∃ (index : Nat) (node : Node), nodes[index]? = some node ∧ node.kind.children.count id = 1 ∧
      ∀ (other : Nat) (node' : Node), nodes[other]? = some node' → id ∈ node'.kind.children →
        other = index := by
  induction nodes with
  | nil => cases h
  | cons first nodes ih =>
    rw [List.flatMap_cons, List.count_append] at h
    by_cases hfirst : id ∈ first.kind.children
    · have hpos := List.count_pos_iff.2 hfirst
      refine ⟨0, first, rfl, by omega, fun other node' hn hm => ?_⟩
      cases other with
      | zero => rfl
      | succ other =>
        have hnone := List.count_eq_zero.1
          (show (nodes.flatMap (·.kind.children)).count id = 0 by omega)
        rw [List.getElem?_cons_succ] at hn
        exact absurd (List.mem_flatMap.2 ⟨node', List.mem_of_getElem? hn, hm⟩) hnone
    · rw [List.count_eq_zero_of_not_mem hfirst, Nat.zero_add] at h
      obtain ⟨index, node, hnode, hone, hother⟩ := ih h
      refine ⟨index + 1, node, hnode, hone, fun other node' hn hm => ?_⟩
      cases other with
      | zero =>
        obtain rfl := Option.some.inj hn
        exact absurd hm hfirst
      | succ other => rw [hother other node' hn hm]

/-- Children come before their parents. So a tree hangs together if its last node is the root and
the children of its nodes are all the others. -/
theorem Grounded.joined (h : tree.Grounded)
    (hall : (tree.nodes.toList.flatMap (·.kind.children)).Perm (idsFrom 0 tree.root.index)) :
    tree.Joined := by
  have hbelow : ∀ id, ∀ child ∈ tree.children id,
      child.index < id.index ∧ id.index < tree.size := by
    intro id child hc
    obtain ⟨node, hnode, hm⟩ := node?_of_mem_children hc
    exact ⟨h.below id node hnode child hm, index_lt_of_node? hnode⟩
  have hlast := h.last
  refine ⟨by omega, fun id hm => ?_, fun id child hc => ?_, fun id hid hne => ?_,
    fun id => if id.index < tree.size then id.index else 0, fun id => ?_, fun id child hc => ?_⟩
  · have := hbelow id _ hm
    omega
  · have := hbelow id child hc
    omega
  · have := index_ne hne
    have hcount : (tree.nodes.toList.flatMap (·.kind.children)).count id = 1 := by
      rw [hall.count_eq, count_idsFrom, if_pos (by omega)]
    obtain ⟨index, node, hnode, hone, hother⟩ := exists_parent_of_count hcount
    rw [Array.getElem?_toList] at hnode
    refine ⟨⟨index⟩, by rwa [children_of_node? hnode], fun other hm => ?_⟩
    obtain ⟨node', hnode', hm'⟩ := node?_of_mem_children hm
    exact congrArg NodeId.mk (hother other.index node' (by rwa [Array.getElem?_toList]) hm')
  · dsimp only
    split <;> omega
  · have := hbelow id child hc
    dsimp only
    rw [if_pos (by omega), if_pos this.2]
    exact this.1

end

end Tree

namespace Grammar

section
variable {source : SourceId} {first : Nat} {nodes : List Node} {parents : List (Option NodeId)}
  {roots : List Placed} {before : Builder}

/-- The nodes of a forest are its roots and the children of its nodes, each of them once. -/
theorem Forest.children_perm (h : Forest source first nodes parents roots) :
    (nodes.flatMap (·.kind.children) ++ roots.map Placed.id).Perm (idsFrom first nodes.length) := by
  induction h with
  | nil => exact .nil
  | @append first nodes more _ _ roots roots' _ _ ih ih' =>
    rw [List.flatMap_append, List.map_append, List.length_append, idsFrom_add]
    refine .trans ?_ (ih.append ih')
    rw [List.append_assoc, List.append_assoc]
    refine .append_left _ ?_
    rw [← List.append_assoc, ← List.append_assoc]
    exact List.perm_append_comm.append_right _
  | @node first nodes _ kind span _ _ _ _ _ _ ih =>
    rw [List.flatMap_append, List.length_append, idsFrom_add, List.flatMap_singleton,
      NodeKind.children_map]
    exact ih.append_right _

/-- The nodes of a forest can be pushed one after the other. -/
theorem Forest.pushAll (h : Forest source first nodes parents roots) (hf : first = before.size)
    (hb : Sized before) :
    before.pushAll nodes = .ok
      { nodes := before.nodes ++ nodes.toArray
        parents := before.parents ++ parents.toArray
        comments := before.comments } := by
  induction h generalizing before with
  | nil => simp [Builder.pushAll, pure, Except.pure]
  | @append first nodes more parents _ _ _ h _ ih ih' =>
    rw [Builder.pushAll_append, ih hf hb, Except.bind,
      ih' (by simp [hf, Builder.size]) (by simp [Sized, h.length_parents, show _ = _ from hb])]
    simp
  | @node first nodes parents kind span h hfit _ _ _ _ ih =>
    subst hf
    rw [Builder.pushAll_append, ih rfl hb, Except.bind,
      Builder.pushAll_singleton (h.push hb span hfit)]

/-- So can those of a forest and a node over its roots, which need not be one of a statement. -/
theorem Forest.pushAll_node {kind : NodeKind Placed}
    (h : Forest source before.size nodes parents kind.children) (hb : Sized before) (span : Span)
    (hfit : ∀ place ∈ kind.slots, place.1.accepts place.2.kind) :
    before.pushAll (nodes ++ [⟨kind.map Placed.id, span⟩]) = .ok
      { nodes := before.nodes ++ (nodes ++ [Node.mk (kind.map Placed.id) span]).toArray
        parents := before.parents ++
          (adopted ⟨before.size + nodes.length⟩ parents ++ [none]).toArray
        comments := before.comments } := by
  rw [Builder.pushAll_append, h.pushAll rfl hb, Except.bind]
  exact Builder.pushAll_singleton (h.push hb span hfit)

end

/-- The nodes of a parsed tree hang together. -/
theorem parse_joined {source : SourceId} {text : List Char} {options : ParseOptions}
    {output : ParseOutput} (h : parse source text options = .ok output) : output.tree.Joined := by
  rcases parse_forest source text options with
    ⟨output', items, nodes, parents, hok, hforest, -, hnodes, hroot, -⟩ | ⟨_, herror, -⟩
  · obtain rfl := Except.ok.inj (h.symm.trans hok)
    refine (parse_grounded h).1.joined ?_
    rw [hnodes, hroot, List.flatMap_append, List.flatMap_singleton, NodeKind.children_program]
    exact hforest.children_perm
  · cases h.symm.trans herror

/-- The parsed arena is a tree with nothing lost: its last node is the root, a program, children
come before their parents, every other node is listed once by exactly one node, and the walk from
the root takes every node once. -/
theorem parse_keeps (source : SourceId) (text : List Char) (options : ParseOptions) :
    (∃ output, parse source text options = .ok output ∧ output.tree.Grounded ∧
      output.tree.Joined ∧ output.tree.descendants.Nodup ∧
      ∀ id, id ∈ output.tree.descendants ↔ id.index < output.tree.size) ∨
    Crashes source text options := by
  refine (parse_forest source text options).imp_left ?_
  rintro ⟨output, _, _, _, hparse, -⟩
  have hjoined := parse_joined hparse
  exact ⟨output, hparse, (parse_grounded hparse).1, hjoined, hjoined.descendants⟩

/-- No check of the builder fails in a parse: a failed check crashes the parse, and none does. The
nodes of the tree that is returned pass the checks in the order of their ids, and so does its
root. -/
theorem parse_builds (source : SourceId) (text : List Char) (options : ParseOptions) :
    (∀ fault, parse source text options ≠ .error (.fault fault)) ∧
    ((∃ output builder, parse source text options = .ok output ∧
      Builder.pushAll { comments := output.tree.comments } output.tree.nodes.toList = .ok builder ∧
      builder.finish output.tree.root = .ok output.tree) ∨
    Crashes source text options) := by
  rcases parse_forest source text options with
    ⟨output, items, nodes, parents, hparse, hforest, hfit, hnodes, hroot, -⟩ |
      ⟨failure, herror, hover⟩
  · let start : Builder := { comments := output.tree.comments }
    rw [← NodeKind.children_program items] at hforest
    have hpushed := Forest.pushAll_node (show Forest source start.size _ _ _ from hforest) rfl
      ⟨source, 0, min (Text.width text) maxOffset⟩ hfit
    rw [NodeKind.map, ← hnodes, Array.toArray_toList, Array.empty_append] at hpushed
    refine ⟨fun fault => by simp [hparse], .inl ⟨output, _, hparse, hpushed, ?_⟩⟩
    have hnode : output.tree.nodes[output.tree.root.index]? =
        some ⟨.program (items.map Placed.id), source, 0, min (Text.width text) maxOffset⟩ := by
      rw [← Array.getElem?_toList, hnodes, hroot, List.getElem?_concat_length]
    rw [Builder.finish, Builder.node?, hnode]
  · refine ⟨fun fault heq => ?_, .inr ⟨failure, herror, hover⟩⟩
    obtain rfl := Except.error.inj (herror.symm.trans heq)
    cases hover

end Grammar

end OpenQasm
