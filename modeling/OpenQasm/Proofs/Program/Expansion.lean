import OpenQasm.Program.Basic
import OpenQasm.Proofs.Include.Paths
import OpenQasm.Proofs.Tree.Graft

/-!
# Expansions

What a merged tree should be: the tree of the entry with the statements of the included source in
each include statement, and so on within these. `Expands` says so of one node at a time, for any
choice of the include statements that are followed; the others are marked as errors.
-/

namespace OpenQasm

namespace Program

/-- A program whose sources have all been read: every source has a tree of its own, every include
statement at the top of a source has an edge or is marked as an error and reported, and different
edges stem from different statements. No cycle has been reported yet. -/
structure Loaded (program : Program) (entry : SourceId) : Prop where
  closed : program.graph.Closed
  entry : entry ∈ program.graph.files
  tree : ∀ file ∈ program.graph.files, ∃ tree, program.tree? file = some tree
  grounded : ∀ source tree, program.tree? source = some tree → tree.Grounded
  statement : ∀ index edge, program.graph.edge? index = some edge →
    ∃ tree path, program.tree? edge.includer = some tree ∧ edge.node ∈ tree.items ∧
      tree.node? edge.node = some ⟨.includeFile path [], edge.span⟩
  distinct : ∀ index index' edge edge', program.graph.edge? index = some edge →
    program.graph.edge? index' = some edge' → edge.includer = edge'.includer →
    edge.node = edge'.node → index = index'
  complete : ∀ source tree item path items, program.tree? source = some tree →
    item ∈ tree.items → tree.kind? item = some (.includeFile path items) →
    ∃ index edge, program.graph.edge? index = some edge ∧ edge.includer = source ∧
      edge.node = item
  reported : ∀ source tree id path span, program.tree? source = some tree →
    tree.node? id = some ⟨.includeError path, span⟩ →
    ∃ diagnostic ∈ program.diagnostics.items,
      diagnostic.code = .includeNotFound ∧ diagnostic.span = span
  uncut : ∀ diagnostic ∈ program.diagnostics.items, diagnostic.code ≠ .includeCycle

/-- A node of a merged tree is the expansion of a node of a source. Include statements that are
followed hold the expansions of the statements of the source that they lead to; those that led to a
source but are not followed are marked as errors; any other node is copied with the expansions of
its children. -/
inductive Expands (program : Program) (follows : Nat → Prop) (merged : Tree) :
    SourceId → NodeId → NodeId → Prop
  | copy {source : SourceId} {id id' : NodeId} {tree : Tree} {kind : NodeKind NodeId} {span : Span}
      (image : NodeId → NodeId) :
      program.tree? source = some tree → tree.node? id = some ⟨kind, span⟩ →
      (∀ index edge, program.graph.edge? index = some edge → edge.includer = source →
        edge.node ≠ id) →
      merged.node? id' = some ⟨kind.map image, span⟩ →
      (∀ child ∈ kind.children, Expands program follows merged source child (image child)) →
      Expands program follows merged source id id'
  | follow {index : Nat} {edge : Inclusion} {source : SourceId} {id id' : NodeId}
      {base tree : Tree} {path : String} {span : Span} (image : NodeId → NodeId) :
      program.graph.edge? index = some edge → edge.includer = source → edge.node = id →
      program.tree? source = some base → base.node? id = some ⟨.includeFile path [], span⟩ →
      follows index → program.tree? edge.included = some tree →
      merged.node? id' = some ⟨.includeFile path (tree.items.map image), span⟩ →
      (∀ item ∈ tree.items,
        Expands program follows merged edge.included item (image item)) →
      Expands program follows merged source id id'
  | leave {index : Nat} {edge : Inclusion} {source : SourceId} {id id' : NodeId} {base : Tree}
      {path : String} {span : Span} :
      program.graph.edge? index = some edge → edge.includer = source → edge.node = id →
      program.tree? source = some base → base.node? id = some ⟨.includeFile path [], span⟩ →
      ¬follows index → merged.node? id' = some ⟨.includeError path, span⟩ →
      Expands program follows merged source id id'

section
variable {program : Program} {entry : SourceId} {follows : Nat → Prop} {merged part tree : Tree}
  {source : SourceId} {id id' : NodeId} {offset : Nat}

/-- An expansion stays one in a tree that holds a copy of the merged one. -/
theorem Expands.copied (h : Expands program follows part source id id') (hr : part.Rooted)
    (hne : id' ≠ part.root) (hh : tree.Holds offset part) :
    Expands program follows tree source id (Tree.shift offset part.root.index id') := by
  induction h with
  | copy image ht hn he hm _ ih =>
    refine .copy (fun child => Tree.shift offset part.root.index (image child)) ht hn he ?_
      fun child hc => ih child hc ?_
    · exact (hh _ _ hm hne).trans (by rw [NodeKind.map_map])
    · refine hr _ _ hm _ ?_
      rw [NodeKind.children_map]
      exact List.mem_map_of_mem hc
  | follow image he hs hn hb hi hf ht hm _ ih =>
    refine .follow (fun item => Tree.shift offset part.root.index (image item)) he hs hn hb hi hf
      ht ?_ fun item hitem => ih item hitem ?_
    · refine (hh _ _ hm hne).trans ?_
      rw [NodeKind.map, List.map_map]
      rfl
    · refine hr _ _ hm _ ?_
      simpa [NodeKind.children, NodeKind.slots, NodeKind.each] using ⟨item, hitem, rfl⟩
  | leave he hs hn hb hi hf hm => exact .leave he hs hn hb hi hf (hh _ _ hm hne)

end

end Program

end OpenQasm
