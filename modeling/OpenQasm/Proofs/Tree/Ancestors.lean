import Mathlib.Data.List.Nodup
import Mathlib.Data.List.Perm.Subperm
import OpenQasm.Proofs.Tree.Walk

/-!
# Ancestors

The ancestors of a node are met on the way up to the root. Where every node is the child of at most
one node there is one such way, no node is met twice on it, and what stands deeper has the lower
rank. So it is all the same whether a tree is known to have ranks or to have all its nodes below the
root.
-/

namespace OpenQasm.Tree

/-- The nodes above a node, its parent first and the root last. -/
inductive Ancestors (tree : Tree) : NodeId → List NodeId → Prop
  | root : Ancestors tree tree.root []
  | child {id child : NodeId} {above : List NodeId} (hparent : Ancestors tree id above)
      (hchild : child ∈ tree.children id) : Ancestors tree child (id :: above)

/-- A tree: the root is a program and no child, every other node is the child of exactly one node,
which lists it once, and all nodes stand below the root. -/
structure IsTree (tree : Tree) : Prop where
  root : ∃ items span, tree.node? tree.root = some ⟨.program items, span⟩
  top : ∀ id, tree.root ∉ tree.children id
  inside : ∀ id, ∀ child ∈ tree.children id, child.index < tree.size
  parent : ∀ id, id.index < tree.size → id ≠ tree.root →
    ∃ parent, (tree.children parent).count id = 1 ∧
      ∀ other, id ∈ tree.children other → other = parent
  reached : ∀ id, id.index < tree.size → ∃ above, tree.Ancestors id above

section
variable {tree : Tree} {id child : NodeId} {above above' : List NodeId}

theorem index_lt_of_mem_children (h : child ∈ tree.children id) : id.index < tree.size := by
  obtain ⟨node, hn, -⟩ := node?_of_mem_children h
  exact (Array.getElem?_eq_some_iff.1 hn).1

/-- What stands above a node stands below the root itself, nearer to it. -/
theorem Ancestors.of_mem (h : tree.Ancestors id above) {upper : NodeId} (hu : upper ∈ above) :
    ∃ rest, tree.Ancestors upper rest ∧ rest.length < above.length := by
  induction h with
  | root => cases hu
  | child hparent hchild ih =>
    rcases List.mem_cons.1 hu with rfl | hu
    · exact ⟨_, hparent, by simp⟩
    · obtain ⟨rest, hrest, hlt⟩ := ih hu
      exact ⟨rest, hrest, by simp; omega⟩

/-- What stands above a node is there. -/
theorem Ancestors.index_lt (h : tree.Ancestors id above) {upper : NodeId} (hu : upper ∈ above) :
    upper.index < tree.size := by
  induction h with
  | root => cases hu
  | child _ hchild ih =>
    rcases List.mem_cons.1 hu with rfl | hu
    · exact index_lt_of_mem_children hchild
    · exact ih hu

namespace IsTree

theorem root_lt (h : tree.IsTree) : tree.root.index < tree.size := by
  obtain ⟨items, span, hroot⟩ := h.root
  exact (Array.getElem?_eq_some_iff.1 hroot).1

/-- There is one way up from a node. -/
theorem ancestors_unique (h : tree.IsTree) (ha : tree.Ancestors id above)
    (ha' : tree.Ancestors id above') : above' = above := by
  induction ha generalizing above' with
  | root =>
    cases ha' with
    | root => rfl
    | child _ hchild => exact absurd hchild (h.top _)
  | child hparent hchild ih =>
    cases ha' with
    | root => exact absurd hchild (h.top _)
    | @child id' _ above' hparent' hchild' =>
      obtain ⟨parent, -, hother⟩ := h.parent _ (h.inside _ _ hchild)
        fun heq => h.top _ (heq ▸ hchild)
      obtain rfl : id' = _ := (hother _ hchild').trans (hother _ hchild).symm
      rw [ih hparent']

/-- No node stands above itself, and none twice above another. -/
theorem nodup_ancestors (h : tree.IsTree) (ha : tree.Ancestors id above) : (id :: above).Nodup := by
  induction ha with
  | root => simp
  | @child id child above hparent hchild ih =>
    refine List.nodup_cons.2 ⟨fun hm => ?_, ih⟩
    obtain ⟨rest, hrest, hlt⟩ := (hparent.child hchild).of_mem hm
    rw [h.ancestors_unique (hparent.child hchild) hrest] at hlt
    exact Nat.lt_irrefl _ hlt

/-- There are fewer nodes above a node than in the tree. -/
theorem length_ancestors_lt (h : tree.IsTree) (hid : id.index < tree.size)
    (ha : tree.Ancestors id above) : above.length < tree.size := by
  have hnodup : ((id :: above).map NodeId.index).Nodup :=
    (h.nodup_ancestors ha).map fun _ _ heq => congrArg NodeId.mk heq
  have hsub : (id :: above).map NodeId.index ⊆ List.range tree.size := by
    intro index hm
    obtain ⟨upper, hu, rfl⟩ := List.mem_map.1 hm
    rcases List.mem_cons.1 hu with rfl | hu
    · exact List.mem_range.2 hid
    · exact List.mem_range.2 (ha.index_lt hu)
  have hle := (List.subperm_of_subset hnodup hsub).length_le
  simp only [List.length_map, List.length_cons, List.length_range] at hle
  omega

/-- What has ancestors is there. -/
theorem index_lt_of_ancestors (h : tree.IsTree) (ha : tree.Ancestors id above) :
    id.index < tree.size := by
  cases ha with
  | root => exact h.root_lt
  | child _ hchild => exact h.inside _ _ hchild

/-- The rank of a node is as much less than the size as the node stands deep. -/
theorem exists_rank (h : tree.IsTree) (id : NodeId) : ∃ rank, rank < tree.size ∧
    ∀ above, tree.Ancestors id above → rank + above.length + 1 = tree.size := by
  by_cases hid : id.index < tree.size
  · obtain ⟨above, ha⟩ := h.reached id hid
    have := h.length_ancestors_lt hid ha
    refine ⟨tree.size - 1 - above.length, by omega, fun above' ha' => ?_⟩
    rw [h.ancestors_unique ha ha']
    omega
  · have := h.root_lt
    exact ⟨0, by omega, fun above ha => absurd (h.index_lt_of_ancestors ha) hid⟩

/-- In a tree the nodes hang together. -/
theorem joined (h : tree.IsTree) : tree.Joined := by
  choose rank hsize hrank using h.exists_rank
  refine ⟨h.root_lt, h.top, h.inside, h.parent, rank, hsize, fun id child hc => ?_⟩
  obtain ⟨above, ha⟩ := h.reached id (index_lt_of_mem_children hc)
  have hid := hrank id above ha
  have hchild := hrank child _ (ha.child hc)
  simp only [List.length_cons] at hchild
  omega

end IsTree

/-- Where the nodes hang together all stand below the root. -/
theorem Joined.exists_ancestors (h : tree.Joined) (hid : id.index < tree.size) :
    ∃ above, tree.Ancestors id above := by
  obtain ⟨rank, hsize, hr⟩ := h.rank
  induction hn : tree.size - rank id using Nat.strongRecOn generalizing id with
  | ind n ih =>
    by_cases hroot : id = tree.root
    · exact ⟨[], hroot ▸ .root⟩
    · obtain ⟨parent, hone, -⟩ := h.parent id hid hroot
      have hchild : id ∈ tree.children parent := List.count_pos_iff.1 (by omega)
      have := hr parent id hchild
      have := hsize parent
      obtain ⟨above, ha⟩ := ih _ (by omega) (index_lt_of_mem_children hchild) rfl
      exact ⟨_, ha.child hchild⟩

/-- Nodes that hang together below a program are a tree. -/
theorem Joined.isTree (h : tree.Joined)
    (hroot : ∃ items span, tree.node? tree.root = some ⟨.program items, span⟩) : tree.IsTree where
  root := hroot
  top := h.top
  inside := h.inside
  parent := h.parent
  reached := fun _ hid => h.exists_ancestors hid

end

end OpenQasm.Tree
