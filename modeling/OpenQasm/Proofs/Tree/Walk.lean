import Mathlib.Data.List.Perm.Basic
import OpenQasm.Tree.Basic

/-!
# Walks through trees

The walk that takes nodes off a stack takes them in the order in which one goes down by recursion.
In a tree that hangs together, where every node but the root stands below one node, and once, the
walk from the root takes every node once.
-/

namespace OpenQasm.Tree

/-- The nodes of a tree hang together: each but the root is the child of exactly one node, which
lists it once, and none is below itself, as ranks fall from parents to children. -/
structure Joined (tree : Tree) : Prop where
  root : tree.root.index < tree.size
  top : ∀ id, tree.root ∉ tree.children id
  inside : ∀ id, ∀ child ∈ tree.children id, child.index < tree.size
  parent : ∀ id, id.index < tree.size → id ≠ tree.root →
    ∃ parent, (tree.children parent).count id = 1 ∧
      ∀ other, id ∈ tree.children other → other = parent
  rank : ∃ rank : NodeId → Nat, (∀ id, rank id < tree.size) ∧
    ∀ id, ∀ child ∈ tree.children id, rank child < rank id

/-- A node and all below it, down to so many levels, each before its children. -/
def preorder (tree : Tree) : Nat → NodeId → List NodeId
  | 0, _ => []
  | levels + 1, id => id :: (tree.children id).flatMap (tree.preorder levels)

section
variable {tree : Tree} {id : NodeId} {rank : NodeId → Nat}

/-- The children of a node are those of its kind. -/
theorem children_of_node? {node : Node} (h : tree.node? id = some node) :
    tree.children id = node.kind.children := by
  rw [children, h]

/-- The children of a node are those of a node that is there. -/
theorem node?_of_mem_children {child : NodeId} (h : child ∈ tree.children id) :
    ∃ node, tree.node? id = some node ∧ child ∈ node.kind.children := by
  unfold children at h
  split at h
  · next node hnode => exact ⟨node, hnode, h⟩
  · cases h

/-- A node comes before what is below it. -/
theorem preorder_succ (tree : Tree) (levels : Nat) (id : NodeId) :
    tree.preorder (levels + 1) id = id :: (tree.children id).flatMap (tree.preorder levels) := rfl

/-- The places below a node are as many as the nodes met on the way down. -/
theorem length_preorder (tree : Tree) (levels : Nat) (id : NodeId) :
    (tree.preorder levels id).length = tree.places levels id := by
  induction levels generalizing id with
  | zero => rfl
  | succ levels ih =>
    have hfold : ∀ (children : List NodeId) (n : Nat),
        children.foldl (fun n child => n + tree.places levels child) n =
          n + (children.flatMap (tree.preorder levels)).length := by
      intro children
      induction children with
      | nil => exact fun _ => rfl
      | cons child children ihc =>
        intro n
        rw [List.foldl_cons, ihc, List.flatMap_cons, List.length_append, ih, Nat.add_assoc]
    rw [places, hfold, preorder_succ, List.length_cons, Nat.add_comm]

/-- A walk with a node on top of its stack goes down from the node before it goes on. -/
theorem walkFrom_preorder (hr : ∀ id, ∀ child ∈ tree.children id, rank child < rank id)
    {levels : Nat} {id : NodeId} (hl : rank id < levels) (steps : Nat) (stack : List NodeId) :
    tree.walkFrom ((tree.preorder levels id).length + steps) (id :: stack) =
      tree.preorder levels id ++ tree.walkFrom steps stack := by
  induction levels generalizing id steps stack with
  | zero => omega
  | succ levels ih =>
    have hchildren : ∀ children : List NodeId, (∀ child ∈ children, rank child < levels) →
        tree.walkFrom ((children.flatMap (tree.preorder levels)).length + steps)
            (children ++ stack) =
          children.flatMap (tree.preorder levels) ++ tree.walkFrom steps stack := by
      intro children
      induction children with
      | nil =>
        intro _
        rw [List.flatMap_nil, List.length_nil, Nat.zero_add]
        rfl
      | cons child children ihc =>
        intro hlow
        rw [List.flatMap_cons, List.length_append, Nat.add_assoc, List.cons_append,
          ih (hlow child List.mem_cons_self), List.append_assoc,
          ihc fun other ho => hlow other (List.mem_cons_of_mem _ ho)]
    rw [preorder_succ, List.length_cons, Nat.add_right_comm, walkFrom_cons, List.cons_append,
      hchildren _ fun child hc => by have := hr id child hc; omega]

/-- What is met on the way down is the node and the children of all that is met. -/
theorem preorder_perm (hr : ∀ id, ∀ child ∈ tree.children id, rank child < rank id)
    {levels : Nat} {id : NodeId} (hl : rank id < levels) :
    (tree.preorder levels id).Perm (id :: (tree.preorder levels id).flatMap tree.children) := by
  induction levels generalizing id with
  | zero => omega
  | succ levels ih =>
    rw [preorder_succ, List.flatMap_cons, List.flatMap_assoc]
    refine .cons id ?_
    have hbelow : ((tree.children id).flatMap (tree.preorder levels)).Perm
        ((tree.children id).flatMap fun child =>
          child :: (tree.preorder levels child).flatMap tree.children) :=
      List.Perm.flatMap_left _ fun child hc => ih (by have := hr id child hc; omega)
    have hsplit := List.map_append_flatMap_perm (tree.children id) (fun child => child)
      fun child => (tree.preorder levels child).flatMap tree.children
    rw [List.map_id'] at hsplit
    exact hbelow.trans hsplit.symm

/-- The way down ends by itself, so that it does not matter how many more levels it may take. -/
theorem preorder_eq_of_rank_lt (hr : ∀ id, ∀ child ∈ tree.children id, rank child < rank id)
    {levels levels' : Nat} {id : NodeId} (hl : rank id < levels) (hl' : rank id < levels') :
    tree.preorder levels id = tree.preorder levels' id := by
  induction levels generalizing id levels' with
  | zero => omega
  | succ levels ih =>
    cases levels' with
    | zero => omega
    | succ levels' =>
      rw [preorder_succ, preorder_succ]
      refine congrArg (id :: ·) (List.flatMap_congr fun child hc => ?_)
      have := hr id child hc
      exact ih (by omega) (by omega)

/-- The walk from a node takes all that is met on the way down from it. -/
theorem Joined.walk_eq (h : tree.Joined) (id : NodeId) :
    tree.walk id = tree.preorder tree.size id := by
  obtain ⟨rank, hsize, hr⟩ := h.rank
  have hwalk := walkFrom_preorder hr (hsize id) 0 []
  rw [length_preorder, Nat.add_zero, walkFrom_nil, List.append_nil] at hwalk
  exact hwalk

/-- With enough levels the order does not depend on them. -/
theorem Joined.preorder_eq (h : tree.Joined) {levels : Nat} (hl : tree.size ≤ levels)
    (id : NodeId) : tree.preorder levels id = tree.walk id := by
  obtain ⟨rank, hsize, hr⟩ := h.rank
  rw [h.walk_eq]
  exact preorder_eq_of_rank_lt hr (Nat.lt_of_lt_of_le (hsize id) hl) (hsize id)

/-- All that the root leads to is met on the way down from it. -/
theorem Joined.descendants_eq (h : tree.Joined) :
    tree.descendants = tree.preorder tree.size tree.root :=
  h.walk_eq tree.root

/-- The nodes of a tree are its root and the children of its nodes. -/
theorem Joined.descendants_perm (h : tree.Joined) :
    tree.descendants.Perm (tree.root :: tree.descendants.flatMap tree.children) := by
  obtain ⟨rank, hsize, hr⟩ := h.rank
  rw [h.descendants_eq]
  exact preorder_perm hr (hsize tree.root)

/-- A node with one parent that lists it once is met as often as its parent. -/
theorem count_flatMap_children {id parent : NodeId} (hone : (tree.children parent).count id = 1)
    (hother : ∀ other, id ∈ tree.children other → other = parent) (ids : List NodeId) :
    (ids.flatMap tree.children).count id = ids.count parent := by
  induction ids with
  | nil => rfl
  | cons first ids ih =>
    rw [List.flatMap_cons, List.count_append, ih, List.count_cons, Nat.add_comm]
    congr 1
    by_cases hfirst : first = parent
    · rw [hfirst, hone]
      simp
    · rw [List.count_eq_zero_of_not_mem fun hm => hfirst (hother first hm)]
      simp [hfirst]

/-- Every node of a tree that hangs together is met once. -/
theorem Joined.count_descendants (h : tree.Joined) {id : NodeId} (hid : id.index < tree.size) :
    tree.descendants.count id = 1 := by
  obtain ⟨rank, hsize, hr⟩ := h.rank
  -- Up from the node: its parent has a higher rank, and ranks are bounded.
  induction hn : tree.size - rank id using Nat.strongRecOn generalizing id with
  | ind n ih =>
    rw [h.descendants_perm.count_eq, List.count_cons]
    by_cases hroot : id = tree.root
    · have hnone : tree.root ∉ tree.descendants.flatMap tree.children := fun hm => by
        obtain ⟨other, -, ho⟩ := List.mem_flatMap.1 hm
        exact h.top other ho
      rw [hroot, List.count_eq_zero_of_not_mem hnone]
      simp
    · obtain ⟨parent, hone, hother⟩ := h.parent id hid hroot
      have hchild : id ∈ tree.children parent := List.count_pos_iff.1 (by omega)
      have hparent : parent.index < tree.size := by
        unfold children at hchild
        split at hchild
        · next hnode => exact (Array.getElem?_eq_some_iff.1 hnode).1
        · cases hchild
      have hrank := hr parent id hchild
      have hbound := hsize parent
      rw [count_flatMap_children hone hother, ih _ (by omega) hparent rfl]
      simp [Ne.symm hroot]

/-- The walk from the root of a tree that hangs together takes every node once. -/
theorem Joined.descendants (h : tree.Joined) :
    tree.descendants.Nodup ∧ ∀ id, id ∈ tree.descendants ↔ id.index < tree.size := by
  have hmem : ∀ id, id ∈ tree.descendants → id.index < tree.size := by
    intro id hm
    rcases List.mem_cons.1 (h.descendants_perm.mem_iff.1 hm) with rfl | hm
    · exact h.root
    · obtain ⟨other, -, ho⟩ := List.mem_flatMap.1 hm
      exact h.inside other id ho
  refine ⟨List.nodup_iff_count.2 fun id => ?_, fun id => ⟨hmem id, fun hid => ?_⟩⟩
  · by_cases hid : id ∈ tree.descendants
    · exact Nat.le_of_eq (h.count_descendants (hmem id hid))
    · rw [List.count_eq_zero_of_not_mem hid]
      exact Nat.zero_le _
  · exact List.count_pos_iff.1 (by rw [h.count_descendants hid]; exact Nat.one_pos)

end

end OpenQasm.Tree
