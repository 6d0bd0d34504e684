import OpenQasm.Proofs.Tree.Ancestors
import OpenQasm.Proofs.Tree.Graft

/-!
# Grafts splice trees

The nodes of a graft are those of the tree and the copies of those of the other tree, all but its
root. What is new in a graft, the copies and what stands below the target, looks like the other tree
with new ids. So a graft of a tree into a tree is a tree, and the walk from the target is the one
through the other tree, with the target in place of its root.
-/

namespace OpenQasm

/-- What is counted once stays so under a renaming that tells it from the others. -/
theorem count_map_of_inj {α β : Type} [DecidableEq α] [DecidableEq β] {f : α → β} {item : α}
    {items : List α} (h : ∀ other ∈ items, f other = f item → other = item) :
    (items.map f).count (f item) = items.count item := by
  rw [List.count_eq_countP, List.countP_map, List.count_eq_countP]
  refine List.countP_congr fun other ho => ?_
  simp only [Function.comp_apply, beq_iff_eq]
  exact ⟨h other ho, congrArg f⟩

namespace Tree

section
variable {tree other grafted : Tree} {target id child : NodeId} {node : Node} {path : String}
  {span : Span}

/-- The statements of a tree are the children of its root. -/
theorem IsTree.items_eq (h : tree.IsTree) : tree.items = tree.children tree.root := by
  obtain ⟨items, span, hroot⟩ := h.root
  rw [Tree.items_eq hroot, children_of_node? hroot, NodeKind.children_program]

/-- A tree is rooted. -/
theorem IsTree.rooted (h : tree.IsTree) : tree.Rooted := by
  rintro id node hn child hc rfl
  exact h.top id (children_of_node? hn ▸ hc)

/-! ## What is new in a graft -/

/-- The node of the other tree whose children stand below a node of a graft. The target has those of
the root. -/
def stem (tree : Tree) (target : NodeId) (other : Tree) (id : NodeId) : NodeId :=
  if id = target then other.root else unshift tree.size other.root.index id

/-- A node of a graft that was not there before, or was given what stands below it. -/
def IsNew (tree : Tree) (target id : NodeId) : Prop := id = target ∨ tree.size ≤ id.index

/-- A node that is not new is one of the host, and not the one replaced. -/
theorem not_isNew (h : ¬tree.IsNew target id) : id.index < tree.size ∧ id ≠ target :=
  ⟨Nat.lt_of_not_le fun hle => h (.inr hle), fun heq => h (.inl heq)⟩

/-- The node of a graft that has the children of a node of the other tree. -/
def place (tree : Tree) (target : NodeId) (other : Tree) (id : NodeId) : NodeId :=
  if id = other.root then target else shift tree.size other.root.index id

/-- A node that is placed is new. -/
theorem isNew_place (tree : Tree) (target : NodeId) (other : Tree) (id : NodeId) :
    tree.IsNew target (tree.place target other id) := by
  unfold place
  split
  · exact .inl rfl
  · exact .inr (le_index_shift ..)

/-- It stems from the node that was placed. -/
theorem stem_place (ht : target.index < tree.size) (id : NodeId) :
    tree.stem target other (tree.place target other id) = id := by
  unfold place stem
  split
  · next heq => rw [if_pos rfl, heq]
  · next hne =>
    rw [if_neg, unshift_shift _ hne]
    intro heq
    have := le_index_shift tree.size other.root.index id
    rw [heq] at this
    omega

/-- And it is placed where it stands. -/
theorem place_stem (h : tree.IsNew target id) :
    tree.place target other (tree.stem target other id) = id := by
  unfold stem
  split
  · next heq => rw [place, if_pos rfl, heq]
  · next hne =>
    rw [place, if_neg fun heq => unshift_ne _ _ _ heq, shift_unshift _ (h.resolve_left hne)]

section
variable (hg : Grafts tree target other grafted)
include hg

/-- The children of the other nodes stay. -/
theorem Grafts.children_old (hid : ¬tree.IsNew target id) :
    grafted.children id = tree.children id := by
  obtain ⟨hlt, hne⟩ := not_isNew hid
  rw [children, children, hg.same id hlt hne]

/-- What stands below the target, and below all that comes with the graft, is a copy. -/
theorem Grafts.children_new (ho : other.IsTree)
    (hn : tree.node? target = some ⟨.includeFile path [], span⟩) (hid : tree.IsNew target id) :
    grafted.children id =
      (other.children (tree.stem target other id)).map (shift tree.size other.root.index) := by
  unfold stem
  split
  · next heq =>
    rw [heq, children_of_node? (hg.target path span hn), ← ho.items_eq,
      NodeKind.children_includeFile]
  · next hne =>
    rw [children, children, hg.back id (hid.resolve_left hne)]
    cases other.node? (unshift tree.size other.root.index id) with
    | none => rfl
    | some part => exact NodeKind.children_map ..

/-- A child in a graft is one in the tree, or the copy of one in the other tree. -/
theorem Grafts.child_cases (ho : other.IsTree)
    (hn : tree.node? target = some ⟨.includeFile path [], span⟩)
    (hc : child ∈ grafted.children id) :
    (¬tree.IsNew target id ∧ child ∈ tree.children id) ∨
      (tree.IsNew target id ∧ ∃ item ∈ other.children (tree.stem target other id),
        shift tree.size other.root.index item = child) := by
  by_cases hid : tree.IsNew target id
  · rw [hg.children_new ho hn hid] at hc
    exact .inr ⟨hid, List.mem_map.1 hc⟩
  · rw [hg.children_old hid] at hc
    exact .inl ⟨hid, hc⟩

/-- The copy of a node stands among those of the graft. -/
theorem Grafts.shift_lt (hr : other.root.index < other.size) (hid : id.index < other.size)
    (hne : id ≠ other.root) : (shift tree.size other.root.index id).index < grafted.size := by
  have := hg.grown hr
  have := index_ne hne
  unfold shift
  dsimp only
  split <;> omega

/-- So does what it is a copy of, in the other tree. -/
theorem Grafts.unshift_lt (hr : other.root.index < other.size) (hle : tree.size ≤ id.index)
    (hid : id.index < grafted.size) :
    (unshift tree.size other.root.index id).index < other.size := by
  have := hg.grown hr
  unfold unshift
  dsimp only
  split <;> omega

/-- A node that was there has its parent of before. -/
theorem Grafts.exists_parent_old (h : tree.Joined) (ho : other.IsTree)
    (hn : tree.node? target = some ⟨.includeFile path [], span⟩) (hid : id.index < tree.size)
    (hne : id ≠ tree.root) : ∃ parent, (grafted.children parent).count id = 1 ∧
      ∀ holder, id ∈ grafted.children holder → holder = parent := by
  obtain ⟨parent, hone, hother⟩ := h.parent id hid hne
  have hmem : id ∈ tree.children parent := List.count_pos_iff.1 (by omega)
  obtain ⟨node, hnode, -⟩ := node?_of_mem_children hmem
  have hold : ¬tree.IsNew target parent := by
    rintro (rfl | hle)
    · rw [children_of_node? hn] at hmem
      cases hmem
    · exact absurd (index_lt_of_node? hnode) (Nat.not_lt.2 hle)
  refine ⟨parent, by rwa [hg.children_old hold], fun holder hc => ?_⟩
  rcases hg.child_cases ho hn hc with ⟨-, hc⟩ | ⟨-, item, -, rfl⟩
  · exact hother holder hc
  · exact absurd hid (Nat.not_lt.2 (le_index_shift ..))

/-- The parent of a copy is the place of the parent of what it is a copy of. -/
theorem Grafts.exists_parent_new (h : tree.Joined) (ho : other.IsTree)
    (hn : tree.node? target = some ⟨.includeFile path [], span⟩) (hle : tree.size ≤ id.index)
    (hid : id.index < grafted.size) : ∃ parent, (grafted.children parent).count id = 1 ∧
      ∀ holder, id ∈ grafted.children holder → holder = parent := by
  let origin := unshift tree.size other.root.index id
  have horigin : shift tree.size other.root.index origin = id := shift_unshift _ hle
  have hne : origin ≠ other.root := unshift_ne _ _ _
  obtain ⟨parent, hone, hother⟩ :=
    ho.joined.parent origin (hg.unshift_lt ho.joined.root hle hid) hne
  -- Only the root has no copy, and it is no child.
  have hinj : ∀ holder, ∀ item ∈ other.children holder,
      shift tree.size other.root.index item = id → item = origin := fun holder item hi heq => by
    have hitem : item ≠ other.root := fun heq => ho.joined.top _ (heq ▸ hi)
    rw [← unshift_shift tree.size hitem, heq]
  refine ⟨tree.place target other parent, ?_, fun holder hc => ?_⟩
  · rw [hg.children_new ho hn (isNew_place ..), stem_place (index_lt_of_node? hn), ← horigin,
      count_map_of_inj fun item hi heq => hinj _ item hi (heq.trans horigin)]
    exact hone
  · rcases hg.child_cases ho hn hc with ⟨-, hc⟩ | ⟨hnew, item, hi, heq⟩
    · exact absurd (h.inside holder id hc) (Nat.not_lt.2 hle)
    · rw [← hother _ (hinj _ item hi heq ▸ hi), place_stem hnew]

/-- Ranks in a graft: all that comes with it stands lower than what was there. -/
theorem Grafts.exists_rank (h : tree.Joined) (ho : other.IsTree)
    (hn : tree.node? target = some ⟨.includeFile path [], span⟩) :
    ∃ rank : NodeId → Nat, (∀ id, rank id < grafted.size) ∧
      ∀ id, ∀ child ∈ grafted.children id, rank child < rank id := by
  obtain ⟨rank, hsize, hrank⟩ := h.rank
  obtain ⟨rank', hsize', hrank'⟩ := ho.joined.rank
  have hgrown := hg.grown ho.joined.root
  have hlow := index_lt_of_node? hn
  refine ⟨fun id => if id.index < tree.size then other.size - 1 + rank id
    else rank' (unshift tree.size other.root.index id), fun id => ?_, fun id child hc => ?_⟩
  · have := hsize id
    have := hsize' (unshift tree.size other.root.index id)
    dsimp only
    split <;> omega
  · dsimp only
    rcases hg.child_cases ho hn hc with ⟨hold, hc⟩ | ⟨hnew, item, hi, rfl⟩
    · rw [if_pos (not_isNew hold).1, if_pos (h.inside id child hc)]
      exact Nat.add_lt_add_left (hrank id child hc) _
    · have hitem : item ≠ other.root := fun heq => ho.joined.top _ (heq ▸ hi)
      have hlt := hrank' _ item hi
      rw [if_neg (Nat.not_lt.2 (le_index_shift ..)), unshift_shift _ hitem]
      unfold stem at hlt
      split at hlt
      · next heq =>
        have := hsize' other.root
        rw [if_pos (heq ▸ hlow)]
        omega
      · next hne => rwa [if_neg (Nat.not_lt.2 (hnew.resolve_left hne))]

/-- A graft leaves everything hanging together. -/
theorem Grafts.joined (h : tree.Joined) (ho : other.IsTree)
    (hn : tree.node? target = some ⟨.includeFile path [], span⟩) : grafted.Joined := by
  refine ⟨?_, fun id hm => ?_, fun id child hc => ?_, fun id hid hne => ?_, hg.exists_rank h ho hn⟩
  · rw [hg.root]
    exact Nat.lt_of_lt_of_le h.root hg.size
  · rw [hg.root] at hm
    rcases hg.child_cases ho hn hm with ⟨-, hm⟩ | ⟨-, item, -, heq⟩
    · exact h.top id hm
    · have := le_index_shift tree.size other.root.index item
      rw [heq] at this
      exact absurd h.root (Nat.not_lt.2 this)
  · rcases hg.child_cases ho hn hc with ⟨-, hc⟩ | ⟨-, item, hi, rfl⟩
    · exact Nat.lt_of_lt_of_le (h.inside id child hc) hg.size
    · exact hg.shift_lt ho.joined.root (ho.joined.inside _ item hi) fun heq =>
        ho.joined.top _ (heq ▸ hi)
  · rw [hg.root] at hne
    by_cases hlt : id.index < tree.size
    · exact hg.exists_parent_old h ho hn hlt hne
    · exact hg.exists_parent_new h ho hn (Nat.le_of_not_lt hlt) hid

/-- A graft of a tree into a tree is a tree. -/
theorem Grafts.isTree (h : tree.IsTree) (ho : other.IsTree)
    (hn : tree.node? target = some ⟨.includeFile path [], span⟩) : grafted.IsTree := by
  refine (hg.joined h.joined ho hn).isTree ?_
  obtain ⟨items, span', hroot⟩ := h.root
  refine ⟨items, span', ?_⟩
  rw [hg.root, hg.same _ h.root_lt, hroot]
  intro heq
  rw [heq] at hroot
  cases hroot.symm.trans hn

/-! ## Walks through grafts -/

/-- The way down from a copy is the copy of the way down. -/
theorem Grafts.preorder_shift (ho : other.IsTree)
    (hn : tree.node? target = some ⟨.includeFile path [], span⟩) (levels : Nat)
    (hne : id ≠ other.root) :
    grafted.preorder levels (shift tree.size other.root.index id) =
      (other.preorder levels id).map (shift tree.size other.root.index) := by
  induction levels generalizing id with
  | zero => rfl
  | succ levels ih =>
    have hstem : tree.stem target other (shift tree.size other.root.index id) = id := by
      have hplace : tree.stem target other (tree.place target other id) = id :=
        stem_place (index_lt_of_node? hn) id
      rwa [place, if_neg hne] at hplace
    have hchildren := hg.children_new ho hn (.inr (le_index_shift tree.size other.root.index id))
    rw [hstem] at hchildren
    rw [preorder_succ, preorder_succ, hchildren, List.map_cons, List.map_flatMap,
      List.flatMap_map]
    refine congrArg _ (List.flatMap_congr fun item hi => ih ?_)
    rintro rfl
    exact ho.top _ hi

/-- The walk from the target of a graft goes through the copy as the walk through the other tree
goes through what stands below its root. -/
theorem Grafts.walk_target (h : tree.IsTree) (ho : other.IsTree)
    (hn : tree.node? target = some ⟨.includeFile path [], span⟩) :
    ∃ below, other.descendants = other.root :: below ∧
      grafted.walk target = target :: below.map (shift tree.size other.root.index) := by
  have hgrown := hg.grown ho.root_lt
  have hroot := ho.root_lt
  have hlow := index_lt_of_node? hn
  obtain ⟨levels, hlevels⟩ : ∃ levels, grafted.size = levels + 1 := ⟨grafted.size - 1, by omega⟩
  have hchildren := hg.children_new ho hn (.inl rfl)
  rw [stem, if_pos rfl] at hchildren
  refine ⟨(other.children other.root).flatMap (other.preorder levels), ?_, ?_⟩
  · have hsize : other.size ≤ levels + 1 := by omega
    rw [descendants, ← ho.joined.preorder_eq hsize, preorder_succ]
  · rw [(hg.isTree h ho hn).joined.walk_eq, hlevels, preorder_succ, hchildren, List.map_flatMap,
      List.flatMap_map]
    refine congrArg _ (List.flatMap_congr fun item hi => hg.preorder_shift ho hn levels ?_)
    rintro rfl
    exact ho.top _ hi

end

/-- A graft splices a tree into a tree: it puts the nodes of the other tree, all but its root, with
their kinds and their spans below an empty include statement, which the walk then meets as it meets
them in the other tree, and leaves all other nodes as they are. -/
theorem graft_splices (h : tree.IsTree) (ho : other.IsTree)
    (hn : tree.node? target = some ⟨.includeFile path [], span⟩) :
    ∃ grafted, tree.graft target other = .ok grafted ∧
      grafted.IsTree ∧ grafted.root = tree.root ∧ grafted.size = tree.size + (other.size - 1) ∧
      (∀ id, id.index < tree.size → id ≠ target → grafted.node? id = tree.node? id) ∧
      grafted.node? target =
        some ⟨.includeFile path (other.items.map (shift tree.size other.root.index)), span⟩ ∧
      (∀ id node, other.node? id = some node → id ≠ other.root →
        grafted.node? (shift tree.size other.root.index id) =
          some ⟨node.kind.map (shift tree.size other.root.index), node.span⟩) ∧
      ∃ below, other.descendants = other.root :: below ∧
        grafted.walk target = target :: below.map (shift tree.size other.root.index) := by
  obtain ⟨grafted, hgraft, hg⟩ := exists_grafts hn ho.rooted
  have hgrown := hg.grown ho.root_lt
  have hlow := ho.root_lt
  exact ⟨grafted, hgraft, hg.isTree h ho hn, hg.root, by omega, hg.same, hg.target path span hn,
    hg.holds, hg.walk_target h ho hn⟩

/-- A program is a tree if its statements are all the other nodes and have no children. -/
theorem isTree_of_leaves {items : List NodeId}
    (hroot : tree.node? tree.root = some ⟨.program items, span⟩)
    (hitems : (tree.root :: items).Perm ((List.range tree.size).map NodeId.mk))
    (hleaf : ∀ index < tree.size, index ≠ tree.root.index → tree.children ⟨index⟩ = []) :
    tree.IsTree := by
  have hinj : Function.Injective NodeId.mk := fun _ _ heq => congrArg NodeId.index heq
  obtain ⟨htop, hnodup⟩ := List.nodup_cons.1 (hitems.nodup_iff.2 (List.nodup_range.map hinj))
  have hmem : ∀ id, id ∈ tree.root :: items ↔ id.index < tree.size := fun id => by
    rw [hitems.mem_iff]
    exact (List.mem_map_of_injective hinj (a := id.index)).trans List.mem_range
  have hchildren : tree.children tree.root = items := by
    rw [children_of_node? hroot, NodeKind.children_program]
  have hparent : ∀ id child, child ∈ tree.children id → id = tree.root ∧ child ∈ items := by
    intro id child hc
    by_cases hid : id = tree.root
    · exact ⟨hid, hchildren ▸ hid ▸ hc⟩
    · rw [show tree.children id = [] from
        hleaf id.index (index_lt_of_mem_children hc) (index_ne hid)] at hc
      cases hc
  refine ⟨⟨items, span, hroot⟩, fun id hm => htop (hparent id _ hm).2, fun id child hc => ?_,
    fun id hid hne => ⟨tree.root, ?_, fun other ho => (hparent other id ho).1⟩, fun id hid => ?_⟩
  · exact (hmem child).1 (List.mem_cons_of_mem _ (hparent id child hc).2)
  · rw [hchildren]
    exact List.count_eq_one_of_mem hnodup ((List.mem_cons.1 ((hmem id).2 hid)).resolve_left hne)
  · rcases List.mem_cons.1 ((hmem id).2 hid) with rfl | hi
    · exact ⟨[], .root⟩
    · exact ⟨[tree.root], .child .root (hchildren ▸ hi)⟩

/-- A break and an end with the root between them come below an include statement. -/
theorem graft_splices_rootBetween : ∃ tree other grafted : Tree, tree.IsTree ∧ other.IsTree ∧
    tree.node? ⟨0⟩ = some ⟨.includeFile "a" [], default⟩ ∧
    other.root = ⟨1⟩ ∧ other.descendants = [⟨1⟩, ⟨2⟩, ⟨0⟩] ∧
    tree.graft ⟨0⟩ other = .ok grafted ∧ grafted.IsTree ∧ grafted.walk ⟨0⟩ = [⟨0⟩, ⟨3⟩, ⟨2⟩] := by
  let tree : Tree :=
    { nodes := #[⟨.includeFile "a" [], default⟩, ⟨.program [⟨0⟩], default⟩]
      root := ⟨1⟩, comments := [] }
  let other : Tree :=
    { nodes := #[⟨.endStmt, default⟩, ⟨.program [⟨2⟩, ⟨0⟩], default⟩, ⟨.breakStmt, default⟩]
      root := ⟨1⟩, comments := [] }
  have hprogram : tree.node? tree.root = some ⟨.program [⟨0⟩], default⟩ := rfl
  have hprogram' : other.node? other.root = some ⟨.program [⟨2⟩, ⟨0⟩], default⟩ := rfl
  have htree : tree.IsTree := isTree_of_leaves hprogram (by decide) (by decide)
  have hother : other.IsTree := isTree_of_leaves hprogram' (by decide) (by decide)
  have hinclude : tree.node? ⟨0⟩ = some ⟨.includeFile "a" [], default⟩ := rfl
  have hdescendants : other.descendants = [⟨1⟩, ⟨2⟩, ⟨0⟩] := by decide
  obtain ⟨grafted, hgraft, hgrafted, -, -, -, -, -, below, hbelow, hwalk⟩ :=
    graft_splices htree hother hinclude
  obtain rfl : below = [⟨2⟩, ⟨0⟩] := (List.cons.inj (hbelow.symm.trans hdescendants)).2
  exact ⟨tree, other, grafted, htree, hother, hinclude, rfl, hdescendants, hgraft, hgrafted, hwalk⟩

end

end Tree

end OpenQasm
