import OpenQasm.Tree.Graft

/-!
# What grafts and marks change

A mark changes one include statement. A graft gives one include statement its items and puts a copy
of another tree after all nodes; what stood in the tree before and what stands in the other tree,
its root apart, stands in the new one.
-/

namespace OpenQasm

namespace NodeKind

section
variable {ι κ μ : Type}

/-- A kind is unchanged if its children are. -/
@[simp] theorem map_id (kind : NodeKind ι) : kind.map (fun child => child) = kind := by
  cases kind <;> simp [map]

/-- Children are mapped in a row. -/
@[simp] theorem map_map (f : ι → κ) (g : κ → μ) (kind : NodeKind ι) :
    (kind.map f).map g = kind.map fun child => g (f child) := by
  cases kind <;> simp [map, Function.comp_def]

end

end NodeKind

namespace Tree

section
variable {tree marked other grafted : Tree} {target id child : NodeId} {node : Node} {path : String}
  {span : Span} {cut : NodeId → Prop}

/-- Two ids differ in their index. -/
theorem index_ne (h : id ≠ target) : id.index ≠ target.index :=
  fun heq => h (congrArg NodeId.mk heq)

/-- The statements of a tree are the children of its root. -/
theorem items_eq {items : List NodeId} (h : tree.node? tree.root = some ⟨.program items, span⟩) :
    tree.items = items := by
  simp [Tree.items, kind?, h]

/-- Changing one node leaves the others. -/
theorem node?_modify (tree : Tree) (target id : NodeId) (change : Node → Node) :
    Tree.node? { tree with nodes := tree.nodes.modify target.index change } id =
      if id = target then (tree.node? id).map change else tree.node? id := by
  unfold node?
  rw [Array.getElem?_modify]
  by_cases h : id = target
  · rw [if_pos h, if_pos (congrArg NodeId.index h.symm)]
  · rw [if_neg h, if_neg (index_ne h).symm]

/-- A node that is found is one of the tree. -/
theorem index_lt_of_node? (h : tree.node? id = some node) : id.index < tree.size :=
  (Array.getElem?_eq_some_iff.1 h).1

/-! ## Marks -/

/-- A tree in which some include statements are marked as errors. -/
structure Marks (tree marked : Tree) (cut : NodeId → Prop) : Prop where
  root : marked.root = tree.root
  size : marked.size = tree.size
  same : ∀ id, ¬cut id → marked.node? id = tree.node? id
  cut : ∀ id, cut id → ∃ path span, tree.node? id = some ⟨.includeFile path [], span⟩ ∧
    marked.node? id = some ⟨.includeError path, span⟩

/-- A tree in which nothing is cut is marked by nothing. -/
theorem Marks.refl (tree : Tree) : Marks tree tree fun _ => False where
  root := rfl
  size := rfl
  same := fun _ _ => rfl
  cut := fun _ h => h.elim

/-- One more include statement can be marked. One that is marked already stays so. -/
theorem Marks.mark (h : Marks tree marked cut)
    (hn : tree.node? target = some ⟨.includeFile path [], span⟩) :
    ∃ marked', marked.markIncludeError target = .ok marked' ∧
      Marks tree marked' fun id => cut id ∨ id = target := by
  by_cases hcut : cut target
  · obtain ⟨path', span', -, hnode⟩ := h.cut target hcut
    have hmark : marked.markIncludeError target = .ok marked := by
      simp [markIncludeError, kind?, hnode]
    refine ⟨marked, hmark, h.root, h.size, fun id hid => ?_, ?_⟩
    · exact h.same id fun hc => hid (.inl hc)
    · rintro id (hid | rfl)
      · exact h.cut id hid
      · exact h.cut id hcut
  · have hnode : marked.node? target = some ⟨.includeFile path [], span⟩ := by
      rw [h.same target hcut, hn]
    let marked' : Tree :=
      { marked with nodes := marked.nodes.modify target.index fun node =>
          { node with kind := .includeError path } }
    have hmark : marked.markIncludeError target = .ok marked' := by
      simp [markIncludeError, kind?, hnode, marked']
    have hmodify : ∀ id, marked'.node? id = if id = target then
        (marked.node? id).map fun node => { node with kind := .includeError path }
        else marked.node? id := fun id => node?_modify ..
    refine ⟨marked', hmark, h.root, ?_, fun id hid => ?_, fun id hid => ?_⟩
    · exact Array.size_modify.trans (show marked.nodes.size = _ from h.size)
    · rw [hmodify, if_neg fun heq => hid (.inr heq)]
      exact h.same id fun hc => hid (.inl hc)
    · by_cases heq : id = target
      · subst heq
        exact ⟨path, span, hn, by rw [hmodify, if_pos rfl, hnode, Option.map_some]⟩
      · rw [hmodify, if_neg heq]
        exact h.cut id (hid.resolve_right heq)

/-- The marks are told by the nodes that are marked. -/
theorem Marks.congr {cut' : NodeId → Prop} (h : Marks tree marked cut)
    (hc : ∀ id, cut id ↔ cut' id) : Marks tree marked cut' :=
  (show cut = cut' from funext fun id => propext (hc id)) ▸ h

/-- What is still an include statement has not been marked. -/
theorem Marks.node?_eq (h : Marks tree marked cut) {items : List NodeId}
    (hn : marked.node? id = some ⟨.includeFile path items, span⟩) :
    tree.node? id = some ⟨.includeFile path items, span⟩ := by
  rw [← hn]
  refine (h.same id fun hc => ?_).symm
  obtain ⟨path', span', -, herror⟩ := h.cut id hc
  cases hn.symm.trans herror

/-- Marks can be made one after the other. -/
theorem Marks.trans {marked' : Tree} {cut' : NodeId → Prop} (h : Marks tree marked cut)
    (h' : Marks marked marked' cut') : Marks tree marked' fun id => cut id ∨ cut' id where
  root := h'.root.trans h.root
  size := h'.size.trans h.size
  same := fun id hid =>
    (h'.same id fun hc => hid (.inr hc)).trans (h.same id fun hc => hid (.inl hc))
  cut := fun id hid => by
    by_cases hc' : cut' id
    · obtain ⟨path, span, hfile, herror⟩ := h'.cut id hc'
      exact ⟨path, span, h.node?_eq hfile, herror⟩
    · obtain ⟨path, span, hfile, herror⟩ := h.cut id (hid.resolve_right hc')
      exact ⟨path, span, hfile, (h'.same id hc').trans herror⟩

/-! ## Trees of parses -/

/-- The root of a tree is a program that is its last node and lists no statement twice, and the
children of every node come before it. -/
structure Grounded (tree : Tree) : Prop where
  root : ∃ items span, tree.node? tree.root = some ⟨.program items, span⟩
  last : tree.size = tree.root.index + 1
  below : ∀ id node, tree.node? id = some node →
    ∀ child ∈ node.kind.children, child.index < id.index
  nodup : tree.items.Nodup

/-- The root of a tree is not marked. -/
theorem Grounded.node?_root (h : tree.Grounded) (hm : Marks tree marked cut) :
    marked.node? marked.root = tree.node? tree.root := by
  obtain ⟨items, span, hroot⟩ := h.root
  rw [hm.root]
  refine hm.same _ fun hc => ?_
  obtain ⟨path, span', hnode, -⟩ := hm.cut _ hc
  cases hroot.symm.trans hnode

/-- Marks do not matter to which statements a program has. -/
theorem Grounded.items_marks (h : tree.Grounded) (hm : Marks tree marked cut) :
    marked.items = tree.items := by
  rw [items, items, kind?, kind?, h.node?_root hm]

/-- Marks do not matter to the shape of a tree. -/
theorem Grounded.marks (h : tree.Grounded) (hm : Marks tree marked cut) : marked.Grounded := by
  obtain ⟨items, span, hroot⟩ := h.root
  have hroot' : marked.node? marked.root = some ⟨.program items, span⟩ :=
    (h.node?_root hm).trans hroot
  refine ⟨⟨items, span, hroot'⟩, ?_, fun id node hn => ?_, ?_⟩
  · rw [hm.size, hm.root, h.last]
  · by_cases hid : cut id
    · obtain ⟨path, span', -, hnode⟩ := hm.cut id hid
      obtain rfl := Option.some.inj (hnode.symm.trans hn)
      exact fun _ hc => nomatch hc
    · rw [hm.same id hid] at hn
      exact h.below id node hn
  · rw [h.items_marks hm]
    exact h.nodup

/-- The statements of a program come before its root. -/
theorem Grounded.item_lt (h : tree.Grounded) (hi : id ∈ tree.items) :
    id.index < tree.root.index := by
  obtain ⟨items, span, hroot⟩ := h.root
  rw [items_eq hroot, ← NodeKind.children_program items] at hi
  exact h.below _ _ hroot id hi

/-! ## Grafts -/

/-- A copy of `part`, all but its root, stands in a tree from an offset on. -/
def Holds (tree : Tree) (offset : Nat) (part : Tree) : Prop :=
  ∀ id node, part.node? id = some node → id ≠ part.root →
    tree.node? (shift offset part.root.index id) =
      some ⟨node.kind.map (shift offset part.root.index), node.span⟩

/-- The root of a tree is the child of none of its nodes. -/
def Rooted (tree : Tree) : Prop :=
  ∀ id node, tree.node? id = some node → ∀ child ∈ node.kind.children, child ≠ tree.root

/-- A node that is grafted stands behind the host. -/
theorem le_index_shift (offset root : Nat) (id : NodeId) :
    offset ≤ (shift offset root id).index := by
  unfold shift
  exact Nat.le_add_right ..

/-- The node that a node of a copy is a copy of. -/
def unshift (offset root : Nat) (id : NodeId) : NodeId :=
  ⟨if id.index - offset < root then id.index - offset else id.index - offset + 1⟩

/-- The place of a node that is no root tells the node. -/
theorem unshift_shift (offset : Nat) {root : NodeId} (h : id ≠ root) :
    unshift offset root.index (shift offset root.index id) = id := by
  have hindex := index_ne h
  refine congrArg NodeId.mk ?_
  unfold shift
  dsimp only
  repeat' split
  all_goals omega

/-- And a place behind the host is that of a node. -/
theorem shift_unshift (root : Nat) {offset : Nat} (h : offset ≤ id.index) :
    shift offset root (unshift offset root id) = id := by
  refine congrArg NodeId.mk ?_
  unfold unshift
  dsimp only
  repeat' split
  all_goals omega

/-- The root has no copy. -/
theorem unshift_ne (offset : Nat) (id root : NodeId) : unshift offset root.index id ≠ root := by
  refine fun heq => absurd (congrArg NodeId.index heq) ?_
  unfold unshift
  dsimp only
  split <;> omega

/-- A node of a copy has the kind and the span of the one that it is a copy of. -/
theorem getElem?_shifted (offset : Nat) (other : Tree) (id : NodeId) :
    (shifted offset other)[id.index - offset]? =
      (other.node? (unshift offset other.root.index id)).map fun node =>
        ⟨node.kind.map (shift offset other.root.index), node.span⟩ := by
  unfold shifted node? unshift
  rw [Array.getElem?_map, ← Array.getElem?_toList, Array.toList_eraseIdxIfInBounds,
    List.getElem?_eraseIdx]
  dsimp only
  split <;> rw [Array.getElem?_toList]

/-- What a graft makes of a tree. -/
structure Grafts (tree : Tree) (target : NodeId) (other grafted : Tree) : Prop where
  root : grafted.root = tree.root
  size : tree.size ≤ grafted.size
  grown : other.root.index < other.size → grafted.size + 1 = tree.size + other.size
  same : ∀ id, id.index < tree.size → id ≠ target → grafted.node? id = tree.node? id
  target : ∀ path span, tree.node? target = some ⟨.includeFile path [], span⟩ →
    grafted.node? target =
      some ⟨.includeFile path (other.items.map (shift tree.size other.root.index)), span⟩
  back : ∀ id, tree.size ≤ id.index → grafted.node? id =
    (other.node? (unshift tree.size other.root.index id)).map fun node =>
      ⟨node.kind.map (shift tree.size other.root.index), node.span⟩

/-- A graft holds the nodes of the grafted tree. -/
theorem Grafts.holds (h : Grafts tree target other grafted) :
    grafted.Holds tree.size other := by
  intro id node hn hne
  rw [h.back _ (le_index_shift ..), unshift_shift _ hne, hn, Option.map_some]

/-- What stands behind the nodes of the tree is a copy. -/
theorem Grafts.copied (h : Grafts tree target other grafted) (hle : tree.size ≤ id.index)
    (hn : grafted.node? id = some node) :
    ∃ part, other.node? (unshift tree.size other.root.index id) = some part ∧
      node = ⟨part.kind.map (shift tree.size other.root.index), part.span⟩ := by
  rw [h.back id hle] at hn
  obtain ⟨part, hpart, rfl⟩ := Option.map_eq_some_iff.1 hn
  exact ⟨part, hpart, rfl⟩

/-- The check for a root among the children passes where there is none. -/
theorem Rooted.hasRootChild (h : tree.Rooted) : tree.hasRootChild = false := by
  have hitems : tree.root ∉ tree.items := fun hm => by
    unfold items kind? at hm
    split at hm
    · next items hk =>
      obtain ⟨node, hn, hk⟩ := Option.map_eq_some_iff.1 hk
      refine h _ node hn tree.root ?_ rfl
      rw [hk, NodeKind.children_program]
      exact hm
    · cases hm
  simp only [Tree.hasRootChild, Bool.or_eq_false_iff, List.contains_eq_mem, decide_eq_false_iff_not,
    Array.any_eq_false', ← Array.mem_toList_iff, Array.toList_eraseIdxIfInBounds]
  refine ⟨hitems, fun node hn => ?_⟩
  obtain ⟨index, hindex⟩ := List.mem_iff_getElem?.1 (List.mem_of_mem_eraseIdx hn)
  rw [Array.getElem?_toList] at hindex
  simpa using fun hm => h ⟨index⟩ node hindex _ hm rfl

/-- An empty include statement can be given the statements of another tree. -/
theorem exists_grafts (hn : tree.node? target = some ⟨.includeFile path [], span⟩)
    (hother : other.Rooted) :
    ∃ grafted, tree.graft target other = .ok grafted ∧ Grafts tree target other grafted := by
  have hkind : tree.kind? target = some (.includeFile path []) := by
    rw [kind?, hn, Option.map_some]
  let items := other.items.map (shift tree.size other.root.index)
  let changed : Tree :=
    { tree with nodes := tree.nodes.modify target.index fun node =>
        { node with kind := .includeFile path items } }
  let grafted : Tree :=
    { tree with
      nodes := changed.nodes ++ shifted tree.size other
      comments := tree.comments ++ other.comments }
  have hgraft : tree.graft target other = .ok grafted := by
    unfold graft
    rw [hother.hasRootChild, hkind]
    rfl
  have hsize : changed.nodes.size = tree.size := Array.size_modify
  have hfront : ∀ id : NodeId, id.index < tree.size →
      (changed.nodes ++ shifted tree.size other)[id.index]? = changed.node? id := fun id hid =>
    Array.getElem?_append_left (hsize ▸ hid)
  have happend : grafted.size = tree.size + (shifted tree.size other).size :=
    Array.size_append.trans (congrArg (· + _) hsize)
  refine ⟨grafted, hgraft, rfl, ?_, fun hroot => ?_, fun id hid hne => ?_,
    fun path' span' hn' => ?_, fun id hid => ?_⟩
  · omega
  · have hshifted : (shifted tree.size other).size = other.size - 1 := by
      rw [shifted, Array.size_map, ← Array.length_toList, Array.toList_eraseIdxIfInBounds,
        List.length_eraseIdx_of_lt (by rwa [Array.length_toList]), Array.length_toList]
      rfl
    omega
  · exact (hfront id hid).trans ((node?_modify tree target id _).trans (if_neg hne))
  · rw [hn] at hn'
    cases hn'
    refine (hfront target (index_lt_of_node? hn)).trans
      ((node?_modify tree target target _).trans ?_)
    rw [if_pos rfl, hn, Option.map_some]
  · have hback : (changed.nodes ++ shifted tree.size other)[id.index]? =
        (shifted tree.size other)[id.index - tree.size]? := by
      rw [Array.getElem?_append_right (hsize.symm ▸ hid), hsize]
    exact hback.trans (getElem?_shifted tree.size other id)

/-- Whatever is grafted is grafted below an empty include statement. -/
theorem grafts_of_ok (h : tree.graft target other = .ok grafted) (hother : other.Rooted) :
    ∃ path span, tree.node? target = some ⟨.includeFile path [], span⟩ ∧
      Grafts tree target other grafted := by
  obtain ⟨path, span, hn⟩ : ∃ path span, tree.node? target = some ⟨.includeFile path [], span⟩ := by
    unfold graft at h
    split at h
    · cases h
    split at h
    · next path hkind =>
      obtain ⟨⟨_, span⟩, hn, rfl⟩ := Option.map_eq_some_iff.1 hkind
      exact ⟨path, span, hn⟩
    all_goals cases h
  obtain ⟨grafted', hgraft, hgrafts⟩ := exists_grafts hn hother
  obtain rfl := Except.ok.inj (h.symm.trans hgraft)
  exact ⟨path, span, hn, hgrafts⟩

/-- Whatever is marked is an include statement, or nothing changes. -/
theorem marks_of_ok (h : tree.markIncludeError target = .ok marked) :
    ∃ cut, Marks tree marked cut := by
  cases hk : tree.kind? target with
  | none => simp [markIncludeError, hk] at h
  | some kind =>
    by_cases hfile : ∃ path, kind = .includeFile path []
    · obtain ⟨path, rfl⟩ := hfile
      obtain ⟨⟨_, span⟩, hn, rfl⟩ := Option.map_eq_some_iff.1 hk
      obtain ⟨marked', hmark, hmarks⟩ := (Marks.refl tree).mark hn
      obtain rfl := Except.ok.inj (h.symm.trans hmark)
      exact ⟨_, hmarks⟩
    · unfold markIncludeError at h
      rw [hk] at h
      split at h
      · next path heq => exact absurd ⟨path, Option.some.inj heq⟩ hfile
      · cases h
      · exact Except.ok.inj h ▸ ⟨_, .refl tree⟩
      · cases h

end

end Tree

end OpenQasm
