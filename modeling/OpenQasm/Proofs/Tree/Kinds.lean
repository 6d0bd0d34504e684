import OpenQasm.Proofs.Tree.Splicing

/-!
# Well-kinded trees

In a well-kinded tree the root is a program, the nodes hang together, and every child may take its
place. Marks keep a tree well-kinded, as an include statement has no children yet and an error may
stand where it stood. So do grafts: the copy of a tree without its root hangs below the include
statement as the original hangs below its root, and a node below the target has a lower rank than
all that was in the tree before.
-/

namespace OpenQasm

/-- An include statement that is marked may take the places that it took before. -/
theorem Slot.accepts_includeError {ι : Type} (slot : Slot) (path : String) (items : List ι) :
    slot.accepts (.includeError path : NodeKind ι) = slot.accepts (.includeFile path items) := by
  cases slot <;> rfl

/-- So may one that has been given its statements. -/
theorem Slot.accepts_includeFile {ι : Type} (slot : Slot) (path : String) (items more : List ι) :
    slot.accepts (.includeFile path items) = slot.accepts (.includeFile path more) := by
  cases slot <;> rfl

namespace Tree

/-- The children of every node are there and may take their places. -/
def Fits (tree : Tree) : Prop :=
  ∀ id node, tree.node? id = some node → ∀ place ∈ node.kind.slots,
    ∃ child, tree.node? place.2 = some child ∧ place.1.accepts child.kind

/-- The root of a tree is a program, its nodes hang together, and every child may take its place. -/
structure WellKinded (tree : Tree) : Prop where
  root : ∃ items span, tree.node? tree.root = some ⟨.program items, span⟩
  joined : tree.Joined
  fits : tree.Fits

section
variable {tree marked other grafted : Tree} {target id child : NodeId} {node : Node} {path : String}
  {span : Span} {cut : NodeId → Prop}

/-- A well-kinded tree is one. -/
theorem WellKinded.isTree (h : tree.WellKinded) : tree.IsTree := h.joined.isTree h.root

/-- So it is rooted. -/
theorem WellKinded.rooted (h : tree.WellKinded) : tree.Rooted := h.isTree.rooted

/-! ## Marks -/

/-- Marks do not matter to what stands below what. -/
theorem Marks.children_eq (h : Marks tree marked cut) : marked.children = tree.children := by
  funext id
  by_cases hid : cut id
  · obtain ⟨path, span, hfile, herror⟩ := h.cut id hid
    rw [children_of_node? hfile, children_of_node? herror]
    rfl
  · rw [children, children, h.same id hid]

/-- A node that may be marked keeps its span and may take the same places. -/
theorem Marks.exists_node (h : Marks tree marked cut) (hn : tree.node? id = some node) :
    ∃ node', marked.node? id = some node' ∧ node'.span = node.span ∧
      ∀ slot : Slot, slot.accepts node'.kind = slot.accepts node.kind := by
  by_cases hid : cut id
  · obtain ⟨path, span, hfile, herror⟩ := h.cut id hid
    obtain rfl := Option.some.inj (hn.symm.trans hfile)
    exact ⟨_, herror, rfl, fun slot => slot.accepts_includeError path []⟩
  · exact ⟨node, (h.same id hid).trans hn, rfl, fun _ => rfl⟩

/-- A marked tree is joined. -/
theorem Joined.marks (h : tree.Joined) (hm : Marks tree marked cut) : marked.Joined := by
  refine ⟨?_, ?_, ?_, ?_, ?_⟩
  · rw [hm.root, hm.size]
    exact h.root
  · rw [hm.root, hm.children_eq]
    exact h.top
  · rw [hm.size, hm.children_eq]
    exact h.inside
  · rw [hm.root, hm.size, hm.children_eq]
    exact h.parent
  · rw [hm.size, hm.children_eq]
    exact h.rank

/-- And its children fit. -/
theorem Fits.marks (h : tree.Fits) (hm : Marks tree marked cut) : marked.Fits := by
  intro id node hn place hp
  by_cases hid : cut id
  · obtain ⟨path, span, -, herror⟩ := hm.cut id hid
    obtain rfl := Option.some.inj (hn.symm.trans herror)
    cases hp
  · rw [hm.same id hid] at hn
    obtain ⟨child, hchild, haccepts⟩ := h id node hn place hp
    obtain ⟨child', hchild', -, hsame⟩ := hm.exists_node hchild
    exact ⟨child', hchild', (hsame place.1).trans haccepts⟩

/-- Marks keep a tree well-kinded. -/
theorem WellKinded.marks (h : tree.WellKinded) (hm : Marks tree marked cut) :
    marked.WellKinded := by
  refine ⟨?_, h.joined.marks hm, h.fits.marks hm⟩
  obtain ⟨items, span, hroot⟩ := h.root
  refine ⟨items, span, ?_⟩
  rw [hm.root, hm.same, hroot]
  intro hc
  obtain ⟨path, span', hfile, -⟩ := hm.cut _ hc
  cases hroot.symm.trans hfile

/-! ## Grafts -/

section
variable (hg : Grafts tree target other grafted)
include hg

/-- A node that was there keeps its span and may take the same places. -/
theorem Grafts.exists_node (hn : tree.node? target = some ⟨.includeFile path [], span⟩)
    (hnode : tree.node? id = some node) : ∃ node', grafted.node? id = some node' ∧
      node'.span = node.span ∧ ∀ slot : Slot, slot.accepts node'.kind = slot.accepts node.kind := by
  by_cases hid : id = target
  · subst hid
    obtain rfl := Option.some.inj (hn.symm.trans hnode)
    exact ⟨_, hg.target path span hn, rfl, fun slot => slot.accepts_includeFile path _ []⟩
  · exact ⟨node, (hg.same id (index_lt_of_node? hnode) hid).trans hnode, rfl, fun _ => rfl⟩

/-- Every child of a graft may take its place. -/
theorem Grafts.fits (h : tree.Fits) (ho : other.WellKinded)
    (hn : tree.node? target = some ⟨.includeFile path [], span⟩) : grafted.Fits := by
  -- The copy of a child takes the place that the child takes.
  have hcopy : ∀ {id node}, other.node? id = some node → ∀ place ∈ node.kind.slots,
      ∃ child, grafted.node? (shift tree.size other.root.index place.2) = some child ∧
        place.1.accepts child.kind := fun hnode place hp => by
    obtain ⟨child, hchild, haccepts⟩ := ho.fits _ _ hnode place hp
    have hne := ho.rooted _ _ hnode place.2 (List.mem_map_of_mem hp)
    exact ⟨_, hg.holds _ _ hchild hne, (NodeKind.accepts_map ..).trans haccepts⟩
  intro id node hnode place hp
  by_cases hid : id.index < tree.size
  · by_cases htarget : id = target
    · subst htarget
      obtain rfl := Option.some.inj ((hg.target path span hn).symm.trans hnode)
      obtain ⟨items, span', hroot⟩ := ho.root
      rw [Tree.items_eq hroot] at hp
      obtain ⟨copied, hcopied, rfl⟩ := List.mem_map.1 hp
      obtain ⟨item, hi, rfl⟩ := List.mem_map.1 hcopied
      exact hcopy hroot (.statement, item) (List.mem_map_of_mem hi)
    · rw [hg.same id hid htarget] at hnode
      obtain ⟨child, hchild, haccepts⟩ := h id node hnode place hp
      obtain ⟨child', hchild', -, hsame⟩ := hg.exists_node hn hchild
      exact ⟨child', hchild', (hsame place.1).trans haccepts⟩
  · obtain ⟨part, hpart, rfl⟩ := hg.copied (Nat.le_of_not_lt hid) hnode
    rw [NodeKind.slots_map] at hp
    obtain ⟨⟨slot, item⟩, hi, rfl⟩ := List.mem_map.1 hp
    exact hcopy hpart (slot, item) hi

/-- A graft of a well-kinded tree keeps a tree well-kinded. -/
theorem Grafts.wellKinded (h : tree.WellKinded) (ho : other.WellKinded)
    (hn : tree.node? target = some ⟨.includeFile path [], span⟩) : grafted.WellKinded := by
  refine ⟨?_, hg.joined h.joined ho.isTree hn, hg.fits h.fits ho hn⟩
  obtain ⟨items, span', hroot⟩ := h.root
  refine ⟨items, span', ?_⟩
  rw [hg.root, hg.same _ h.joined.root, hroot]
  rintro heq
  rw [heq] at hroot
  cases hroot.symm.trans hn

end

/-! ## Sources -/

/-- The nodes below a node stem from its source, but for those below an include statement, which
stem from a source to which the statement leads by its path and its span. -/
structure Sourced (leads : String → Span → SourceId → Prop) (tree : Tree) : Prop where
  same : ∀ id node, tree.node? id = some node →
    (∀ path items, node.kind ≠ .includeFile path items) →
    ∀ child ∈ node.kind.children, ∀ part, tree.node? child = some part →
      part.span.source = node.span.source
  included : ∀ id path items span, tree.node? id = some ⟨.includeFile path items, span⟩ →
    items ≠ [] → ∃ source, leads path span source ∧
      ∀ item ∈ items, ∀ part, tree.node? item = some part → part.span.source = source

section
variable {leads : String → Span → SourceId → Prop} {source : SourceId}

/-- The statements of a tree stem from the source of its root. -/
theorem Sourced.items (h : tree.Sourced leads) (hw : tree.WellKinded)
    (hs : ∀ node, tree.node? tree.root = some node → node.span.source = source) :
    ∀ item ∈ tree.items, ∀ part, tree.node? item = some part → part.span.source = source := by
  obtain ⟨items, span, hroot⟩ := hw.root
  intro item hi part hpart
  rw [Tree.items_eq hroot, ← NodeKind.children_program items] at hi
  exact (h.same _ _ hroot (fun _ _ => nofun) item hi part hpart).trans (hs _ hroot)

/-- A node of a marked tree has the span that it had before. -/
theorem Marks.exists_before (hm : Marks tree marked cut) (hn : marked.node? id = some node) :
    ∃ before, tree.node? id = some before ∧ before.span = node.span := by
  by_cases hid : cut id
  · obtain ⟨path, span, hfile, herror⟩ := hm.cut id hid
    obtain rfl := Option.some.inj (hn.symm.trans herror)
    exact ⟨_, hfile, rfl⟩
  · exact ⟨node, (hm.same id hid).symm.trans hn, rfl⟩

/-- Marks leave nodes in their sources. -/
theorem Sourced.marks (h : tree.Sourced leads) (hm : Marks tree marked cut) :
    marked.Sourced leads := by
  refine ⟨fun id node hn hfile child hc part hpart => ?_, fun id path items span hn hne => ?_⟩
  · obtain ⟨before, hbefore, heq⟩ := hm.exists_before hpart
    by_cases hid : cut id
    · obtain ⟨path, span, -, herror⟩ := hm.cut id hid
      obtain rfl := Option.some.inj (hn.symm.trans herror)
      cases hc
    · rw [hm.same id hid] at hn
      exact heq ▸ h.same id node hn hfile child hc before hbefore
  · obtain ⟨source, hleads, hitems⟩ := h.included id path items span (hm.node?_eq hn) hne
    refine ⟨source, hleads, fun item hi part hpart => ?_⟩
    obtain ⟨before, hbefore, heq⟩ := hm.exists_before hpart
    exact heq ▸ hitems item hi before hbefore

section
variable (hg : Grafts tree target other grafted)
include hg

/-- A node that was there has the span that it had before. -/
theorem Grafts.exists_before (hn : tree.node? target = some ⟨.includeFile path [], span⟩)
    (hid : id.index < tree.size) (hnode : grafted.node? id = some node) :
    ∃ before, tree.node? id = some before ∧ before.span = node.span := by
  by_cases htarget : id = target
  · subst htarget
    obtain rfl := Option.some.inj (hnode.symm.trans (hg.target path span hn))
    exact ⟨_, hn, rfl⟩
  · exact ⟨node, (hg.same id hid htarget).symm.trans hnode, rfl⟩

/-- A copy has the span of what it is a copy of. -/
theorem Grafts.exists_copied (hne : id ≠ other.root)
    (hnode : grafted.node? (shift tree.size other.root.index id) = some node) :
    ∃ copied, other.node? id = some copied ∧ copied.span = node.span := by
  obtain ⟨copied, hcopied, rfl⟩ := hg.copied (le_index_shift ..) hnode
  rw [unshift_shift _ hne] at hcopied
  exact ⟨copied, hcopied, rfl⟩

/-- In a graft, what stands below a node that is no include statement stems from its source. -/
theorem Grafts.sourced_same (h : tree.Sourced leads) (hw : tree.WellKinded)
    (ho : other.Sourced leads) (hwo : other.WellKinded)
    (hn : tree.node? target = some ⟨.includeFile path [], span⟩)
    (hnode : grafted.node? id = some node)
    (hfile : ∀ path items, node.kind ≠ .includeFile path items)
    (hc : child ∈ node.kind.children) {part : Node} (hpart : grafted.node? child = some part) :
    part.span.source = node.span.source := by
  by_cases hid : id.index < tree.size
  · by_cases htarget : id = target
    · subst htarget
      obtain rfl := Option.some.inj ((hg.target path span hn).symm.trans hnode)
      exact absurd rfl (hfile path _)
    · rw [hg.same id hid htarget] at hnode
      have hinside := hw.joined.inside id child (children_of_node? hnode ▸ hc)
      obtain ⟨before, hbefore, heq⟩ := hg.exists_before hn hinside hpart
      exact heq ▸ h.same id node hnode hfile child hc before hbefore
  · obtain ⟨origin, horigin, rfl⟩ := hg.copied (Nat.le_of_not_lt hid) hnode
    rw [NodeKind.children_map] at hc
    obtain ⟨item, hi, rfl⟩ := List.mem_map.1 hc
    obtain ⟨copied, hcopied, heq⟩ := hg.exists_copied (hwo.rooted _ _ horigin item hi) hpart
    refine heq ▸ ho.same _ origin horigin (fun path items hkind => ?_) item hi copied hcopied
    exact hfile path _ (by rw [hkind]; rfl)

/-- In a graft, the statements of an include statement stem from a source to which it leads. -/
theorem Grafts.sourced_included (h : tree.Sourced leads) (hw : tree.WellKinded)
    (ho : other.Sourced leads) (hwo : other.WellKinded)
    (hn : tree.node? target = some ⟨.includeFile path [], span⟩) (hleads : leads path span source)
    (hs : ∀ node, other.node? other.root = some node → node.span.source = source)
    {path' : String} {items : List NodeId} {span' : Span}
    (hnode : grafted.node? id = some ⟨.includeFile path' items, span'⟩) (hne : items ≠ []) :
    ∃ source, leads path' span' source ∧
      ∀ item ∈ items, ∀ part, grafted.node? item = some part → part.span.source = source := by
  by_cases hid : id.index < tree.size
  · by_cases htarget : id = target
    · subst htarget
      cases (hg.target path span hn).symm.trans hnode
      refine ⟨source, hleads, fun place hm part hpart => ?_⟩
      obtain ⟨item, hi, rfl⟩ := List.mem_map.1 hm
      have hroot : item ≠ other.root := fun heq => hwo.joined.top _ (heq ▸ hwo.isTree.items_eq ▸ hi)
      obtain ⟨copied, hcopied, heq⟩ := hg.exists_copied hroot hpart
      exact heq ▸ ho.items hwo hs item hi copied hcopied
    · rw [hg.same id hid htarget] at hnode
      obtain ⟨source, hleads, hitems⟩ := h.included id path' items span' hnode hne
      refine ⟨source, hleads, fun item hi part hpart => ?_⟩
      have hinside := hw.joined.inside id item (by
        rwa [children_of_node? hnode, NodeKind.children_includeFile])
      obtain ⟨before, hbefore, heq⟩ := hg.exists_before hn hinside hpart
      exact heq ▸ hitems item hi before hbefore
  · obtain ⟨⟨kind, span⟩, horigin, heq⟩ := hg.copied (Nat.le_of_not_lt hid) hnode
    cases kind <;> cases heq
    next items =>
    obtain ⟨source, hleads, hitems⟩ := ho.included _ _ items _ horigin fun hnil =>
      hne (List.map_eq_nil_iff.2 hnil)
    refine ⟨source, hleads, fun place hm part hpart => ?_⟩
    obtain ⟨item, hi, rfl⟩ := List.mem_map.1 hm
    have hroot := hwo.rooted _ _ horigin item
      (show item ∈ (NodeKind.includeFile path' items).children by
        rwa [NodeKind.children_includeFile])
    obtain ⟨copied, hcopied, heq⟩ := hg.exists_copied hroot hpart
    exact heq ▸ hitems item hi copied hcopied

end

/-- A graft below a statement that leads to the source of the other tree leaves nodes in their
sources. -/
theorem Sourced.grafts (h : tree.Sourced leads) (hw : tree.WellKinded) (ho : other.Sourced leads)
    (hwo : other.WellKinded) (hn : tree.node? target = some ⟨.includeFile path [], span⟩)
    (hleads : leads path span source)
    (hs : ∀ node, other.node? other.root = some node → node.span.source = source)
    (hg : Grafts tree target other grafted) : grafted.Sourced leads where
  same := fun _ _ hnode hfile _ hc _ hpart => hg.sourced_same h hw ho hwo hn hnode hfile hc hpart
  included := fun _ _ _ _ hnode hne => hg.sourced_included h hw ho hwo hn hleads hs hnode hne

end

end

end Tree

end OpenQasm
