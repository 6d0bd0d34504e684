import OpenQasm.Proofs.Program.Merging

/-!
# When merging follows all includes

Merging should follow every include statement that closes no cycle. It does if and only if the order
of merging puts each source after those that it includes by such statements, as far as these lead
from the entry.
-/

namespace OpenQasm

namespace Tree

/-- What holds of the nodes on a stack and passes on to children holds of every node on the walk. -/
theorem walkFrom_induction {tree : Tree} {p : NodeId → Prop}
    (hp : ∀ id, p id → ∀ child ∈ tree.children id, p child) {steps : Nat} {stack : List NodeId}
    (hs : ∀ id ∈ stack, p id) : ∀ id ∈ tree.walkFrom steps stack, p id := by
  induction steps generalizing stack with
  | zero => exact fun _ hm => nomatch hm
  | succ steps ih =>
    cases stack with
    | nil => exact fun _ hm => nomatch hm
    | cons first stack =>
      intro id hm
      rw [walkFrom_cons] at hm
      rcases List.mem_cons.1 hm with rfl | hm
      · exact hs _ List.mem_cons_self
      · refine ih (fun other ho => ?_) id hm
        rcases List.mem_append.1 ho with ho | ho
        · exact hp first (hs first List.mem_cons_self) other ho
        · exact hs other (List.mem_cons_of_mem _ ho)

end Tree

namespace Program

/-- The include statements that close no cycle. -/
def Kept (program : Program) (entry : SourceId) (index : Nat) : Prop :=
  index ∉ program.graph.backEdges entry

/-- The sources that the entry leads to by include statements that close no cycle. -/
inductive Reached (program : Program) (entry : SourceId) : SourceId → Prop
  | entry : Reached program entry entry
  | step {index : Nat} {edge : Inclusion} :
      Reached program entry edge.includer → program.graph.edge? index = some edge →
      program.Kept entry index → Reached program entry edge.included

/-- The order of merging puts every source after those that it includes without closing a cycle. -/
def InOrder (program : Program) (entry : SourceId) : Prop :=
  ∀ index edge, program.graph.edge? index = some edge → program.Kept entry index →
    program.Reached entry edge.includer →
    IncludeGraph.Precedes (program.graph.mergeOrder entry []) edge.included edge.includer

section
variable {program : Program} {entry source : SourceId} {follows : Nat → Prop} {merged tree : Tree}
  {id id' : NodeId} {index : Nat} {edge : Inclusion}

/-! ## What an expansion looks like -/

/-- The expansion of the root of a source holds the expansions of its statements. -/
theorem Expands.of_root (hl : program.Loaded entry) (ht : program.tree? source = some tree)
    (h : Expands program follows merged source tree.root id') :
    ∃ image span, merged.node? id' = some ⟨.program (tree.items.map image), span⟩ ∧
      ∀ item ∈ tree.items, Expands program follows merged source item (image item) := by
  obtain ⟨items, span, hroot⟩ := (hl.grounded source tree ht).root
  have hitems := Tree.items_eq hroot
  cases h with
  | copy image ht' hn _ hm hc =>
    obtain rfl := Option.some.inj (ht.symm.trans ht')
    cases hroot.symm.trans hn
    rw [hitems]
    refine ⟨image, span, hm, fun item hi => hc item ?_⟩
    simpa [NodeKind.children, NodeKind.slots, NodeKind.each] using hi
  | follow _ _ _ _ hb hi =>
    obtain rfl := Option.some.inj (ht.symm.trans hb)
    cases hroot.symm.trans hi
  | leave _ _ _ hb hi =>
    obtain rfl := Option.some.inj (ht.symm.trans hb)
    cases hroot.symm.trans hi

/-- The expansion of an include statement that is followed holds those of the statements of the
source that it leads to. -/
theorem Expands.of_followed (hl : program.Loaded entry)
    (he : program.graph.edge? index = some edge) (hf : follows index)
    (h : Expands program follows merged edge.includer edge.node id') :
    ∃ path span target image, program.tree? edge.included = some target ∧
      merged.node? id' = some ⟨.includeFile path (target.items.map image), span⟩ ∧
      ∀ item ∈ target.items, Expands program follows merged edge.included item (image item) := by
  cases h with
  | copy _ _ _ hno => exact absurd rfl (hno index edge he rfl)
  | follow image he' hs hn hb hi _ ht hm hc =>
    obtain rfl := hl.distinct _ _ _ _ he he' hs.symm hn.symm
    obtain rfl := Option.some.inj (he.symm.trans he')
    exact ⟨_, _, _, image, ht, hm, hc⟩
  | leave he' hs hn _ _ hf' =>
    obtain rfl := hl.distinct _ _ _ _ he he' hs.symm hn.symm
    exact absurd hf hf'

/-- The expansion of an include statement that is not followed is an error. -/
theorem Expands.of_left (hl : program.Loaded entry)
    (he : program.graph.edge? index = some edge) (hf : ¬follows index)
    (h : Expands program follows merged edge.includer edge.node id') :
    ∃ path span, merged.node? id' = some ⟨.includeError path, span⟩ := by
  cases h with
  | copy _ _ _ hno => exact absurd rfl (hno index edge he rfl)
  | follow image he' hs hn _ _ hf' =>
    obtain rfl := hl.distinct _ _ _ _ he he' hs.symm hn.symm
    exact absurd hf' hf
  | leave he' hs hn _ _ _ hm => exact ⟨_, _, hm⟩

/-! ## The condition -/

/-- If the order is right, what is followed where it is placed is followed where it is kept. -/
theorem Expands.kept (ho : program.InOrder entry) (hr : program.Reached entry source)
    (h : Expands program (program.Placed entry) merged source id id') :
    Expands program (program.Kept entry) merged source id id' := by
  induction h with
  | copy image ht hn hno hm _ ih => exact .copy image ht hn hno hm fun child hc => ih child hc hr
  | follow image he hs hn hb hi hf ht hm _ ih =>
    subst hs
    exact .follow image he rfl hn hb hi hf.1 ht hm fun item hitem => ih item hitem
      (.step hr he hf.1)
  | leave he hs hn hb hi hf hm =>
    subst hs
    exact .leave he rfl hn hb hi (fun hk => hf ⟨hk, _, he, ho _ _ he hk hr⟩) hm

/-- The statements of a source expand both ways to the same nodes of a tree. -/
def Agrees (program : Program) (entry : SourceId) (merged : Tree) (source : SourceId) : Prop :=
  ∃ (tree : Tree) (image : NodeId → NodeId), program.tree? source = some tree ∧ ∀ item ∈ tree.items,
    Expands program (program.Placed entry) merged source item (image item) ∧
      Expands program (program.Kept entry) merged source item (image item)

/-- An include statement that is kept is placed, and the source that it leads to agrees as well. -/
theorem Agrees.step (hl : program.Loaded entry) (h : Agrees program entry merged edge.includer)
    (he : program.graph.edge? index = some edge) (hk : program.Kept entry index) :
    program.Placed entry index ∧ Agrees program entry merged edge.included := by
  obtain ⟨tree, image, ht, hitems⟩ := h
  obtain ⟨tree', path, ht', hitem, -⟩ := hl.statement index edge he
  obtain rfl := Option.some.inj (ht.symm.trans ht')
  obtain ⟨hplaced, hkept⟩ := hitems _ hitem
  obtain ⟨path, span, target, image', htarget, hm, hchildren⟩ := hkept.of_followed hl he hk
  by_cases hp : program.Placed entry index
  · obtain ⟨path', span', target', image'', htarget', hm', hchildren'⟩ :=
      hplaced.of_followed hl he hp
    obtain rfl := Option.some.inj (htarget.symm.trans htarget')
    have heq : target.items.map image' = target.items.map image'' := by
      have := Option.some.inj (hm.symm.trans hm')
      simp only [Node.mk.injEq, NodeKind.includeFile.injEq] at this
      exact this.1.2
    refine ⟨hp, target, image', htarget, fun item hi => ⟨?_, hchildren item hi⟩⟩
    rw [List.map_inj_left.1 heq item hi]
    exact hchildren' item hi
  · obtain ⟨path', span', hm'⟩ := hplaced.of_left hl he hp
    cases hm.symm.trans hm'

/-- The merged tree is the expansion of the entry with all include statements followed that close no
cycle if and only if the order of merging is right. -/
theorem Expanded.kept_iff (hl : program.Loaded entry) (ht : program.tree? entry = some tree)
    (h : Expanded program (program.Placed entry) entry tree merged) :
    Expands program (program.Kept entry) merged entry tree.root merged.root ↔
      program.InOrder entry := by
  have hlast := (hl.grounded entry tree ht).last
  have hroot : Expands program (program.Placed entry) merged entry tree.root merged.root :=
    h.root ▸ h.expands tree.root (by omega)
  constructor
  · intro hkept
    have hagrees : ∀ source, program.Reached entry source → Agrees program entry merged source := by
      intro source hr
      induction hr with
      | entry =>
        obtain ⟨image, span, hm, hitems⟩ := hroot.of_root hl ht
        obtain ⟨image', span', hm', hitems'⟩ := hkept.of_root hl ht
        have heq : tree.items.map image = tree.items.map image' := by
          have := Option.some.inj (hm.symm.trans hm')
          simp only [Node.mk.injEq, NodeKind.program.injEq] at this
          exact this.1
        refine ⟨tree, image, ht, fun item hi => ⟨hitems item hi, ?_⟩⟩
        rw [List.map_inj_left.1 heq item hi]
        exact hitems' item hi
      | step _ he hk ih => exact (ih.step hl he hk).2
    intro index edge he hk hr
    obtain ⟨-, edge', he', hp⟩ := ((hagrees _ hr).step hl he hk).1
    obtain rfl := Option.some.inj (he.symm.trans he')
    exact hp
  · exact fun ho => hroot.kept ho .entry

/-! ## Errors in the merged tree -/

/-- Every node of a merged tree is the expansion of some node. -/
theorem Expands.of_descendant (h : Expands program follows merged source id merged.root)
    (hd : id' ∈ merged.descendants) :
    ∃ source id, Expands program follows merged source id id' := by
  refine Tree.walkFrom_induction (p := fun id' => ∃ source id,
    Expands program follows merged source id id') (fun id' hid child hc => ?_) (fun other ho => ?_)
    id' hd
  · obtain ⟨source, id, h⟩ := hid
    cases h with
    | copy image _ _ _ hm hchildren =>
      rw [Tree.children, hm] at hc
      simp only [NodeKind.children_map, List.mem_map] at hc
      obtain ⟨child, hchild, rfl⟩ := hc
      exact ⟨_, _, hchildren child hchild⟩
    | follow image _ _ _ _ _ _ _ hm hitems =>
      rw [Tree.children, hm] at hc
      obtain ⟨item, hitem, rfl⟩ : ∃ item ∈ _, image item = child := by
        simpa [NodeKind.children, NodeKind.slots, NodeKind.each] using hc
      exact ⟨_, _, hitems item hitem⟩
    | leave _ _ _ _ _ _ hm =>
      rw [Tree.children, hm] at hc
      cases hc
  · obtain rfl := List.mem_singleton.1 ho
    exact ⟨source, id, h⟩

/-- An error in the expansion stands for an include statement that is marked in its source or not
followed. -/
theorem Expands.of_error {path : String} {span : Span} (hl : program.Loaded entry)
    (h : Expands program follows merged source id id')
    (hm : merged.node? id' = some ⟨.includeError path, span⟩) :
    (∃ diagnostic ∈ program.diagnostics.items,
      diagnostic.code = .includeNotFound ∧ diagnostic.span = span) ∨
    ∃ index edge, program.graph.edge? index = some edge ∧ ¬follows index ∧ edge.span = span := by
  cases h with
  | @copy _ _ _ tree kind _ image ht hn _ hm' =>
    have heq := Option.some.inj (hm.symm.trans hm')
    simp only [Node.mk.injEq] at heq
    obtain ⟨hkind, rfl⟩ := heq
    cases kind <;> simp only [NodeKind.map, reduceCtorEq] at hkind
    exact .inl (hl.reported _ _ _ _ _ ht hn)
  | follow _ _ _ _ _ _ _ _ hm' => cases hm.symm.trans hm'
  | @leave index edge _ _ _ base path' span' he hs hn hb hi hf hm' =>
    cases hm.symm.trans hm'
    obtain ⟨tree, path'', ht, -, hnode⟩ := hl.statement index edge he
    obtain rfl := Option.some.inj (hb.symm.trans (hs ▸ ht))
    cases hi.symm.trans (hn ▸ hnode)
    exact .inr ⟨index, edge, he, hf, rfl⟩

end

end Program

end OpenQasm
