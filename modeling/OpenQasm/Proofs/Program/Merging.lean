import OpenQasm.Program.Merging
import OpenQasm.Proofs.Program.Cycles

/-!
# Merging expands includes

Going through the include statements of a source settles one after the other, and merging the
sources in their order makes each of them the expansion of itself. An include statement is followed
if it is not cut and the source that it leads to stands before its own in the order.
-/

namespace OpenQasm.Program

open OpenQasm.Tree (Marks Grafts Holds Rooted shift)

/-! ## One source -/

/-- What has become of an include statement: it stays an error, or it becomes one because the source
that it leads to is not merged, or it holds a copy of this source's merged tree. -/
inductive Settled (merged : Merged) (base tree : Tree) (edge : Inclusion) : Prop
  | left {path : String} {span : Span} :
      base.node? edge.node = some ⟨.includeError path, span⟩ →
      tree.node? edge.node = some ⟨.includeError path, span⟩ → Settled merged base tree edge
  | missing {path : String} {span : Span} :
      base.node? edge.node = some ⟨.includeFile path [], span⟩ →
      merged.lookup edge.included = none →
      tree.node? edge.node = some ⟨.includeError path, span⟩ → Settled merged base tree edge
  | placed {path : String} {span : Span} {part : Tree} {offset : Nat} :
      base.node? edge.node = some ⟨.includeFile path [], span⟩ →
      merged.lookup edge.included = some part → base.size ≤ offset →
      tree.node? edge.node =
        some ⟨.includeFile path (part.items.map (shift offset part.root.index)), span⟩ →
      tree.Holds offset part → Settled merged base tree edge

/-- The include statements in `done` have been gone through. -/
structure Filled (merged : Merged) (base : Tree) (done : List Inclusion) (tree : Tree) : Prop where
  root : tree.root = base.root
  size : base.size ≤ tree.size
  rooted : tree.Rooted
  same : ∀ id, id.index < base.size → (∀ edge ∈ done, edge.node ≠ id) →
    tree.node? id = base.node? id
  settled : ∀ edge ∈ done, Settled merged base tree edge

section
variable {merged : Merged} {base tree tree' : Tree} {edge other : Inclusion}
  {done : List Inclusion} {path : String} {span : Span}

/-- A statement stays settled when another one is gone through. -/
theorem Settled.keep (h : Settled merged base tree other) (hne : other.node ≠ edge.node)
    (hlt : edge.node.index < base.size)
    (hsame : ∀ id, id.index < tree.size → id ≠ edge.node → tree'.node? id = tree.node? id) :
    Settled merged base tree' other := by
  have hnode : ∀ node, tree.node? other.node = some node → tree'.node? other.node = some node :=
    fun node hn => (hsame _ (Tree.index_lt_of_node? hn) hne).trans hn
  cases h with
  | left hb ht => exact .left hb (hnode _ ht)
  | missing hb hl ht => exact .missing hb hl (hnode _ ht)
  | @placed path span part offset hb hl ho ht hh =>
    refine .placed hb hl ho (hnode _ ht) fun id node hn hroot => ?_
    have hcopy := hh id node hn hroot
    refine (hsame _ (Tree.index_lt_of_node? hcopy) fun heq => ?_).trans hcopy
    have := Tree.le_index_shift offset part.root.index id
    rw [heq] at this
    omega

/-- One statement more, if nothing but its node changes in what was there. -/
theorem Filled.snoc (h : Filled merged base done tree)
    (hnew : ∀ other ∈ done, other.node ≠ edge.node) (hlt : edge.node.index < base.size)
    (hroot : tree'.root = tree.root) (hsize : tree.size ≤ tree'.size) (hrooted : tree'.Rooted)
    (hsame : ∀ id, id.index < tree.size → id ≠ edge.node → tree'.node? id = tree.node? id)
    (hsettled : Settled merged base tree' edge) : Filled merged base (edge :: done) tree' where
  root := hroot.trans h.root
  size := Nat.le_trans h.size hsize
  rooted := hrooted
  same := fun id hid hdone => by
    rw [hsame id (Nat.lt_of_lt_of_le hid h.size) (hdone edge List.mem_cons_self).symm]
    exact h.same id hid fun other ho => hdone other (List.mem_cons_of_mem _ ho)
  settled := fun other ho => by
    rcases List.mem_cons.1 ho with rfl | ho
    · exact hsettled
    · exact (h.settled other ho).keep (hnew other ho) hlt hsame

/-- A graft leaves the root without a parent. -/
theorem rooted_of_grafts {target : NodeId} {part : Tree} (h : tree.Rooted)
    (hg : Grafts tree target part tree') (hr : tree.root.index < tree.size)
    (hn : tree.node? target = some ⟨.includeFile path [], span⟩) : tree'.Rooted := by
  have hshift : ∀ id, shift tree.size part.root.index id ≠ tree.root := fun id heq => by
    have := Tree.le_index_shift tree.size part.root.index id
    rw [heq] at this
    omega
  intro id node hnode child hc
  rw [hg.root]
  by_cases hid : id.index < tree.size
  · by_cases htarget : id = target
    · subst htarget
      obtain rfl := Option.some.inj ((hg.target path span hn).symm.trans hnode)
      obtain ⟨item, -, rfl⟩ : ∃ item ∈ part.items,
          shift tree.size part.root.index item = child := by
        simpa [NodeKind.children, NodeKind.slots, NodeKind.each] using hc
      exact hshift item
    · rw [hg.same id hid htarget] at hnode
      exact h id node hnode child hc
  · obtain ⟨copied, -, rfl⟩ := hg.copied (Nat.le_of_not_lt hid) hnode
    rw [NodeKind.children_map, List.mem_map] at hc
    obtain ⟨item, -, rfl⟩ := hc
    exact hshift item

/-- A mark leaves the root without a parent. -/
theorem rooted_of_marks {cut : NodeId → Prop} (h : tree.Rooted) (hm : Marks tree tree' cut) :
    tree'.Rooted := by
  intro id node hnode child hc
  rw [hm.root]
  by_cases hid : cut id
  · obtain ⟨path, span, -, hn⟩ := hm.cut id hid
    obtain rfl := Option.some.inj (hn.symm.trans hnode)
    cases hc
  · rw [hm.same id hid] at hnode
    exact h id node hnode child hc

/-- Going through one statement settles it. -/
theorem Filled.graftInclude (h : Filled merged base done tree)
    (hm : ∀ file part, merged.lookup file = some part → part.Rooted)
    (hr : base.root.index < base.size)
    (hnew : ∀ other ∈ done, other.node ≠ edge.node)
    (hn : base.node? edge.node = some ⟨.includeError path, span⟩ ∨
      base.node? edge.node = some ⟨.includeFile path [], span⟩) :
    ∃ tree', graftInclude merged tree edge = .ok tree' ∧
      Filled merged base (edge :: done) tree' := by
  have hlt : edge.node.index < base.size := hn.elim Tree.index_lt_of_node? Tree.index_lt_of_node?
  have hsame := h.same edge.node hlt hnew
  rcases hn with hn | hn
  · have hnode := hsame.trans hn
    refine ⟨tree, by simp [Program.graftInclude, Tree.kind?, hnode], ?_⟩
    exact h.snoc hnew hlt rfl (Nat.le_refl _) h.rooted (fun _ _ _ => rfl) (.left hn hnode)
  · have hnode := hsame.trans hn
    cases hl : merged.lookup edge.included with
    | none =>
      obtain ⟨tree', hmark, hmarks⟩ := (Marks.refl tree).mark hnode
      refine ⟨tree', by simp [Program.graftInclude, Tree.kind?, hnode, hl, hmark], ?_⟩
      have hothers : ∀ id, id.index < tree.size → id ≠ edge.node →
          tree'.node? id = tree.node? id := fun id _ hne =>
        hmarks.same id fun hc => hne (hc.resolve_left fun hf => hf)
      obtain ⟨path', span', hfile, herror⟩ := hmarks.cut edge.node (.inr rfl)
      rw [hnode] at hfile
      cases hfile
      exact h.snoc hnew hlt hmarks.root (Nat.le_of_eq hmarks.size.symm)
        (rooted_of_marks h.rooted hmarks) hothers (.missing hn hl herror)
    | some part =>
      obtain ⟨tree', hgraft, hgrafts⟩ := Tree.exists_grafts hnode (hm _ part hl)
      refine ⟨tree', by simp [Program.graftInclude, Tree.kind?, hnode, hl, hgraft], ?_⟩
      have hroot : tree.root.index < tree.size := h.root ▸ Nat.lt_of_lt_of_le hr h.size
      exact h.snoc hnew hlt hgrafts.root hgrafts.size
        (rooted_of_grafts h.rooted hgrafts hroot hnode) hgrafts.same
        (.placed hn hl h.size (hgrafts.target path span hnode) hgrafts.holds)

/-- Going through all statements settles them. -/
theorem Filled.graftAll {edges : List Inclusion} (h : Filled merged base done tree)
    (hm : ∀ file part, merged.lookup file = some part → part.Rooted)
    (hr : base.root.index < base.size)
    (hnew : ∀ other ∈ done, ∀ edge ∈ edges, other.node ≠ edge.node)
    (hdistinct : edges.Pairwise fun left right => left.node ≠ right.node)
    (hn : ∀ edge ∈ edges, ∃ path span, base.node? edge.node = some ⟨.includeError path, span⟩ ∨
      base.node? edge.node = some ⟨.includeFile path [], span⟩) :
    ∃ tree' done', edges.foldlM (Program.graftInclude merged) tree = .ok tree' ∧
      Filled merged base done' tree' ∧ ∀ edge, edge ∈ done' ↔ edge ∈ done ∨ edge ∈ edges := by
  induction edges generalizing tree done with
  | nil => exact ⟨tree, done, rfl, h, by simp⟩
  | cons edge edges ih =>
    obtain ⟨hedge, hdistinct⟩ := List.pairwise_cons.1 hdistinct
    obtain ⟨path, span, hedge'⟩ := hn edge List.mem_cons_self
    obtain ⟨tree', hgraft, hfilled⟩ := h.graftInclude hm hr
      (fun other ho => hnew other ho edge List.mem_cons_self) hedge'
    obtain ⟨tree'', done', hfold, hfilled', hmem⟩ := ih hfilled (fun other ho next hnext => by
      rcases List.mem_cons.1 ho with rfl | ho
      · exact hedge next hnext
      · exact hnew other ho next (List.mem_cons_of_mem _ hnext)) hdistinct
      fun next hnext => hn next (List.mem_cons_of_mem _ hnext)
    refine ⟨tree'', done', ?_, hfilled', fun next => ?_⟩
    · rw [List.foldlM_cons, hgraft]
      exact hfold
    · rw [hmem, List.mem_cons, List.mem_cons, or_assoc, or_left_comm]

end

/-! ## All sources -/

/-- A merged tree is the expansion of the tree of its source. The nodes of this tree keep their
ids. -/
structure Expanded (program : Program) (follows : Nat → Prop) (source : SourceId)
    (tree merged : Tree) : Prop where
  root : merged.root = tree.root
  statements : merged.node? tree.root = tree.node? tree.root
  rooted : merged.Rooted
  expands : ∀ id, id.index < tree.size → Expands program follows merged source id id

section
variable {program after : Program} {entry source : SourceId} {follows : Nat → Prop}
  {edges : List Inclusion} {merged : Merged} {base tree part : Tree}

/-- The merged tree has the same statements. -/
theorem Expanded.items_eq (h : Expanded program follows source tree part) :
    part.items = tree.items := by
  rw [Tree.items, Tree.items, Tree.kind?, Tree.kind?, h.root, h.statements]

/-- The include statements of a source have different nodes. -/
theorem Loaded.includesOf_pairwise (hl : program.Loaded entry) (source : SourceId) :
    (program.graph.includesOf source).Pairwise fun left right => left.node ≠ right.node :=
  IncludeGraph.includesOf_pairwise fun _ _ _ _ hne he he' hs hs' heq =>
    hne (hl.distinct _ _ _ _ he he' (hs.trans hs'.symm) heq)

/-- A tree whose include statements have all been gone through is the expansion of its source, if
the merged trees are those of theirs. -/
theorem Filled.expanded {done : List Inclusion} (hl : program.Loaded entry)
    (hedges : ∀ edge ∈ edges, ∃ index, program.graph.edge? index = some edge)
    (ht : program.tree? source = some tree) (hm : Marks tree base (IsNode edges source))
    (h : Filled merged base done part)
    (hdone : ∀ edge, edge ∈ done ↔ edge ∈ program.graph.includesOf source)
    (hmerged : ∀ file part, merged.lookup file = some part →
      ∃ tree, program.tree? file = some tree ∧ Expanded program follows file tree part)
    (hfollows : ∀ index edge, program.graph.edge? index = some edge → edge.includer = source →
      (follows index ↔ edge ∉ edges ∧ ∃ part, merged.lookup edge.included = some part)) :
    Expanded program follows source tree part := by
  have hground := hl.grounded source tree ht
  -- A node that is no include statement stays as it is.
  have hplain : ∀ id, id.index < tree.size →
      (∀ index edge, program.graph.edge? index = some edge → edge.includer = source →
        edge.node ≠ id) → part.node? id = tree.node? id := fun id hid hno => by
    rw [h.same id (hm.size ▸ hid) fun edge he => ?_, hm.same id ?_]
    · rintro ⟨edge, he, hs, hi⟩
      obtain ⟨index, hindex⟩ := hedges edge he
      exact hno index edge hindex hs hi
    · obtain ⟨index, hindex, hs⟩ := IncludeGraph.mem_includesOf.1 ((hdone edge).1 he)
      exact hno index edge hindex hs
  have hlast := hground.last
  refine ⟨h.root.trans hm.root, hplain _ (by omega) fun index edge he hs hn => ?_, h.rooted, ?_⟩
  · obtain ⟨tree', path, ht', -, hnode⟩ := hl.statement index edge he
    obtain rfl := Option.some.inj (ht.symm.trans (hs ▸ ht'))
    obtain ⟨items, span, hroot⟩ := hground.root
    rw [hn, hroot] at hnode
    cases hnode
  intro id hid
  generalize hk : id.index = k
  induction k using Nat.strongRecOn generalizing id with
  | _ k ih =>
  by_cases he : ∃ index edge, program.graph.edge? index = some edge ∧ edge.includer = source ∧
      edge.node = id
  · obtain ⟨index, edge, hindex, hs, hn⟩ := he
    obtain ⟨tree', path, ht', -, hnode⟩ := hl.statement index edge hindex
    obtain rfl := Option.some.inj (ht.symm.trans (hs ▸ ht'))
    have hf := hfollows index edge hindex hs
    have hsettled := h.settled edge
      ((hdone edge).2 (IncludeGraph.mem_includesOf.2 ⟨index, hindex, hs⟩))
    by_cases hcut : edge ∈ edges
    · obtain ⟨path', span', hfile, herror⟩ := hm.cut edge.node ⟨edge, hcut, hs, rfl⟩
      rw [hnode] at hfile
      cases hfile
      cases hsettled with
      | left hb hp =>
        cases herror.symm.trans hb
        exact .leave hindex hs hn ht (hn ▸ hnode) (fun hf' => (hf.1 hf').1 hcut) (hn ▸ hp)
      | missing hb => cases herror.symm.trans hb
      | placed hb => cases herror.symm.trans hb
    · have hbase : base.node? edge.node = some ⟨.includeFile path [], edge.span⟩ := by
        rw [hm.same, hnode]
        rintro ⟨other, ho, hs', hn'⟩
        obtain ⟨index', hindex'⟩ := hedges other ho
        obtain rfl := hl.distinct _ _ _ _ hindex' hindex (hs'.trans hs.symm) hn'
        exact hcut (Option.some.inj (hindex'.symm.trans hindex) ▸ ho)
      cases hsettled with
      | left hb => cases hbase.symm.trans hb
      | missing hb hlookup hp =>
        cases hbase.symm.trans hb
        refine .leave hindex hs hn ht (hn ▸ hnode) (fun hf' => ?_) (hn ▸ hp)
        obtain ⟨part', hpart⟩ := (hf.1 hf').2
        cases hlookup.symm.trans hpart
      | @placed _ _ inside offset hb hlookup ho hp hh =>
        cases hbase.symm.trans hb
        obtain ⟨target, htarget, hinside⟩ := hmerged _ _ hlookup
        rw [hinside.items_eq] at hp
        refine .follow _ hindex hs hn ht (hn ▸ hnode) (hf.2 ⟨hcut, inside, hlookup⟩) htarget
          (hn ▸ hp) fun item hi => ?_
        have hlt := (hl.grounded _ _ htarget).item_lt hi
        have hlast := (hl.grounded _ _ htarget).last
        refine (hinside.expands item (by omega)).copied hinside.rooted (fun heq => ?_) hh
        rw [heq, hinside.root] at hlt
        omega
  · have hno : ∀ index edge, program.graph.edge? index = some edge → edge.includer = source →
        edge.node ≠ id := fun index edge hi hs hn => he ⟨index, edge, hi, hs, hn⟩
    obtain ⟨node, hnode⟩ : ∃ node, tree.node? id = some node :=
      ⟨_, Array.getElem?_eq_getElem hid⟩
    refine .copy (fun child => child) ht hnode hno ?_ fun child hc => ?_
    · rw [hplain id hid hno, hnode, NodeKind.map_id]
    · have hlt := hground.below id node hnode child hc
      exact ih child.index (by omega) child (by omega) rfl

/-- The trees that are merged are the expansions of the sources before a place in the order. -/
structure MergedTo (program : Program) (follows : Nat → Prop) (front : List SourceId)
    (merged : Merged) : Prop where
  done : ∀ file ∈ front, ∃ part, merged.lookup file = some part
  ahead : ∀ file, file ∉ front → merged.lookup file = none
  expanded : ∀ file part, merged.lookup file = some part →
    ∃ tree, program.tree? file = some tree ∧ Expanded program follows file tree part

theorem lookup_cons (merged : Merged) (source file : SourceId) (tree : Tree) :
    List.lookup file ((source, tree) :: merged) =
      if file = source then some tree else merged.lookup file := by
  by_cases h : file = source
  · simp [h]
  · have hne : (file == source) = false := by simpa using h
    rw [List.lookup_cons, hne, if_neg h]

/-- The include statements that are followed where they are not cut and lead to a source that is
merged before their own. -/
def Placed (program : Program) (entry : SourceId) (index : Nat) : Prop :=
  index ∉ program.graph.backEdges entry ∧
    ∃ edge, program.graph.edge? index = some edge ∧
      IncludeGraph.Precedes (program.graph.mergeOrder entry []) edge.included edge.includer

/-- The trees of a program in which the include statements that close a cycle are cut. -/
structure CutCycles (program : Program) (entry : SourceId) (edges : List Inclusion)
    (after : Program) : Prop where
  loaded : program.Loaded entry
  cut : CutAt program edges after
  edges : ∀ edge, edge ∈ edges ↔
    ∃ index ∈ program.graph.backEdges entry, program.graph.edge? index = some edge

/-- Merging a source at its place in the order. -/
theorem MergedTo.mergeSource {front back : List SourceId}
    (hc : CutCycles program entry edges after)
    (ho : program.graph.mergeOrder entry [] = front ++ source :: back)
    (h : MergedTo program (program.Placed entry) front merged) :
    ∃ merged', after.mergeSource merged source = .ok merged' ∧
      MergedTo program (program.Placed entry) (front ++ [source]) merged' := by
  have hl := hc.loaded
  have hnodup := program.graph.nodup_mergeOrder entry []
  have hfile : source ∈ program.graph.files :=
    IncludeGraph.mem_files_of_mem_mergeOrder hl.closed
      (ho ▸ List.mem_append_right _ List.mem_cons_self)
  obtain ⟨tree, ht⟩ := hl.tree source hfile
  obtain ⟨base, hbase, hm⟩ := hc.cut.tree source tree ht
  have hedges : ∀ edge ∈ edges, ∃ index, program.graph.edge? index = some edge := fun edge he => by
    obtain ⟨index, -, hindex⟩ := (hc.edges edge).1 he
    exact ⟨index, hindex⟩
  have hground := (hl.grounded source tree ht).marks hm
  have hlast := hground.last
  have hstart : Filled merged base [] base :=
    { root := rfl
      size := Nat.le_refl _
      rooted := fun id node hn child hchild heq => by
        have hlt := hground.below id node hn child hchild
        have := Tree.index_lt_of_node? hn
        rw [heq] at hlt
        omega
      same := fun _ _ _ => rfl
      settled := fun _ he => nomatch he }
  obtain ⟨part, done, hfold, hfilled, hdone⟩ := hstart.graftAll
    (fun file part hpart => by
      obtain ⟨_, -, hexpanded⟩ := h.expanded file part hpart
      exact hexpanded.rooted)
    (by omega)
    (fun _ hd => nomatch hd) (hl.includesOf_pairwise source) fun edge he => by
      obtain ⟨index, hindex, hs⟩ := IncludeGraph.mem_includesOf.1 he
      obtain ⟨tree', path, ht', -, hnode⟩ := hl.statement index edge hindex
      obtain rfl := Option.some.inj (ht.symm.trans (hs ▸ ht'))
      by_cases hcut : IsNode edges source edge.node
      · obtain ⟨path', span', -, herror⟩ := hm.cut _ hcut
        exact ⟨path', span', .inl herror⟩
      · exact ⟨path, edge.span, .inr ((hm.same _ hcut).trans hnode)⟩
  have hexpanded : Expanded program (program.Placed entry) source tree part := by
    refine hfilled.expanded hl hedges ht hm (fun edge => by simp [hdone]) h.expanded
      fun index edge hindex hs => ?_
    have hcut : edge ∈ edges ↔ index ∈ program.graph.backEdges entry := by
      rw [hc.edges]
      constructor
      · rintro ⟨index', hback, hindex'⟩
        obtain rfl := hl.distinct _ _ _ _ hindex' hindex rfl rfl
        exact hback
      · exact fun hback => ⟨index, hback, hindex⟩
    have hplace : (∃ part, merged.lookup edge.included = some part) ↔
        IncludeGraph.Precedes (program.graph.mergeOrder entry []) edge.included edge.includer := by
      rw [hs, IncludeGraph.precedes_iff hnodup ho]
      constructor
      · rintro ⟨part, hpart⟩
        refine Classical.byContradiction fun hnot => ?_
        cases (h.ahead _ hnot).symm.trans hpart
      · exact h.done _
    rw [hcut, hplace, Placed]
    simp [hindex]
  refine ⟨(source, part) :: merged, ?_, fun file hfile => ?_, fun file hfile => ?_,
    fun file part' hpart => ?_⟩
  · rw [Program.mergeSource, hbase, hc.cut.graph]
    simp [hfold, bind, Except.bind, pure, Except.pure]
  · rw [lookup_cons]
    split
    · exact ⟨part, rfl⟩
    · next hne => exact h.done file ((List.mem_append.1 hfile).resolve_right (by simpa using hne))
  · rw [lookup_cons, if_neg fun heq => hfile (by simp [heq])]
    exact h.ahead file fun hf => hfile (List.mem_append_left _ hf)
  · rw [lookup_cons] at hpart
    split at hpart
    · next heq =>
      obtain rfl := Option.some.inj hpart
      exact ⟨tree, heq ▸ ht, heq ▸ hexpanded⟩
    · exact h.expanded file part' hpart

/-- Merging the sources of the rest of the order. -/
theorem MergedTo.mergeAll {front back : List SourceId} (hc : CutCycles program entry edges after)
    (ho : program.graph.mergeOrder entry [] = front ++ back)
    (h : MergedTo program (program.Placed entry) front merged) :
    ∃ merged', back.foldlM after.mergeSource merged = .ok merged' ∧
      MergedTo program (program.Placed entry) (front ++ back) merged' := by
  induction back generalizing front merged with
  | nil => exact ⟨merged, rfl, (List.append_nil front).symm ▸ h⟩
  | cons source back ih =>
    obtain ⟨middle, hsource, hmiddle⟩ := h.mergeSource hc ho
    obtain ⟨merged', hfold, hmerged⟩ := ih (by simpa using ho) hmiddle
    refine ⟨merged', ?_, by simpa using hmerged⟩
    rw [List.foldlM_cons, hsource]
    exact hfold

/-- The merged tree of the entry is its expansion, with the include statements followed that are
placed. -/
theorem merge_expanded (hc : CutCycles program entry edges after) :
    ∃ tree part, program.tree? entry = some tree ∧ after.merge? entry = .ok (some part) ∧
      Expanded program (program.Placed entry) entry tree part := by
  have hstart : MergedTo program (program.Placed entry) [] [] :=
    { done := fun _ hf => nomatch hf
      ahead := fun _ _ => rfl
      expanded := fun _ _ hp => nomatch hp }
  obtain ⟨merged, hfold, hmerged⟩ := hstart.mergeAll hc (List.nil_append _).symm
  obtain ⟨part, hpart⟩ := hmerged.done entry
    (IncludeGraph.mem_mergeOrder hc.loaded.closed hc.loaded.entry)
  obtain ⟨tree, ht, hexpanded⟩ := hmerged.expanded entry part hpart
  refine ⟨tree, part, ht, ?_, hexpanded⟩
  rw [merge?, hc.cut.graph]
  simp [hfold, hpart, bind, Except.bind, pure, Except.pure]

end

end OpenQasm.Program
