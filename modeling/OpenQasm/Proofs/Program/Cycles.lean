import OpenQasm.Program.Cycles
import OpenQasm.Proofs.Program.Expansion

/-!
# Cutting cycles

Cutting include statements marks their nodes and reports each of them. Nothing else changes.
-/

namespace OpenQasm.Program

open OpenQasm.Tree (Marks)

/-- A node of a source that is one of some include statements. -/
def IsNode (edges : List Inclusion) (source : SourceId) (id : NodeId) : Prop :=
  ∃ edge ∈ edges, edge.includer = source ∧ edge.node = id

/-- What becomes of a program when include statements are cut. -/
structure CutAt (program : Program) (edges : List Inclusion) (after : Program) : Prop where
  graph : after.graph = program.graph
  sources : after.sources = program.sources
  tree : ∀ source tree, program.tree? source = some tree →
    ∃ marked, after.tree? source = some marked ∧ Marks tree marked (IsNode edges source)
  kept : ∀ diagnostic ∈ program.diagnostics.items, diagnostic ∈ after.diagnostics.items
  reported : ∀ edge ∈ edges, ∃ diagnostic ∈ after.diagnostics.items,
    diagnostic.code = .includeCycle ∧ diagnostic.span = edge.span
  origin : ∀ diagnostic ∈ after.diagnostics.items, diagnostic.code = .includeCycle →
    diagnostic ∈ program.diagnostics.items ∨ ∃ edge ∈ edges, diagnostic.span = edge.span
  missed : ∀ diagnostic ∈ after.diagnostics.items, diagnostic.code = .includeNotFound →
    diagnostic ∈ program.diagnostics.items

section
variable {program after : Program} {entry : SourceId} {edges : List Inclusion} {edge : Inclusion}

theorem CutAt.refl (program : Program) : CutAt program [] program where
  graph := rfl
  sources := rfl
  tree := fun _ tree ht => ⟨tree, ht, (Marks.refl tree).congr fun _ =>
    ⟨False.elim, fun ⟨_, hm, _⟩ => nomatch hm⟩⟩
  kept := fun _ hd => hd
  reported := fun _ he => nomatch he
  origin := fun _ hd _ => .inl hd
  missed := fun _ hd _ => hd

theorem tree?_setTree (program : Program) (id other : SourceId) (tree : Tree) :
    (program.setTree id tree).tree? other =
      if other = id then (program.tree? id).map fun _ => tree else program.tree? other := by
  unfold setTree tree?
  rw [Array.getElem?_setIfInBounds]
  by_cases h : other = id
  · subst h
    rw [if_pos rfl, if_pos rfl]
    split
    · next hlt => rw [Array.getElem?_eq_getElem hlt, Option.map_some]
    · next hle => rw [Array.getElem?_eq_none (Nat.le_of_not_lt hle), Option.map_none]
  · rw [if_neg h, if_neg fun heq => h (congrArg SourceId.mk heq.symm)]

/-- One include statement more can be cut. -/
theorem CutAt.cutInclude (hl : program.Loaded entry) (h : CutAt program edges after)
    (hedges : ∀ edge ∈ edges, ∃ index, program.graph.edge? index = some edge)
    (he : ∃ index, program.graph.edge? index = some edge) :
    ∃ after', after.cutInclude edge = .ok after' ∧ CutAt program (edge :: edges) after' := by
  obtain ⟨index, hindex⟩ := he
  obtain ⟨tree, path, ht, -, hn⟩ := hl.statement index edge hindex
  obtain ⟨marked, hmarked, hm⟩ := h.tree edge.includer tree ht
  obtain ⟨marked', hmark, hm'⟩ := hm.mark hn
  have hcons : ∀ source id, IsNode (edge :: edges) source id ↔
      IsNode edges source id ∨ (source = edge.includer ∧ id = edge.node) := by
    intro source id
    simp only [IsNode, List.mem_cons, or_and_right, exists_or, exists_eq_left]
    rw [or_comm]
    exact or_congr_right (and_congr eq_comm eq_comm)
  by_cases hcut : IsNode edges edge.includer edge.node
  · obtain ⟨path', span', -, herror⟩ := hm.cut _ hcut
    refine ⟨after, by simp [Program.cutInclude, hmarked, Tree.kind?, herror], ?_⟩
    refine { h with
      tree := fun source tree ht => ?_
      reported := fun other ho => ?_
      origin := fun diagnostic hd hcode => (h.origin diagnostic hd hcode).imp_right ?_ }
    · obtain ⟨marked, hmarked, hm⟩ := h.tree source tree ht
      refine ⟨marked, hmarked, hm.congr fun id => ?_⟩
      rw [hcons]
      exact ⟨.inl, fun hid => hid.elim (fun hid => hid) fun heq => heq.1 ▸ heq.2 ▸ hcut⟩
    · rcases List.mem_cons.1 ho with rfl | ho
      · -- The statement has been cut before, by the same edge.
        obtain ⟨first, hfirst, hs, hi⟩ := hcut
        obtain ⟨index', hindex'⟩ := hedges first hfirst
        obtain rfl := hl.distinct _ _ _ _ hindex' hindex hs hi
        obtain rfl := Option.some.inj (hindex'.symm.trans hindex)
        exact h.reported _ hfirst
      · exact h.reported other ho
    · rintro ⟨other, ho, hspan⟩
      exact ⟨other, List.mem_cons_of_mem _ ho, hspan⟩
  · have hnode : marked.node? edge.node = some ⟨.includeFile path [], edge.span⟩ := by
      rw [hm.same _ hcut, hn]
    refine ⟨(after.report (cyclic path edge.span)).setTree edge.includer marked', ?_, ?_⟩
    · simp [Program.cutInclude, hmarked, Tree.kind?, hnode, hmark, bind, Except.bind, pure,
        Except.pure]
    · refine ⟨h.graph, h.sources, fun source tree' ht' => ?_, fun diagnostic hd => ?_,
        fun other ho => ?_, fun diagnostic hd hcode => ?_, fun diagnostic hd hcode => ?_⟩
      · rw [tree?_setTree]
        by_cases hs : source = edge.includer
        · subst hs
          obtain rfl := Option.some.inj (ht.symm.trans ht')
          refine ⟨marked', ?_, hm'.congr fun id => ?_⟩
          · rw [if_pos rfl]
            exact congrArg (Option.map fun _ => marked') hmarked
          · rw [hcons]
            exact or_congr_right ⟨fun hid => ⟨rfl, hid⟩, And.right⟩
        · obtain ⟨marked, hmarked, hm⟩ := h.tree source tree' ht'
          refine ⟨marked, by rw [if_neg hs]; exact hmarked, hm.congr fun id => ?_⟩
          rw [hcons]
          exact ⟨.inl, fun hid => hid.resolve_right fun heq => hs heq.1⟩
      · exact List.mem_append_left _ (h.kept diagnostic hd)
      · rcases List.mem_cons.1 ho with rfl | ho
        · exact ⟨cyclic path other.span, List.mem_append_right _ List.mem_cons_self, rfl, rfl⟩
        · obtain ⟨diagnostic, hd, hcode, hspan⟩ := h.reported other ho
          exact ⟨diagnostic, List.mem_append_left _ hd, hcode, hspan⟩
      · rcases List.mem_append.1 hd with hd | hd
        · refine (h.origin diagnostic hd hcode).imp_right ?_
          rintro ⟨other, ho, hspan⟩
          exact ⟨other, List.mem_cons_of_mem _ ho, hspan⟩
        · exact .inr ⟨edge, List.mem_cons_self, List.mem_singleton.1 hd ▸ rfl⟩
      · refine (List.mem_append.1 hd).elim (fun hd => h.missed diagnostic hd hcode) fun hd => ?_
        rw [List.mem_singleton.1 hd] at hcode
        cases hcode

/-- Include statements can be cut one after the other. -/
theorem CutAt.cutAll (hl : program.Loaded entry) {more : List Inclusion}
    (h : CutAt program edges after)
    (hedges : ∀ edge ∈ edges, ∃ index, program.graph.edge? index = some edge)
    (hmore : ∀ edge ∈ more, ∃ index, program.graph.edge? index = some edge) :
    ∃ after' edges', more.foldlM Program.cutInclude after = .ok after' ∧
      CutAt program edges' after' ∧ ∀ edge, edge ∈ edges' ↔ edge ∈ edges ∨ edge ∈ more := by
  induction more generalizing after edges with
  | nil => exact ⟨after, edges, rfl, h, by simp⟩
  | cons edge more ih =>
    have hedge := hmore edge List.mem_cons_self
    obtain ⟨middle, hcut, hmiddle⟩ := h.cutInclude hl hedges hedge
    obtain ⟨after', edges', hfold, hafter, hmem⟩ := ih hmiddle
      (fun other ho => by
        rcases List.mem_cons.1 ho with rfl | ho
        · exact hedge
        · exact hedges other ho)
      fun other ho => hmore other (List.mem_cons_of_mem _ ho)
    refine ⟨after', edges', ?_, hafter, fun other => ?_⟩
    · rw [List.foldlM_cons, hcut]
      exact hfold
    · rw [hmem, List.mem_cons, List.mem_cons, or_assoc, or_left_comm]

/-- The include statements that close a cycle are cut, and no others. -/
theorem cutCycles_ok (hl : program.Loaded entry) :
    ∃ after edges, program.cutCycles entry = .ok after ∧ CutAt program edges after ∧
      ∀ edge, edge ∈ edges ↔
        ∃ index ∈ program.graph.backEdges entry, program.graph.edge? index = some edge := by
  have hindexed : ∀ edge ∈ (program.graph.backEdges entry).filterMap program.graph.edge?,
      ∃ index, program.graph.edge? index = some edge := fun edge he => by
    obtain ⟨index, -, hindex⟩ := List.mem_filterMap.1 he
    exact ⟨index, hindex⟩
  obtain ⟨after, edges, hfold, hcut, hmem⟩ :=
    (CutAt.refl program).cutAll hl (fun _ ho => nomatch ho) hindexed
  refine ⟨after, edges, hfold, hcut, fun edge => ?_⟩
  rw [hmem, List.mem_filterMap]
  simp

end

end OpenQasm.Program
