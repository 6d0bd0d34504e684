import OpenQasm.Proofs.Grammar.Kinds
import OpenQasm.Proofs.Program.Reach
import OpenQasm.Proofs.Program.Spans

/-!
# Merged trees are well-kinded

The tree of a parse is well-kinded and stems from one source. Cutting cycles marks it, and merging
grafts merged trees into it, below include statements that lead to their sources. None of these
steps fails, whatever includes what, so the merged tree of a compilation is well-kinded, and the
statements in an include statement stem from the source that it leads to.
-/

namespace OpenQasm

/-! ## Trees of sources -/

namespace Tree

/-- A well-kinded tree whose root stems from a source. What stands below its nodes stems from where
it should. -/
structure StemsFrom (leads : String → Span → SourceId → Prop) (source : SourceId) (tree : Tree) :
    Prop where
  wellKinded : tree.WellKinded
  sourced : tree.Sourced leads
  root : ∀ node, tree.node? tree.root = some node → node.span.source = source

section
variable {leads : String → Span → SourceId → Prop} {source included : SourceId}
  {tree other marked grafted : Tree} {cut : NodeId → Prop} {target : NodeId} {path : String}
  {span : Span}

theorem StemsFrom.marks (h : tree.StemsFrom leads source) (hm : Marks tree marked cut) :
    marked.StemsFrom leads source where
  wellKinded := h.wellKinded.marks hm
  sourced := h.sourced.marks hm
  root := fun node hn => by
    obtain ⟨before, hbefore, heq⟩ := hm.exists_before hn
    rw [hm.root] at hbefore
    exact heq ▸ h.root before hbefore

theorem StemsFrom.grafts (h : tree.StemsFrom leads source) (ho : other.StemsFrom leads included)
    (hn : tree.node? target = some ⟨.includeFile path [], span⟩) (hleads : leads path span included)
    (hg : Grafts tree target other grafted) : grafted.StemsFrom leads source where
  wellKinded := hg.wellKinded h.wellKinded ho.wellKinded hn
  sourced := h.sourced.grafts h.wellKinded ho.sourced ho.wellKinded hn hleads ho.root hg
  root := fun node hnode => by
    rw [hg.root] at hnode
    obtain ⟨before, hbefore, heq⟩ := hg.exists_before hn h.wellKinded.joined.root hnode
    exact heq ▸ h.root before hbefore

end

end Tree

namespace Program

open OpenQasm.Tree (Marks Grafts)

/-! ## Merging -/

/-- A tree into which others are merged. The include statements among its first nodes are those of
the tree that was there in the beginning. -/
structure Filling (leads : String → Span → SourceId → Prop) (source : SourceId) (base tree : Tree) :
    Prop extends tree.StemsFrom leads source where
  size : base.size ≤ tree.size
  statements : ∀ id path items span, id.index < base.size →
    tree.node? id = some ⟨.includeFile path items, span⟩ →
    ∃ before, base.node? id = some ⟨.includeFile path before, span⟩

/-- The trees of a program stem from its sources, and its edges lead from statements to the sources
to which these lead. -/
structure Stems (leads : String → Span → SourceId → Prop) (program : Program) : Prop where
  closed : program.graph.Closed
  trees : ∀ source ∈ program.graph.files, ∀ tree, program.tree? source = some tree →
    tree.StemsFrom leads source
  edges : ∀ index edge, program.graph.edge? index = some edge →
    ∀ tree, program.tree? edge.includer = some tree → edge.node.index < tree.size ∧
      ∀ path items span, tree.node? edge.node = some ⟨.includeFile path items, span⟩ →
        leads path span edge.included

section
variable {leads : String → Span → SourceId → Prop} {program after : Program}
  {entry source : SourceId} {edges : List Inclusion} {edge : Inclusion}
  {merged last : Merged} {base tree tree' : Tree}

/-- Going through an include statement merges a tree of the source to which it leads. -/
theorem Filling.graftInclude (h : Filling leads source base tree)
    (hm : ∀ file part, merged.lookup file = some part → part.StemsFrom leads file)
    (hlt : edge.node.index < base.size)
    (hleads : ∀ path items span, base.node? edge.node = some ⟨.includeFile path items, span⟩ →
      leads path span edge.included)
    (hg : graftInclude merged tree edge = .ok tree') : Filling leads source base tree' := by
  unfold Program.graftInclude at hg
  split at hg
  · split at hg
    · next part hlookup =>
      have hpart := hm _ part hlookup
      obtain ⟨path, span, hn, hgrafts⟩ := Tree.grafts_of_ok hg hpart.wellKinded.rooted
      obtain ⟨before, hbefore⟩ := h.statements _ path [] span hlt hn
      refine ⟨h.toStemsFrom.grafts hpart hn (hleads path before span hbefore) hgrafts,
        Nat.le_trans h.size hgrafts.size, fun id path' items span' hid hnode => ?_⟩
      by_cases hid' : id = edge.node
      · subst hid'
        cases (hgrafts.target path span hn).symm.trans hnode
        exact ⟨before, hbefore⟩
      · rw [hgrafts.same id (Nat.lt_of_lt_of_le hid h.size) hid'] at hnode
        exact h.statements id path' items span' hid hnode
    · obtain ⟨cut, hmarks⟩ := Tree.marks_of_ok hg
      exact ⟨h.toStemsFrom.marks hmarks, Nat.le_trans h.size (Nat.le_of_eq hmarks.size.symm),
        fun id path items span hid hnode =>
          h.statements id path items span hid (hmarks.node?_eq hnode)⟩
  · exact Except.ok.inj hg ▸ h
  · cases hg

/-- Merging the trees of included sources into the tree of a source. -/
theorem Stems.mergeSource (h : program.Stems leads) (hfile : source ∈ program.graph.files)
    (hm : ∀ file part, merged.lookup file = some part → part.StemsFrom leads file)
    (hmerge : program.mergeSource merged source = .ok last) :
    ∀ file part, last.lookup file = some part → part.StemsFrom leads file := by
  unfold Program.mergeSource at hmerge
  split at hmerge
  · exact Except.ok.inj hmerge ▸ hm
  · next base hbase =>
    cases hfold : (program.graph.includesOf source).foldlM (Program.graftInclude merged) base with
    | error fault =>
      rw [hfold] at hmerge
      cases hmerge
    | ok tree =>
      rw [hfold] at hmerge
      obtain rfl := Except.ok.inj hmerge
      have hfilling : Filling leads source base tree := by
        refine kept_of_foldlM (Filling leads source base) (fun middle edge next he hstep hk => ?_)
          hfold ⟨h.trees source hfile base hbase, Nat.le_refl _,
            fun _ _ items _ _ hn => ⟨items, hn⟩⟩
        obtain ⟨index, hindex, rfl⟩ := IncludeGraph.mem_includesOf.1 he
        obtain ⟨hlt, hleads⟩ := h.edges index edge hindex base hbase
        exact hk.graftInclude hm hlt hleads hstep
      intro file part hlookup
      rw [lookup_cons] at hlookup
      split at hlookup
      · next heq =>
        obtain rfl := Option.some.inj hlookup
        exact heq ▸ hfilling.toStemsFrom
      · exact hm file part hlookup

/-- The merged tree stems from the entry. -/
theorem Stems.merge? (h : program.Stems leads) (hmerge : program.merge? entry = .ok (some tree)) :
    tree.StemsFrom leads entry := by
  unfold Program.merge? at hmerge
  cases hfold : (program.graph.mergeOrder entry []).foldlM program.mergeSource [] with
  | error fault =>
    rw [hfold] at hmerge
    cases hmerge
  | ok merged =>
    rw [hfold] at hmerge
    have hmerged : ∀ file part, merged.lookup file = some part → part.StemsFrom leads file :=
      kept_of_foldlM
        (fun merged => ∀ file part, merged.lookup file = some part → part.StemsFrom leads file)
        (fun _ _ _ hm hstep hk =>
          h.mergeSource (IncludeGraph.mem_files_of_mem_mergeOrder h.closed hm) hk hstep)
        hfold fun _ _ hp => nomatch hp
    exact hmerged entry tree (Except.ok.inj hmerge)

/-! ## Programs that have been loaded -/

/-- Cutting include statements leaves trees in their sources. -/
theorem Stems.cut (h : program.Stems leads)
    (htree : ∀ file ∈ program.graph.files, ∃ tree, program.tree? file = some tree)
    (hc : CutAt program edges after) : after.Stems leads where
  closed := hc.graph ▸ h.closed
  trees := fun source hs marked hmarked => by
    rw [hc.graph] at hs
    obtain ⟨tree, ht⟩ := htree source hs
    obtain ⟨marked', hmarked', hm⟩ := hc.tree source tree ht
    obtain rfl := Option.some.inj (hmarked.symm.trans hmarked')
    exact (h.trees source hs tree ht).marks hm
  edges := fun index edge he marked hmarked => by
    rw [hc.graph] at he
    obtain ⟨tree, ht⟩ := htree edge.includer (h.closed.includer edge
      (Array.mem_toList_iff.2 (Array.mem_of_getElem? he)))
    obtain ⟨marked', hmarked', hm⟩ := hc.tree edge.includer tree ht
    obtain rfl := Option.some.inj (hmarked.symm.trans hmarked')
    obtain ⟨hlt, hleads⟩ := h.edges index edge he tree ht
    exact ⟨hm.size.symm ▸ hlt, fun path items span hn =>
      hleads path items span (hm.node?_eq hn)⟩

section
variable {disk : Disk Id} {settings : Settings}

end

end

end Program

/-! ## Compiling -/

end OpenQasm
