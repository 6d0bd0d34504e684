import OpenQasm.Grammar.Parser
import OpenQasm.Proofs.Grammar.Row
import OpenQasm.Proofs.Tree.Lines

/-!
# Forests in a builder

What a parser pushes is a forest: its trees stand one after the other, in each tree the children
before their parent, and only the roots have no parent yet. The definition follows the two ways to
a larger forest, putting one after another and placing a node over all roots, so that everything
that holds of the nodes pushed is proved along these two ways.
-/

namespace OpenQasm

/-- Kinds that a statement or a part of one may have. The includes among them are empty, and the
texts that an outline shows as they are stand on one line. -/
def NodeKind.isFresh {ι : Type} : NodeKind ι → Bool
  | program _ | includeError _ | includeFile _ (_ :: _) => false
  | kind => kind.isOneLine

/-- An identifier is fresh if it is one line. -/
theorem NodeKind.isFresh_identifier {ι : Type} {name : List Char} (h : '\n' ∉ name) :
    (identifier (String.ofList name) : NodeKind ι).isFresh :=
  decide_eq_true (Text.oneLine_ofList.2 h)

/-- Enter a parent for all that have none. -/
def adopted (parent : NodeId) (parents : List (Option NodeId)) : List (Option NodeId) :=
  parents.map (·.or (some parent))

namespace Grammar

/-- Nodes from the index `first` on, with their parents, and the roots among them, which have no
parent yet. -/
inductive Forest (source : SourceId) :
    Nat → List Node → List (Option NodeId) → List Placed → Prop
  | nil (first : Nat) : Forest source first [] [] []
  | append {first : Nat} {nodes more : List Node} {parents parents' : List (Option NodeId)}
      {roots roots' : List Placed} :
      Forest source first nodes parents roots →
      Forest source (first + nodes.length) more parents' roots' →
      Forest source first (nodes ++ more) (parents ++ parents') (roots ++ roots')
  | node {first : Nat} {nodes : List Node} {parents : List (Option NodeId)}
      (kind : NodeKind Placed) (span : Span) :
      Forest source first nodes parents kind.children →
      (∀ place ∈ kind.slots, place.1.accepts place.2.kind) →
      kind.isFresh → span.source = source → span.start ≤ span.stop →
      Span.InRow source span.start span.stop (kind.children.map Placed.span) →
      Forest source first (nodes ++ [⟨kind.map Placed.id, span⟩])
        (adopted ⟨first + nodes.length⟩ parents ++ [none])
        [⟨⟨first + nodes.length⟩, kind.map Placed.id, span⟩]

section
variable {source : SourceId} {first : Nat} {nodes more : List Node}
  {parents parents' : List (Option NodeId)} {roots : List Placed}

/-- Adoption changes parents and adds none. -/
theorem length_adopted (parent : NodeId) : (adopted parent parents).length = parents.length := by
  simp [adopted]

/-- Every node has an entry in the table of parents. -/
theorem Forest.length_parents (h : Forest source first nodes parents roots) :
    parents.length = nodes.length := by
  induction h with
  | nil => rfl
  | append _ _ ih ih' => simp [ih, ih']
  | node _ _ _ _ _ _ _ _ ih => simp [length_adopted, ih]

/-- The roots stand among the nodes. -/
theorem Forest.root_mem (h : Forest source first nodes parents roots) {root : Placed}
    (hr : root ∈ roots) :
    first ≤ root.id.index ∧ nodes[root.id.index - first]? = some ⟨root.kind, root.span⟩ := by
  induction h with
  | nil => cases hr
  | @append first nodes more _ _ _ _ _ _ ih ih' =>
    rcases List.mem_append.1 hr with hr | hr
    · obtain ⟨h1, h2⟩ := ih hr
      exact ⟨h1, List.getElem?_append_left (List.getElem?_eq_some_iff.1 h2).1 ▸ h2⟩
    · obtain ⟨h1, h2⟩ := ih' hr
      refine ⟨by omega, ?_⟩
      rw [List.getElem?_append_right (by omega), ← h2]
      congr 1
      omega
  | node kind span =>
    obtain rfl := List.mem_singleton.1 hr
    simp

/-- The children of every node of a forest are nodes of it. -/
theorem Forest.first_le_child (h : Forest source first nodes parents roots) {node : Node}
    (hn : node ∈ nodes) : ∀ child ∈ node.kind.children, first ≤ child.index := by
  induction h with
  | nil => cases hn
  | append _ _ ih ih' =>
    rcases List.mem_append.1 hn with hn | hn
    · exact ih hn
    · intro child hc
      have := ih' hn child hc
      omega
  | node kind span h _ _ _ _ _ ih =>
    rcases List.mem_append.1 hn with hn | hn
    · exact ih hn
    · obtain rfl := List.mem_singleton.1 hn
      intro child hc
      rw [NodeKind.children_map, List.mem_map] at hc
      obtain ⟨root, hr, rfl⟩ := hc
      exact (h.root_mem hr).1

/-- An empty list of roots has no nodes above it. -/
theorem Forest.eq_nil (h : Forest source first nodes parents []) : nodes = [] := by
  generalize hr : ([] : List Placed) = roots at h
  induction h with
  | nil => rfl
  | append _ _ ih ih' =>
    obtain ⟨rfl, rfl⟩ := List.append_eq_nil_iff.1 hr.symm
    rw [ih rfl, ih' rfl]
    rfl
  | node => cases hr

/-! ## Adoption -/

/-- Children are adopted one after the other. -/
theorem adopt_append (tag : String) (parent : NodeId) (children others : List NodeId)
    (table : Array (Option NodeId)) :
    Builder.adopt tag parent (children ++ others) table =
      (Builder.adopt tag parent children table).bind (Builder.adopt tag parent others) := by
  induction children generalizing table with
  | nil => rfl
  | cons child children ih =>
    rw [List.cons_append, Builder.adopt, Builder.adopt]
    split
    · rfl
    · rfl
    · exact ih _

/-- One node without a parent can be adopted. -/
theorem adopt_singleton (tag : String) (parent : NodeId) {left : List (Option NodeId)}
    (right : List (Option NodeId)) {index : Nat} (hl : left.length = index) :
    Builder.adopt tag parent [⟨index⟩] (left ++ none :: right).toArray =
      .ok (left ++ some parent :: right).toArray := by
  subst hl
  simp [Builder.adopt]

/-- Adoption goes part by part. -/
theorem adopted_append (parent : NodeId) :
    adopted parent (parents ++ parents') = adopted parent parents ++ adopted parent parents' :=
  List.map_append

/-- A table in which every node has a parent stays as it is. -/
theorem adopted_adopted (parent parent' : NodeId) :
    adopted parent' (adopted parent parents) = adopted parent parents := by
  simp [adopted, Function.comp_def]

/-- The roots of a forest can be adopted, and then no node of it is without a parent. -/
theorem Forest.adopt (h : Forest source first nodes parents roots) (tag : String)
    (parent : NodeId) (front : List (Option NodeId)) (hf : front.length = first)
    (back : List (Option NodeId)) :
    Builder.adopt tag parent (roots.map Placed.id) (front ++ (parents ++ back)).toArray =
      .ok (front ++ (adopted parent parents ++ back)).toArray := by
  induction h generalizing front back with
  | nil => rfl
  | @append first nodes more parents parents' roots roots' h h' ih ih' =>
    rw [List.map_append, adopt_append, List.append_assoc, ih _ hf]
    have := ih' (front ++ adopted parent parents)
      (by rw [List.length_append, length_adopted, h.length_parents, hf]) back
    simpa [Except.bind, adopted] using this
  | @node first nodes parents kind span h _ _ _ _ _ ih =>
    have hl : (front ++ adopted ⟨first + nodes.length⟩ parents).length = first + nodes.length := by
      rw [List.length_append, length_adopted, h.length_parents, hf]
    have := adopt_singleton tag parent back hl
    have hn : adopted parent [none] = [some parent] := rfl
    simpa [adopted_append, adopted_adopted, hn] using this

end

/-! ## Growth -/

/-- What becomes of a builder when a forest with the given roots is pushed. -/
def Grown (source : SourceId) (before : Builder) (roots : List Placed) (after : Builder) : Prop :=
  ∃ nodes parents, Forest source before.size nodes parents roots ∧
    after =
      { nodes := before.nodes ++ nodes.toArray
        parents := before.parents ++ parents.toArray
        comments := before.comments }

/-- Every node of a builder has an entry in its table of parents. -/
def Sized (builder : Builder) : Prop := builder.parents.size = builder.nodes.size

section
variable {source : SourceId} {before middle after : Builder} {roots roots' : List Placed}

/-- Nothing pushed, nothing grown. -/
theorem Grown.refl (source : SourceId) (builder : Builder) : Grown source builder [] builder :=
  ⟨[], [], .nil _, by simp⟩

/-- Two growths are one, with the roots of both. -/
theorem Grown.trans (h : Grown source before roots middle) (h' : Grown source middle roots' after) :
    Grown source before (roots ++ roots') after := by
  obtain ⟨nodes, parents, h1, rfl⟩ := h
  obtain ⟨nodes', parents', h2, rfl⟩ := h'
  refine ⟨nodes ++ nodes', parents ++ parents', .append h1 ?_, by simp⟩
  simpa [Builder.size] using h2

/-- A builder that grows keeps a parent for each node. -/
theorem Grown.sized (h : Grown source before roots after) (hb : Sized before) : Sized after := by
  obtain ⟨nodes, parents, h, rfl⟩ := h
  rw [Sized] at hb ⊢
  simp [h.length_parents, hb]

/-- A node can be pushed over all roots of a forest. -/
theorem Forest.push {kind : NodeKind Placed} {nodes : List Node} {parents : List (Option NodeId)}
    (h : Forest source before.size nodes parents kind.children) (hb : Sized before) (span : Span)
    (hfit : ∀ place ∈ kind.slots, place.1.accepts place.2.kind) :
    Builder.push
        { nodes := before.nodes ++ nodes.toArray
          parents := before.parents ++ parents.toArray
          comments := before.comments } (kind.map Placed.id) span =
      .ok (⟨before.size + nodes.length⟩,
        { nodes := before.nodes ++ (nodes ++ [Node.mk (kind.map Placed.id) span]).toArray
          parents := before.parents ++
            (adopted ⟨before.size + nodes.length⟩ parents ++ [none]).toArray
          comments := before.comments }) := by
  have hsize : (before.nodes ++ nodes.toArray).size = before.size + nodes.length := by
    simp [Builder.size]
  have hadopt := h.adopt (kind.map Placed.id).tag ⟨before.size + nodes.length⟩
    before.parents.toList (by simpa [Sized, Builder.size] using hb) []
  have hfits : Builder.fits
      { nodes := before.nodes ++ nodes.toArray
        parents := before.parents ++ parents.toArray
        comments := before.comments } (kind.map Placed.id) = true := by
    rw [Builder.fits, NodeKind.slots_map, List.all_map, List.all_eq_true]
    intro place hp
    have ⟨h1, h2⟩ := h.root_mem (show place.2 ∈ kind.children from List.mem_map_of_mem hp)
    have h3 : (before.nodes ++ nodes.toArray)[place.2.id.index]? =
        some ⟨place.2.kind, place.2.span⟩ := by
      rw [Array.getElem?_append_right h1, List.getElem?_toArray]
      exact h2
    simp [Builder.node?, h3, hfit place hp]
  have hparents : before.parents ++ parents.toArray =
      (before.parents.toList ++ (parents ++ [])).toArray := by simp
  simp only [Builder.push, NodeKind.children_map, hfits, Builder.size, hsize] at hadopt ⊢
  rw [hparents, hadopt]
  simp [bind, Except.bind, pure, Except.pure]

/-- A node over all roots is the root of a larger forest. -/
theorem Grown.push (kind : NodeKind Placed) (span : Span) (hb : Sized before)
    (h : Grown source before kind.children after)
    (hfit : ∀ place ∈ kind.slots, place.1.accepts place.2.kind) (hfresh : kind.isFresh)
    (hs : span.source = source) (hle : span.start ≤ span.stop)
    (hrow : Span.InRow source span.start span.stop (kind.children.map Placed.span)) :
    ∃ pushed, after.push (kind.map Placed.id) span = .ok (⟨after.size⟩, pushed) ∧
      Grown source before [⟨⟨after.size⟩, kind.map Placed.id, span⟩] pushed := by
  obtain ⟨nodes, parents, h, rfl⟩ := h
  have hsize : Builder.size
      { nodes := before.nodes ++ nodes.toArray
        parents := before.parents ++ parents.toArray
        comments := before.comments } = before.size + nodes.length := by simp [Builder.size]
  rw [hsize]
  exact ⟨_, h.push hb span hfit, _, _, .node kind span h hfit hfresh hs hle hrow, rfl⟩

/-- Dropping what was pushed leaves the builder of before. -/
theorem Grown.truncate (hb : Sized before) (h : Grown source before roots after) :
    after.truncate before.size = before := by
  obtain ⟨nodes, parents, h, rfl⟩ := h
  have hreleased : (nodes.flatMap fun node =>
      node.kind.children.filter (·.index < before.size)) = [] := by
    rw [List.flatMap_eq_nil_iff]
    intro node hn
    rw [List.filter_eq_nil_iff]
    intro child hc
    have := h.first_le_child hn child hc
    simp only [decide_eq_true_eq]
    omega
  have hdropped : (before.nodes ++ nodes.toArray).toList.drop before.size = nodes := by
    rw [Array.toList_append, Builder.size, ← Array.length_toList, List.drop_left]
  have hnodes : (before.nodes ++ nodes.toArray).take before.size = before.nodes := by
    simp [Builder.size]
  have hparents : (before.parents ++ parents.toArray).take before.size = before.parents := by
    rw [Builder.size, ← show before.parents.size = before.nodes.size from hb]
    simp
  simp only [Builder.truncate, hdropped, hreleased, List.foldl_nil, hnodes, hparents]

/-- A change behind the first part changes the second one. -/
theorem modify_append_right {α : Type} (f : α → α) (left right : List α) (i : Nat) :
    (left ++ right).modify (left.length + i) f = left ++ right.modify i f := by
  induction left with
  | nil => simp
  | cons a left ih =>
    rw [List.length_cons, Nat.add_right_comm, List.cons_append, List.modify_succ_cons, ih,
      List.cons_append]

/-- The last root of a forest may become another literal if it is one. -/
theorem Forest.setLiteral {first : Nat} {nodes : List Node} {parents : List (Option NodeId)}
    {root : Placed} {value : Literal} (value' : Literal)
    (h : Forest source first nodes parents (roots ++ [root])) (hk : root.kind = .literal value) :
    Forest source first
      (nodes.modify (root.id.index - first) fun node => { node with kind := .literal value' })
      parents (roots ++ [{ root with kind := .literal value' }]) := by
  generalize hr : roots ++ [root] = all at h
  induction h generalizing roots with
  | nil => simp at hr
  | @append first nodes more parents parents' left right h h' ih ih' =>
    rcases List.eq_nil_or_concat right with rfl | ⟨right, last, rfl⟩
    · obtain rfl := h'.eq_nil
      obtain rfl := List.length_eq_zero_iff.1 h'.length_parents
      rw [List.append_nil] at hr
      simpa using ih hr
    · rw [List.concat_eq_append, ← List.append_assoc] at hr
      obtain ⟨rfl, hlast⟩ := List.append_inj' hr rfl
      obtain rfl := (List.cons.inj hlast).1
      have hroot := (h'.root_mem (show root ∈ right.concat root by simp)).1
      have hi : root.id.index - first =
          nodes.length + (root.id.index - (first + nodes.length)) := by
        omega
      rw [hi, modify_append_right, List.append_assoc]
      exact h.append (ih' (by simp))
  | @node first nodes parents kind span h hfit hfresh hs hle hrow ih =>
    obtain ⟨rfl, hroot⟩ := List.append_inj' (hr.trans (List.nil_append _).symm) rfl
    obtain rfl := (List.cons.inj hroot).1
    cases kind <;> try cases hk
    obtain rfl := Forest.eq_nil h
    simpa [NodeKind.map] using
      Forest.node (.literal value') span h (fun _ hm => absurd hm List.not_mem_nil) rfl
        hs hle trivial

/-- The last root pushed may become another literal if it is one. -/
theorem Grown.setLiteral {root : Placed} {value : Literal} (value' : Literal)
    (h : Grown source before (roots ++ [root]) after) (hk : root.kind = .literal value) :
    Grown source before (roots ++ [{ root with kind := .literal value' }])
      (after.setKind root.id (.literal value')) := by
  obtain ⟨nodes, parents, h, rfl⟩ := h
  refine ⟨_, parents, h.setLiteral value' hk, ?_⟩
  have hroot := (h.root_mem (show root ∈ roots ++ [root] by simp)).1
  have hi : root.id.index = before.nodes.toList.length + (root.id.index - before.size) := by
    rw [Array.length_toList]
    rw [Builder.size] at hroot ⊢
    omega
  rw [Builder.setKind]
  congr 1
  rw [← Array.toList_inj, Array.toList_modify, Array.toList_append, hi, modify_append_right]
  simp [Builder.size]

end

end Grammar

end OpenQasm
