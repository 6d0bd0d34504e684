import Mathlib.Data.List.Chain
import OpenQasm.Tree.Basic

/-!
# Heights of trees

A chain of operators of one precedence, or of groups of indices, is a node over a node over a node
to the left: the first operand of the chain stands below as many nodes as the chain has links. So a
tree may be as high as its text is long. What stays low is the number of nodes on a way down that
does not count these steps along a chain.
-/

namespace OpenQasm

namespace NodeKind

section
variable {ι : Type}

/-- The left operand of an operator that joins from left to right, and the base of indices: the rest
of the chain that the node ends. -/
def chained? : NodeKind ι → Option ι
  | binary op lhs _ => if op = .pow then none else some lhs
  | index base _ => some base
  | _ => none

/-- The children that no chain leads to. -/
def branches : NodeKind ι → List ι
  | binary op lhs rhs => if op = .pow then [lhs, rhs] else [rhs]
  | index _ items => items
  | kind => kind.children

/-- A child is the rest of a chain or a branch. -/
theorem mem_children_iff {kind : NodeKind ι} {child : ι} :
    child ∈ kind.children ↔ kind.chained? = some child ∨ child ∈ kind.branches := by
  cases kind
  case binary op lhs rhs =>
    by_cases hop : op = .pow <;> simp [children, slots, chained?, branches, hop, eq_comm]
  case index base items => simp [children, slots, each, chained?, branches, eq_comm]
  all_goals simp [chained?, branches]

/-- The branches are mapped with the children. -/
theorem branches_map {κ : Type} (f : ι → κ) (kind : NodeKind ι) :
    (kind.map f).branches = kind.branches.map f := by
  cases kind
  case binary op lhs rhs => by_cases hop : op = .pow <;> simp [map, branches, hop]
  case index base items => rfl
  all_goals exact children_map f _

/-- So is the child that a chain goes on with. -/
theorem chained?_map {κ : Type} (f : ι → κ) (kind : NodeKind ι) :
    (kind.map f).chained? = kind.chained?.map f := by
  cases kind
  case binary op lhs rhs => by_cases hop : op = .pow <;> simp [map, chained?, hop]
  all_goals rfl

end

end NodeKind

/-- On every way down from the node stand so many nodes at most, the steps along chains not
counted. -/
inductive Low (nodes : Array Node) : Nat → NodeId → Prop
  | node {height : Nat} {id : NodeId} {node : Node} : nodes[id.index]? = some node →
      (∀ child ∈ node.kind.branches, Low nodes height child) →
      (∀ child ∈ node.kind.chained?, Low nodes (height + 1) child) → Low nodes (height + 1) id

/-- A low tree is low enough for more. -/
theorem Low.mono {nodes : Array Node} {height height' : Nat} {id : NodeId}
    (h : Low nodes height id) (hle : height ≤ height') : Low nodes height' id := by
  induction h generalizing height' with
  | node hn _ _ ih ih' =>
    cases height' with
    | zero => exact absurd hle (Nat.not_succ_le_zero _)
    | succ height' =>
      exact .node hn (fun child hc => ih child hc (Nat.le_of_succ_le_succ hle))
        fun child hc => ih' child hc hle

/-- Nodes that are still there among others, though a literal may have taken the place of what was
there. -/
def Lasts (nodes others : Array Node) : Prop :=
  ∀ (index : Nat) (node : Node), nodes[index]? = some node →
    ∃ kind, others[index]? = some { node with kind } ∧
      (kind = node.kind ∨ ∃ value, kind = .literal value)

namespace Lasts

variable {nodes others more : Array Node}

/-- Nodes last where nothing changes. -/
theorem refl (nodes : Array Node) : Lasts nodes nodes := fun _ node h => ⟨node.kind, h, .inl rfl⟩

/-- And through two changes. -/
theorem trans (h : Lasts nodes others) (h' : Lasts others more) : Lasts nodes more := by
  intro index node hn
  obtain ⟨kind, ho, hk⟩ := h index node hn
  obtain ⟨kind', hm, hk'⟩ := h' index _ ho
  refine ⟨kind', hm, ?_⟩
  rcases hk' with rfl | hliteral
  · exact hk
  · exact .inr hliteral

/-- And when one is pushed. -/
theorem push (nodes : Array Node) (node : Node) : Lasts nodes (nodes.push node) := by
  intro index other ho
  have hlt := (Array.getElem?_eq_some_iff.1 ho).1
  refine ⟨other.kind, ?_, .inl rfl⟩
  rw [Array.getElem?_push_lt hlt, ← Array.getElem?_eq_getElem]
  exact ho

/-- And when the value of a literal is set. -/
theorem literal (nodes : Array Node) (index : Nat) (value : Literal) :
    Lasts nodes (nodes.modify index fun node => { node with kind := .literal value }) := by
  intro place node hn
  rw [Array.getElem?_modify, hn]
  split
  · exact ⟨.literal value, rfl, .inr ⟨value, rfl⟩⟩
  · exact ⟨node.kind, rfl, .inl rfl⟩

/-- Nodes that were there before others came are still there when these are dropped. -/
theorem take (h : Lasts nodes others) : Lasts nodes (others.take nodes.size) := by
  intro index node hn
  obtain ⟨kind, ho, hk⟩ := h index node hn
  have hlt := (Array.getElem?_eq_some_iff.1 hn).1
  have hlt' := (Array.getElem?_eq_some_iff.1 ho).1
  refine ⟨kind, ?_, hk⟩
  rw [Array.take_eq_extract, Array.getElem?_extract, if_pos (by omega), Nat.zero_add]
  exact ho

end Lasts

/-- A node stays low while it lasts. -/
theorem Low.lasts {nodes others : Array Node} {height : Nat} {id : NodeId}
    (h : Low nodes height id) (hl : Lasts nodes others) : Low others height id := by
  induction h with
  | node hn _ _ ih ih' =>
    obtain ⟨kind, ho, rfl | ⟨value, rfl⟩⟩ := hl _ _ hn
    · exact .node ho ih ih'
    · exact .node ho nofun nofun

/-! ## Ways down -/

namespace Tree

variable {tree : Tree}

/-- A way down from the root to a node without children, by its nodes. -/
structure IsPath (tree : Tree) (path : List NodeId) : Prop where
  root : path.head? = some tree.root
  steps : path.IsChain fun parent child => child ∈ tree.children parent
  leaf : ∀ id ∈ path.getLast?, tree.children id = []

/-- Whether a step down leads along a chain. -/
def chains (tree : Tree) (parent child : NodeId) : Bool :=
  (tree.node? parent).any fun node => node.kind.chained? = some child

/-- The number of nodes on a way down, the steps along chains not counted. -/
def weight (tree : Tree) : List NodeId → Nat
  | [] => 0
  | [_] => 1
  | parent :: child :: path =>
    if tree.chains parent child then tree.weight (child :: path)
    else tree.weight (child :: path) + 1

/-- A way down from a low node has a low weight. -/
theorem weight_le {height : Nat} {id : NodeId} (h : Low tree.nodes height id) (path : List NodeId)
    (hp : (id :: path).IsChain fun parent child => child ∈ tree.children parent) :
    tree.weight (id :: path) ≤ height := by
  induction path generalizing height id with
  | nil =>
    cases h
    exact Nat.le_add_left _ _
  | cons child path ih =>
    obtain ⟨hchild, hpath⟩ := List.isChain_cons_cons.1 hp
    cases h with
    | @node height _ node hn hbranches hchained =>
      rw [children, show tree.node? id = some node from hn] at hchild
      have hchains : tree.chains id child ↔ node.kind.chained? = some child := by
        simp [chains, show tree.node? id = some node from hn]
      rw [weight]
      split
      · next hc => exact ih (hchained child (hchains.1 hc)) hpath
      · next hc =>
        refine Nat.succ_le_succ (ih (hbranches child ?_) hpath)
        exact (NodeKind.mem_children_iff.1 hchild).resolve_left fun heq => hc (hchains.2 heq)

end Tree

end OpenQasm
