import OpenQasm.Tree.Builder

/-!
# What truncation undoes

Nodes that are dropped may be the parents of nodes that stay. These are released, and no others are,
so that the table of parents goes on saying which node lists which. The nodes that stay determine
the table, so a builder that is truncated to a length which it has kept since is the builder that it
was when it had that length.
-/

namespace OpenQasm.Builder

/-- The children of a node; none if it is not there. -/
def childrenOf (builder : Builder) (id : NodeId) : List NodeId :=
  match builder.node? id with
  | some node => node.kind.children
  | none => []

/-- The table of parents says of each node which one lists it, if any does. Children come before
their parents, and no node is listed twice. -/
structure Faithful (builder : Builder) : Prop where
  size : builder.parents.size = builder.size
  recorded : ∀ child parent, builder.parents[child.index]? = some (some parent) ↔
    child ∈ builder.childrenOf parent
  below : ∀ child parent, child ∈ builder.childrenOf parent → child.index < parent.index
  once : ∀ parent, (builder.childrenOf parent).Nodup

section
variable {builder pushed other : Builder} {kind : NodeKind NodeId} {span : Span} {id : NodeId}
  {length : Nat}

/-! ## Tables of parents -/

/-- A push that no check refuses enters the node as the parent of its children and adds it. -/
theorem exists_adopted_of_push (h : builder.push kind span = .ok (id, pushed)) :
    ∃ parents, adopt kind.tag ⟨builder.size⟩ kind.children builder.parents = .ok parents ∧
      builder.fits kind ∧ id = ⟨builder.size⟩ ∧
      pushed = { builder with
        nodes := builder.nodes.push { kind, span }
        parents := parents.push none } := by
  unfold push at h
  cases hadopt : adopt kind.tag ⟨builder.size⟩ kind.children builder.parents with
  | error fault => simp [hadopt, bind, Except.bind] at h
  | ok parents =>
    simp only [hadopt, bind, Except.bind] at h
    split at h
    · next hfits =>
      obtain ⟨rfl, rfl⟩ := Prod.mk.inj (Except.ok.inj h)
      exact ⟨parents, rfl, hfits, rfl, rfl⟩
    · cases h

/-- Children that are adopted had no parent, and nothing else changes. -/
theorem adopt_spec {tag : String} {parent : NodeId} {children : List NodeId}
    {parents adopted : Array (Option NodeId)}
    (h : adopt tag parent children parents = .ok adopted) :
    adopted.size = parents.size ∧ children.Nodup ∧
      (∀ child ∈ children, parents[child.index]? = some none) ∧
      ∀ id : NodeId, adopted[id.index]? =
        if id ∈ children then some (some parent) else parents[id.index]? := by
  induction children generalizing parents with
  | nil =>
    obtain rfl := Except.ok.inj h
    simp
  | cons child children ih =>
    rw [adopt] at h
    split at h
    · cases h
    · cases h
    · next hchild =>
      have hlt := (Array.getElem?_eq_some_iff.1 hchild).1
      obtain ⟨hsize, hnodup, hnone, hentry⟩ := ih h
      have hset (id : NodeId) : (parents.setIfInBounds child.index (some parent))[id.index]? =
          if id = child then some (some parent) else parents[id.index]? := by
        rw [Array.getElem?_setIfInBounds]
        by_cases hid : id = child
        · simp [hid, hlt]
        · have hne : child.index ≠ id.index := fun heq => hid (congrArg NodeId.mk heq).symm
          simp [hid, hne]
      have hfresh : child ∉ children := by
        intro hm
        have := hnone child hm
        simp [hset] at this
      refine ⟨by simpa using hsize, List.nodup_cons.2 ⟨hfresh, hnodup⟩, ?_, fun id => ?_⟩
      · intro other ho
        rcases List.mem_cons.1 ho with rfl | ho
        · exact hchild
        · have hne : other ≠ child := fun heq => hfresh (heq ▸ ho)
          simpa [hset, hne] using hnone other ho
      · rw [hentry, hset]
        by_cases hid : id = child
        · simp [hid]
        · simp [hid]

/-- Children that are released have no parent any more, and nothing else changes. -/
theorem foldl_release (children : List NodeId) (parents : Array (Option NodeId)) :
    (children.foldl release parents).size = parents.size ∧
      ∀ id : NodeId, (children.foldl release parents)[id.index]? =
        if id ∈ children then parents[id.index]?.map fun _ => none else parents[id.index]? := by
  induction children generalizing parents with
  | nil => simp
  | cons child children ih =>
    obtain ⟨hsize, hentry⟩ := ih (release parents child)
    rw [List.foldl_cons]
    refine ⟨by rw [hsize, release, Array.size_setIfInBounds], fun id => ?_⟩
    rw [hentry, release, Array.getElem?_setIfInBounds]
    by_cases hid : child.index = id.index
    · obtain rfl : child = id := congrArg NodeId.mk hid
      by_cases hlt : child.index < parents.size <;> simp [hlt]
    · have hne : id ≠ child := fun heq => hid (congrArg NodeId.index heq).symm
      simp [hid, hne]

/-! ## What each call preserves -/

/-- An empty builder is faithful. -/
theorem Faithful.empty : ({} : Builder).Faithful where
  size := rfl
  recorded := by simp [childrenOf, node?]
  below := by simp [childrenOf, node?]
  once := by simp [childrenOf, node?]

/-- Whoever lists a child is there. -/
theorem lt_of_mem_childrenOf {child parent : NodeId} (h : child ∈ builder.childrenOf parent) :
    parent.index < builder.size := by
  unfold childrenOf at h
  split at h
  · next hnode => exact (Array.getElem?_eq_some_iff.1 hnode).1
  · cases h

/-- No child has two parents. -/
theorem Faithful.unique (h : builder.Faithful) {child first second : NodeId}
    (hf : child ∈ builder.childrenOf first) (hs : child ∈ builder.childrenOf second) :
    first = second := by
  have hfirst := (h.recorded child first).2 hf
  rw [(h.recorded child second).2 hs] at hfirst
  exact (Option.some.inj (Option.some.inj hfirst)).symm

/-- The nodes determine the table of parents. -/
theorem Faithful.parents_eq (h : builder.Faithful) (ho : other.Faithful)
    (hn : builder.nodes = other.nodes) : builder.parents = other.parents := by
  have hchildren : builder.childrenOf = other.childrenOf := by
    funext id
    rw [childrenOf, childrenOf, node?, node?, hn]
  refine Array.ext_getElem? fun index => ?_
  have hsize : builder.parents.size = other.parents.size := by
    rw [h.size, ho.size, Builder.size, Builder.size, hn]
  have hsome : ∀ parent, builder.parents[index]? = some (some parent) ↔
      other.parents[index]? = some (some parent) := by
    intro parent
    rw [h.recorded ⟨index⟩ parent, ho.recorded ⟨index⟩ parent, hchildren]
  by_cases hlt : index < builder.parents.size
  · have hlt' : index < other.parents.size := hsize ▸ hlt
    simp only [Array.getElem?_eq_getElem, hlt, hlt', Option.some.injEq] at hsome ⊢
    exact Option.ext hsome
  · rw [Array.getElem?_eq_none (by omega), Array.getElem?_eq_none (by omega)]

/-- A node that is pushed lists its children, and what was there lists what it did before. -/
theorem childrenOf_push (h : builder.push kind span = .ok (id, pushed)) (parent : NodeId) :
    pushed.childrenOf parent =
      if parent = ⟨builder.size⟩ then kind.children else builder.childrenOf parent := by
  obtain ⟨parents, -, -, -, rfl⟩ := exists_adopted_of_push h
  have hentry : (builder.nodes.push { kind, span })[parent.index]? =
      if parent.index = builder.size then some { kind, span } else builder.nodes[parent.index]? :=
    Array.getElem?_push
  unfold childrenOf node?
  dsimp only
  rw [hentry]
  by_cases hp : parent = ⟨builder.size⟩
  · simp [hp]
  · have hne : parent.index ≠ builder.size := fun heq => hp (congrArg NodeId.mk heq)
    simp [hp, hne]

/-- A faithful builder is so behind a node that is pushed. -/
theorem Faithful.push (h : builder.Faithful) (hp : builder.push kind span = .ok (id, pushed)) :
    pushed.Faithful := by
  have hchildren := childrenOf_push hp
  obtain ⟨parents, hadopt, -, -, rfl⟩ := exists_adopted_of_push hp
  obtain ⟨hsize, hnodup, hnone, hentry⟩ := adopt_spec hadopt
  have hkind : ∀ child ∈ kind.children, child.index < builder.size := by
    intro child hc
    have := (Array.getElem?_eq_some_iff.1 (hnone child hc)).1
    rwa [h.size] at this
  refine ⟨?_, fun child parent => ?_, fun child parent hc => ?_, fun parent => ?_⟩
  · rw [Array.size_push, hsize, h.size, Builder.size, Builder.size, Array.size_push]
  · rw [hchildren, Array.getElem?_push, hsize, h.size, hentry]
    by_cases hparent : parent = ⟨builder.size⟩
    · -- No node names the new one as its parent but those that it lists.
      have hold : builder.parents[child.index]? ≠ some (some ⟨builder.size⟩) := by
        rw [Ne, h.recorded]
        exact fun hm => absurd (lt_of_mem_childrenOf hm) (Nat.lt_irrefl _)
      by_cases hc : child ∈ kind.children
      · have := hkind child hc
        simp [hparent, hc, show child.index ≠ builder.size by omega]
      · by_cases hlast : child.index = builder.size <;> simp [hparent, hc, hlast, hold]
    · rw [if_neg hparent, ← h.recorded]
      by_cases hlast : child.index = builder.size
      · have hout : builder.parents[child.index]? = none :=
          Array.getElem?_eq_none (Nat.le_of_eq (h.size.trans hlast.symm))
        rw [if_pos hlast, hout]
        simp
      · by_cases hc : child ∈ kind.children
        · simp [hlast, hc, hnone child hc, Ne.symm hparent]
        · simp [hlast, hc]
  · rw [hchildren] at hc
    split at hc
    · next heq =>
      rw [heq]
      exact hkind child hc
    · exact h.below child parent hc
  · rw [hchildren]
    split
    · exact hnodup
    · exact h.once parent

/-- What is left of an array that is cut. -/
theorem getElem?_take {α : Type} (items : Array α) (length index : Nat) :
    (items.take length)[index]? = if index < length then items[index]? else none := by
  rw [Array.take_eq_extract, Array.getElem?_extract, Nat.zero_add]
  by_cases hsize : index < items.size
  · by_cases hi : index < length
    · rw [if_pos (by omega), if_pos hi]
    · rw [if_neg (by omega), if_neg hi]
  · rw [if_neg (by omega), Array.getElem?_eq_none (by omega), ite_self]

/-- The nodes that are kept keep their children. -/
theorem childrenOf_truncate (builder : Builder) (length : Nat) (parent : NodeId) :
    (builder.truncate length).childrenOf parent =
      if parent.index < length then builder.childrenOf parent else [] := by
  unfold childrenOf node? truncate
  dsimp only
  rw [getElem?_take]
  split <;> simp_all

/-- A child is listed by its parent. -/
theorem mem_childrenOf {child parent : NodeId} : child ∈ builder.childrenOf parent ↔
    ∃ node, builder.node? parent = some node ∧ child ∈ node.kind.children := by
  unfold childrenOf
  cases builder.node? parent <;> simp

/-- The children that are released are those below the cut that a node behind it lists. -/
theorem mem_released {child : NodeId} :
    child ∈ ((builder.nodes.toList.drop length).flatMap fun node =>
        node.kind.children.filter (·.index < length)) ↔
      child.index < length ∧ ∃ parent : NodeId, length ≤ parent.index ∧
        child ∈ builder.childrenOf parent := by
  simp only [mem_childrenOf]
  rw [List.mem_flatMap]
  constructor
  · rintro ⟨node, hnode, hc⟩
    obtain ⟨hc, hlt⟩ := List.mem_filter.1 hc
    obtain ⟨index, hindex⟩ := List.mem_iff_getElem?.1 hnode
    rw [List.getElem?_drop, Array.getElem?_toList] at hindex
    exact ⟨of_decide_eq_true hlt, ⟨length + index⟩, Nat.le_add_right .., node, hindex, hc⟩
  · rintro ⟨hlt, parent, hle, node, hnode, hc⟩
    refine ⟨node, List.mem_iff_getElem?.2 ⟨parent.index - length, ?_⟩,
      List.mem_filter.2 ⟨hc, decide_eq_true hlt⟩⟩
    rw [List.getElem?_drop, Array.getElem?_toList, Nat.add_sub_cancel' hle]
    exact hnode

/-- The entries that are left are those of nodes that stay, for parents that stay. -/
theorem parents_truncate_iff {child parent : NodeId} :
    (builder.truncate length).parents[child.index]? = some (some parent) ↔
      builder.parents[child.index]? = some (some parent) ∧ child.index < length ∧
        ∀ other, child ∈ builder.childrenOf other → other.index < length := by
  unfold truncate
  dsimp only
  rw [getElem?_take]
  by_cases hlt : child.index < length
  · rw [if_pos hlt, (foldl_release _ _).2]
    split
    · next hm =>
      obtain ⟨-, other, hle, ho⟩ := mem_released.1 hm
      constructor
      · intro hentry
        simp at hentry
      · intro hkept
        exact absurd (hkept.2.2 other ho) (Nat.not_lt.2 hle)
    · next hm =>
      have hkept : ∀ other, child ∈ builder.childrenOf other → other.index < length := by
        intro other ho
        exact Nat.lt_of_not_le fun hle => hm (mem_released.2 ⟨hlt, other, hle, ho⟩)
      exact ⟨fun hentry => ⟨hentry, hlt, hkept⟩, And.left⟩
  · simp [hlt]

/-- A truncated builder is faithful. -/
theorem Faithful.truncate (h : builder.Faithful) (length : Nat) :
    (builder.truncate length).Faithful := by
  refine ⟨?_, fun child parent => ?_, fun child parent hc => ?_, fun parent => ?_⟩
  · have hsize : builder.parents.size = builder.nodes.size := h.size
    simp [Builder.truncate, Builder.size, (foldl_release _ _).1, hsize]
  · rw [parents_truncate_iff, childrenOf_truncate, h.recorded]
    constructor
    · rintro ⟨hc, -, hkept⟩
      rwa [if_pos (hkept parent hc)]
    · intro hc
      split at hc
      · next hlow =>
        -- The only parent of the child stays, so that the child is not released.
        exact ⟨hc, Nat.lt_trans (h.below child parent hc) hlow,
          fun other ho => h.unique ho hc ▸ hlow⟩
      · cases hc
  · rw [childrenOf_truncate] at hc
    split at hc
    · exact h.below child parent hc
    · cases hc
  · rw [childrenOf_truncate]
    split
    · exact h.once parent
    · exact .nil

/-! ## Calls -/

/-- A call on a builder. A mark asks how many nodes there are. -/
inductive Call where
  | push (kind : NodeKind NodeId) (span : Span)
  | mark
  | truncate (length : Nat)

/-- What a call makes of a builder: nothing if a check of a push fails, or if there are fewer nodes
than are to be left. -/
def serve (builder : Builder) : Call → Option Builder
  | .push kind span =>
    match builder.push kind span with
    | .ok (_, pushed) => some pushed
    | .error _ => none
  | .mark => some builder
  | .truncate length => if length ≤ builder.size then some (builder.truncate length) else none

/-- Calls one after the other, none of which fails, with so many nodes at least after each. -/
inductive Run (least : Nat) : Builder → List Call → Builder → Prop
  | nil (builder : Builder) : Run least builder [] builder
  | cons {builder next last : Builder} {call : Call} {calls : List Call} :
      builder.serve call = some next → least ≤ next.size → Run least next calls last →
      Run least builder (call :: calls) last

variable {next last : Builder} {call : Call} {calls : List Call} {least : Nat}

/-- The ways in which a call may change a builder. -/
theorem serve_cases (h : builder.serve call = some next) :
    (∃ kind span id, call = .push kind span ∧ builder.push kind span = .ok (id, next)) ∨
    (call = .mark ∧ next = builder) ∨
    ∃ length, call = .truncate length ∧ length ≤ builder.size ∧ next = builder.truncate length := by
  cases call with
  | push kind span =>
    simp only [serve] at h
    split at h
    · next id pushed hpush =>
      obtain rfl := Option.some.inj h
      exact .inl ⟨kind, span, id, rfl, hpush⟩
    · cases h
  | mark => exact .inr (.inl ⟨rfl, (Option.some.inj h).symm⟩)
  | truncate length =>
    simp only [serve] at h
    split at h
    · next hle => exact .inr (.inr ⟨length, rfl, hle, (Option.some.inj h).symm⟩)
    · cases h

/-- A call leaves a builder faithful. -/
theorem Faithful.serve (h : builder.Faithful) (hs : builder.serve call = some next) :
    next.Faithful := by
  obtain ⟨kind, span, id, -, hpush⟩ | ⟨-, rfl⟩ | ⟨length, -, -, rfl⟩ := serve_cases hs
  · exact h.push hpush
  · exact h
  · exact h.truncate length

/-- Nodes stand as long as there are no fewer of them. -/
theorem take_serve (hs : builder.serve call = some next) (hle : least ≤ builder.size)
    (hle' : least ≤ next.size) : next.nodes.take least = builder.nodes.take least := by
  obtain ⟨kind, span, id, -, hpush⟩ | ⟨-, rfl⟩ | ⟨length, -, -, rfl⟩ := serve_cases hs
  · obtain ⟨parents, -, -, -, rfl⟩ := exists_adopted_of_push hpush
    refine Array.ext_getElem? fun index => ?_
    rw [getElem?_take, getElem?_take, Array.getElem?_push]
    split
    · next hlt =>
      have hne : index ≠ builder.nodes.size := Nat.ne_of_lt (Nat.lt_of_lt_of_le hlt hle)
      rw [if_neg hne]
    · rfl
  · rfl
  · have hlength : least ≤ length := by
      have hsize : (builder.truncate length).size = min length builder.size := by
        simp [Builder.truncate, Builder.size]
      omega
    refine Array.ext_getElem? fun index => ?_
    rw [getElem?_take, getElem?_take, Builder.truncate, getElem?_take]
    split
    · next hlt => rw [if_pos (Nat.lt_of_lt_of_le hlt hlength)]
    · rfl

/-- No call changes the comments. -/
theorem comments_serve (hs : builder.serve call = some next) :
    next.comments = builder.comments := by
  obtain ⟨kind, span, id, -, hpush⟩ | ⟨-, rfl⟩ | ⟨length, -, -, rfl⟩ := serve_cases hs
  · obtain ⟨parents, -, -, -, rfl⟩ := exists_adopted_of_push hpush
    rfl
  · rfl
  · rfl

/-- A run leaves a builder faithful. -/
theorem Run.faithful (h : Run least builder calls last) (hf : builder.Faithful) :
    last.Faithful := by
  induction h with
  | nil => exact hf
  | cons hs _ _ ih => exact ih (hf.serve hs)

/-- What stood below the least number of nodes stands after all calls. -/
theorem Run.take_eq (h : Run least builder calls last) (hle : least ≤ builder.size) :
    last.nodes.take least = builder.nodes.take least ∧ last.comments = builder.comments := by
  induction h with
  | nil => exact ⟨rfl, rfl⟩
  | cons hs hle' _ ih =>
    obtain ⟨htake, hcomments⟩ := ih hle'
    exact ⟨htake.trans (take_serve hs hle hle'), hcomments.trans (comments_serve hs)⟩

/-- After any calls from an empty builder, none of which fails, the table of parents is faithful:
a node is entered as the parent of the nodes that it lists, and of no others, no node has two
parents, and children come before their parents. However the builder is changed from then on, with
no fewer nodes at any time, truncating it to the number of nodes that it had makes it what it
was. -/
theorem truncate_restores {earlier later : Builder} {calls more : List Call}
    (h : Run 0 {} calls earlier) (hm : Run earlier.size earlier more later) :
    earlier.Faithful ∧
      (∀ child first second, child ∈ earlier.childrenOf first →
        child ∈ earlier.childrenOf second → first = second) ∧
      later.serve (.truncate earlier.size) = some earlier := by
  have hfaithful := h.faithful .empty
  obtain ⟨htake, hcomments⟩ := hm.take_eq (Nat.le_refl _)
  have hnodes : (later.truncate earlier.size).nodes = earlier.nodes := by
    refine Eq.trans htake ?_
    simp [Builder.size]
  have hparents := ((hm.faithful hfaithful).truncate earlier.size).parents_eq hfaithful hnodes
  have hlength : earlier.size ≤ later.size := by
    have hsize : min earlier.size later.size = earlier.size := by
      simpa [Builder.truncate, Builder.size] using congrArg Array.size hnodes
    omega
  refine ⟨hfaithful, fun _ _ _ => hfaithful.unique, ?_⟩
  rw [serve, if_pos hlength]
  cases earlier
  exact congrArg some (Builder.mk.injEq .. ▸ ⟨hnodes, hparents, hcomments⟩)

/-- A name is put in parentheses, which are dropped, and then behind a sign, which is dropped: it
stands by itself again. -/
theorem truncate_restores_name : ∃ earlier later : Builder,
    Run 0 {} [.push (.identifier "x") ⟨⟨0⟩, 1, 2⟩, .mark] earlier ∧
      Run earlier.size earlier
        [.push (.paren ⟨0⟩) ⟨⟨0⟩, 0, 3⟩, .truncate 1, .push (.unary .neg ⟨0⟩) ⟨⟨0⟩, 0, 2⟩] later ∧
      later.parents = #[some ⟨1⟩, none] ∧ later.serve (.truncate earlier.size) = some earlier := by
  let name : Node := ⟨.identifier "x", ⟨⟨0⟩, 1, 2⟩⟩
  let named : Builder := { nodes := #[name], parents := #[none] }
  let enclosed : Builder :=
    { nodes := #[name, ⟨.paren ⟨0⟩, ⟨⟨0⟩, 0, 3⟩⟩], parents := #[some ⟨1⟩, none] }
  let signed : Builder :=
    { nodes := #[name, ⟨.unary .neg ⟨0⟩, ⟨⟨0⟩, 0, 2⟩⟩], parents := #[some ⟨1⟩, none] }
  have hnamed : Run 0 {} [.push (.identifier "x") ⟨⟨0⟩, 1, 2⟩, .mark] named :=
    .cons rfl (by decide) (.cons rfl (by decide) (.nil _))
  have henclosed : named.serve (.push (.paren ⟨0⟩) ⟨⟨0⟩, 0, 3⟩) = some enclosed := rfl
  have hdropped : enclosed.serve (.truncate 1) = some named := rfl
  have hsigned : named.serve (.push (.unary .neg ⟨0⟩) ⟨⟨0⟩, 0, 2⟩) = some signed := rfl
  have hrun : Run named.size named
      [.push (.paren ⟨0⟩) ⟨⟨0⟩, 0, 3⟩, .truncate 1, .push (.unary .neg ⟨0⟩) ⟨⟨0⟩, 0, 2⟩] signed :=
    .cons henclosed (by decide) (.cons hdropped (by decide) (.cons hsigned (by decide) (.nil _)))
  exact ⟨named, signed, hnamed, hrun, rfl, (truncate_restores hnamed hrun).2.2⟩

end

end OpenQasm.Builder
