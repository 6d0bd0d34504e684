import OpenQasm.Proofs.Grammar.Canonical
import OpenQasm.Proofs.Grammar.Coming

/-!
# Trees that are read

Where the grammar of expressions yields the root of a tree, the tree is canonical, and the tokens
that have been read spell it. Whether it is such a root is known only when all is read: the parts of
other expressions, such as the statements of a `durationof`, may change nodes as they please.
-/

namespace OpenQasm.Grammar

/-- Whatever a parser reads is as it should be. It may stop. -/
abbrev MayRead {α : Type} (context : Context) (parser : Parser α) (state : State)
    (post : α → State → Prop) : Prop :=
  Comes (fun _ => True) context parser state post

/-- What a parser may read is what it may answer. -/
theorem mayRead_iff {α : Type} {context : Context} {parser : Parser α} {state : State}
    {post : α → State → Prop} :
    MayRead context parser state post ↔
      ∀ value after, parser context state = .ok value after → post value after := by
  unfold MayRead Comes
  cases hr : parser context state with
  | ok value after =>
    constructor
    · rintro h _ _ ⟨⟩
      exact h
    · exact fun h => h value after rfl
  | error failure after => exact iff_of_true trivial fun _ _ h => by cases h

/-- Nothing need be known of what is read. -/
theorem MayRead.any {α : Type} {context : Context} {parser : Parser α} {state : State} :
    MayRead context parser state fun _ _ => True := by
  unfold MayRead Comes
  split <;> trivial

/-- An unexpected token is never read. -/
theorem MayRead.unexpected {α : Type} {context : Context} {state : State} {expected : String}
    {post : α → State → Prop} : MayRead context (unexpected expected) state post := by
  unfold MayRead Comes
  split
  · next h => exact absurd h unexpected_ne_ok
  · trivial

/-- If the node is the root of a tree, the tree is canonical, its rank is not below the bound, and
what has been read since the base spells it. -/
def Sound (context : Context) (bound : Nat) (base : State) (node : Placed) (after : State) : Prop :=
  ∀ nodes, Extends after.builder.nodes nodes → ∀ expr : Expr, expr.Shown nodes node.id →
    bound ≤ expr.rank ∧ expr.Canonical ∧ Extends base.builder.nodes after.builder.nodes ∧
      ∃ read, base.rest = read ++ after.rest ∧ expr.Spelled True context.text read

/-- If the nodes are the roots of trees, these are canonical, and what has been read since the base
spells them with commas between them, and perhaps one at the end. -/
def SoundAll (context : Context) (trailing : Bool) (base : State) (items : List Placed)
    (after : State) : Prop :=
  ∀ nodes, Extends after.builder.nodes nodes → ∀ exprs : List Expr,
    List.Forall₂ (Expr.Shown nodes) exprs (items.map Placed.id) →
    (∀ expr ∈ exprs, expr.Canonical) ∧ Extends base.builder.nodes after.builder.nodes ∧
      ∃ read, base.rest = read ++ after.rest ∧
        Separated (Expr.Spelled True context.text) trailing exprs read

/-- What the productions of one level yield. -/
structure SoundLevel (context : Context) (inner : Level) : Prop where
  expression : ∀ state, MayRead context (inner .expression) state (Sound context 1 state)
  unary : ∀ state, MayRead context (inner .unary) state (Sound context 11 state)

/-! ## Lists -/

section
variable {spells : Expr → List Token → Prop} {expr : Expr} {exprs : List Expr}
  {tokens read : List Token} {token : Token}

/-- A comma behind the last tree. -/
theorem Separated.comma (h : Separated spells false exprs read)
    (hc : token.kind = .symbol .comma) : Separated spells true exprs (read ++ [token]) := by
  generalize ht : false = trailing at h
  induction h with
  | nil => cases ht
  | last hs => exact .cons hs hc .nil
  | cons hs hk _ ih =>
    rw [List.append_assoc, List.cons_append]
    exact .cons hs hk (ih ht)

/-- One more tree behind a comma, or the first one. -/
theorem Separated.snoc (h : Separated spells true exprs read) (hs : spells expr tokens) :
    Separated spells false (exprs ++ [expr]) (read ++ tokens) := by
  generalize ht : true = trailing at h
  induction h with
  | nil => exact .last hs
  | last => cases ht
  | cons hs' hk _ ih =>
    rw [List.append_assoc, List.cons_append]
    exact .cons hs' hk (ih ht)

end

section
variable {context : Context} {base state after : State} {node : Placed} {items : List Placed}
  {bound : Nat}

/-- What is sound where expressions bind tightly is sound where they bind more loosely. -/
theorem Sound.mono {lower : Nat} (h : Sound context bound base node after) (hle : lower ≤ bound) :
    Sound context lower base node after := fun nodes hext expr hshown =>
  (h nodes hext expr hshown).imp_left (Nat.le_trans hle)

/-- No items, nothing to spell. -/
theorem SoundAll.nil (context : Context) (base : State) : SoundAll context true base [] base := by
  intro nodes hext exprs hshown
  cases hshown
  exact ⟨fun _ h => (List.not_mem_nil h).elim, .refl _, [], rfl, .nil⟩

/-- A comma may follow an item. -/
theorem SoundAll.comma {comma : Token} (h : SoundAll context false base items state)
    (hr : state.rest = comma :: after.rest) (hc : comma.kind = .symbol .comma)
    (ho : Onward state after) : SoundAll context true base items after := by
  intro nodes hext exprs hshown
  obtain ⟨hcanonical, hgrown, read, hread, hs⟩ := h nodes (ho.nodes.trans hext) exprs hshown
  refine ⟨hcanonical, hgrown.trans ho.nodes, read ++ [comma], ?_, hs.comma hc⟩
  rw [hread, hr, List.append_assoc, List.singleton_append]

/-- One more item follows the others. -/
theorem SoundAll.snoc (h : SoundAll context true base items state)
    (hn : Sound context bound state node after) :
    SoundAll context false base (items ++ [node]) after := by
  intro nodes hext exprs hshown
  rw [List.map_append] at hshown
  obtain ⟨exprs, others, rfl, hitems, hlast⟩ : ∃ front back, exprs = front ++ back ∧
      List.Forall₂ (Expr.Shown nodes) front (items.map Placed.id) ∧
      List.Forall₂ (Expr.Shown nodes) back [node.id] :=
    ⟨_, _, (List.take_append_drop _ _).symm, List.forall₂_take_append _ _ _ hshown,
      List.forall₂_drop_append _ _ _ hshown⟩
  cases hlast with
  | cons hlast hnil =>
    cases hnil
    obtain ⟨-, hcanonical, hgrown, tokens, htokens, hs⟩ := hn nodes hext _ hlast
    obtain ⟨hall, hgrown', read, hread, hs'⟩ := h nodes (hgrown.trans hext) exprs hitems
    refine ⟨?_, hgrown'.trans hgrown, read ++ tokens, ?_, hs'.snoc hs⟩
    · intro expr hexpr
      obtain hexpr | hexpr := List.mem_append.1 hexpr
      · exact hall expr hexpr
      · cases List.mem_singleton.1 hexpr
        exact hcanonical
    · rw [hread, htokens, List.append_assoc]

/-- Items behind each other, with a comma perhaps at the end. -/
theorem separated_sound {item : Parser Placed} {close : Symbol}
    (hitem : ∀ state, MayRead context item state (Sound context bound state)) :
    MayRead context (separated close item) base fun items after =>
      ∃ trailing, SoundAll context trailing base items after := by
  refine Comes.loop (SoundAll context true base) trivial (fun items state h => ?_)
    (SoundAll.nil context base)
  refine Comes.sees (fun _ _ _ _ => ⟨true, h⟩) fun _ => ?_
  refine (hitem state).bind fun node after hnode => ?_
  refine Comes.accept (fun comma rest read hr hc hrest ho => ?_) fun _ => ⟨false, h.snoc hnode⟩
  exact (h.snoc hnode).comma (hrest ▸ hr) hc ho

/-- Items behind each other with commas between them. -/
theorem joined_sound {item : Parser Placed}
    (hitem : ∀ state, MayRead context item state (Sound context bound state)) :
    MayRead context (joined Symbol.comma item) base (SoundAll context false base) := by
  refine (hitem base).bind fun first state hfirst => ?_
  refine Comes.loop (SoundAll context false base) trivial (fun items state h => ?_)
    ((SoundAll.nil context base).snoc hfirst)
  refine Comes.accept (fun comma rest read hr hc hrest ho => ?_) fun _ => h
  exact (hitem read).bind fun node after hnode => (h.comma (hrest ▸ hr) hc ho).snoc hnode

/-! ## Atoms -/

section
variable {node : NodeKind Placed} {span : Span} {read : List Token} {token : Token}

/-- The node of an atom that is spelled by what has been read. -/
theorem place_atom {atom : Atom} (hr : base.rest = read ++ state.rest) (ho : Onward base state)
    (hk : node.map Placed.id = atom.kind) (hs : atom.Spelled context.text read) :
    MayRead context (place node span) state (Sound context 13 base) := by
  refine Comes.place (fun _ => trivial) fun placed after _ hrest hon hnode => ?_
  intro nodes hext expr hshown
  obtain rfl : expr = .atom atom := hshown.eq_atom (hk ▸ hext _ _ hnode)
  exact ⟨Nat.le_refl _, .atom ⟨trivial, trivial⟩, (ho.trans hon).nodes, read, hrest ▸ hr, .atom hs⟩

/-- A node that is not the root of a tree. -/
theorem place_other (hk : isSyntax (node.map Placed.id) = false) :
    MayRead context (place node span) state (Sound context bound base) := by
  refine Comes.place (fun _ => trivial) fun placed after _ _ _ hnode nodes hext expr hshown => ?_
  cases hk.symm.trans (hshown.isSyntax (hext _ _ hnode))

/-- A node that is no syntax of an expression spells none. -/
theorem placeFrom_other (hk : isSyntax (node.map Placed.id) = false) :
    MayRead context (placeFrom span node) state (Sound context bound base) :=
  MayRead.any.bind fun _ _ _ => place_other hk

/-- A literal spells the tokens that it was read from. -/
theorem literal_sound {text : List Char} {kind : LiteralKind} (hr : base.rest = read ++ state.rest)
    (ho : Onward base state)
    (hs : ∀ value, Literal.read text kind = .ok value →
      (Atom.literal value).Spelled context.text read) :
    MayRead context (literal text span kind) state (Sound context 13 base) := by
  unfold literal
  split
  · next value hvalue => exact place_atom hr ho rfl (hs value hvalue)
  · trivial
  · exact MayRead.any.bind fun _ _ _ => place_other rfl

/-- So does a number, with the unit or the `im` behind it. -/
theorem number_sound (hr : base.rest = token :: state.rest) (ho : Onward base state)
    (hk : token.kind = .integer ∨ token.kind = .float ∨ token.kind = .suffixed) :
    MayRead context (number token) state (Sound context 13 base) := by
  have hsingle : MayRead context (number.single token) state (Sound context 13 base) := by
    refine literal_sound (show _ = [token] ++ _ from hr) ho fun value hvalue => .number ?_ hvalue
    unfold numberKind?
    obtain hk | hk | hk := hk <;> rw [hk]
  unfold number
  refine Comes.current ?_
  split
  · next unit hunit =>
    split
    · next hm =>
      simp only [Bool.and_eq_true, Bool.or_eq_true, beq_iff_eq] at hm
      obtain ⟨rest, hrest⟩ : ∃ rest, state.rest = unit :: rest := List.head?_eq_some_iff.1 hunit
      refine Comes.advance hrest fun after hafter hon => ?_
      have hread : base.rest = [token, unit] ++ after.rest := by
        rw [hr, hrest, hafter]
        rfl
      exact literal_sound hread (ho.trans hon) fun value hvalue => .imaginary hm.1 hm.2 hvalue
    · exact hsingle
  · exact hsingle

/-- So does a hardware qubit. -/
theorem hardwareQubit_sound (hr : base.rest = token :: state.rest) (ho : Onward base state)
    (hk : token.kind = .hardwareQubit) :
    MayRead context (hardwareQubit token) state (Sound context 13 base) := by
  unfold hardwareQubit
  split
  · next number hnumber =>
    exact place_atom (show _ = [token] ++ _ from hr) ho rfl (.hardwareQubit hk hnumber)
  · exact MayRead.any.bind fun _ _ _ => place_other rfl

end

/-! ## Brackets -/

section
variable {inner : Level} {token : Token} {span : Span}

/-- A range is no expression. -/
theorem rangeAfter_sound {start : Option Placed} :
    MayRead context (rangeAfter inner span start) state (Sound context bound base) := by
  refine MayRead.any.bind fun _ _ _ => MayRead.any.bind fun _ _ _ => ?_
  refine MayRead.any.bind fun _ _ _ => ?_
  split
  · exact MayRead.any.bind fun _ _ _ => placeFrom_other rfl
  · exact placeFrom_other rfl

/-- An index spells what was read, if it is an expression. -/
theorem indexItem_sound (hs : SoundLevel context inner) (state : State) :
    MayRead context (indexItem inner) state (Sound context 1 state) := by
  refine Comes.sees (fun _ _ _ _ => ?_) fun _ => ?_
  · refine MayRead.any.bind fun _ _ _ => MayRead.any.bind fun _ _ _ => ?_
    exact MayRead.any.bind fun _ _ _ => placeFrom_other rfl
  · refine Comes.currentSpan fun span => Comes.sees (fun _ _ _ _ => rangeAfter_sound) fun _ => ?_
    refine (hs.expression state).bind fun first after hfirst => ?_
    exact Comes.sees (fun _ _ _ _ => rangeAfter_sound) fun _ => hfirst

/-- Items in brackets behind a base. -/
theorem indexed_sound (hs : SoundLevel context inner) {node : Placed}
    (h : Sound context 12 base node state) :
    MayRead context (indexed inner node) state (Sound context 12 base) := by
  refine Comes.expect (fun _ _ => trivial) fun left rest opened hr hl hrest ho => ?_
  refine (joined_sound (indexItem_sound hs)).bind fun items read hitems => ?_
  refine Comes.expect (fun _ _ => trivial) fun right rest' closed hr' hk hrest' ho' => ?_
  refine Comes.placeFrom (fun _ => trivial) fun placed span after hafter hon hnode => ?_
  intro nodes hext expr hshown
  obtain ⟨first, exprs, rfl, hfirst, hexprs⟩ := hshown.of_index (hext _ _ hnode)
  have hclosed := (ho'.trans hon).nodes
  obtain ⟨hall, hgrown, tokens, htokens, hspelled⟩ := hitems nodes (hclosed.trans hext) _ hexprs
  have hopened := ho.nodes.trans (hgrown.trans hclosed)
  obtain ⟨hle, hcanonical, hgrown', head, hhead, hspelled'⟩ :=
    h nodes (hopened.trans hext) _ hfirst
  refine ⟨Nat.le_refl _, .index ⟨trivial, hle⟩ hcanonical hall, hgrown'.trans hopened,
    head ++ left :: (tokens ++ [right]), ?_, .index hspelled' hl hspelled hk⟩
  rw [hhead, hr, ← hrest, htokens, hr', hafter, hrest']
  simp

/-- A row of index operators is spelled behind its base. -/
theorem indices_sound (hs : SoundLevel context inner) {node : Placed}
    (h : Sound context 12 base node state) :
    MayRead context (indices inner node) state (Sound context 12 base) := by
  refine Comes.loop (Sound context 12 base) trivial (fun node state h => ?_) h
  refine Comes.sees (fun _ _ _ _ => ?_) fun _ => h
  exact (indexed_sound hs h).bind fun _ _ hindexed => hindexed

/-! ## Expressions without operators -/

/-- A name is spelled by its token, a call with its arguments. -/
theorem identifierOrCall_sound (hs : SoundLevel context inner) :
    MayRead context (identifierOrCall inner token) base (Sound context 13 base) := by
  have hidentifier : MayRead context identifier base fun callee after =>
      ∃ name, base.rest = name :: after.rest ∧ name.kind = .identifier ∧ Onward base after ∧
        after.builder.nodes[callee.id.index]? =
          some ⟨.identifier (String.ofList name.text), name.span⟩ :=
    Comes.identifier (fun _ => trivial) (fun _ _ => trivial)
      fun name callee after hr hk ho hnode => ⟨name, hr, hk, ho, hnode⟩
  refine hidentifier.bind ?_
  rintro callee named ⟨name, hr, hk, ho, hname⟩
  refine Comes.accept (fun left rest opened hr' hl hrest ho' => ?_) fun _ => ?_
  · refine (separated_sound hs.expression).bind fun args read ⟨trailing, hargs⟩ => ?_
    refine Comes.expect (fun _ _ => trivial) fun right rest' closed hr'' hk' hrest' hon => ?_
    refine Comes.placeFrom (fun _ => trivial) fun placed span after hafter hon' hnode => ?_
    intro nodes hext expr hshown
    obtain ⟨_, exprs, rfl, hcallee, hexprs⟩ := hshown.of_call (hext _ _ hnode)
    have hclosed := (hon.trans hon').nodes
    obtain ⟨hall, hgrown, tokens, htokens, hspelled⟩ := hargs nodes (hclosed.trans hext) _ hexprs
    have hopened := ho'.nodes.trans (hgrown.trans hclosed)
    obtain rfl : _ = Expr.atom (.identifier _) := hcallee.eq_atom (hopened.trans hext _ _ hname)
    refine ⟨Nat.le_refl _, .call ⟨trivial, _, rfl⟩ (.atom ⟨trivial, trivial⟩) hall,
      ho.nodes.trans hopened, [name] ++ left :: (tokens ++ [right]), ?_,
      .call (.atom (.identifier hk)) hl hspelled (fun _ => .inl trivial) hk'⟩
    rw [hr, hr', ← hrest, htokens, hr'', hafter, hrest']
    simp
  · intro nodes hext expr hshown
    obtain rfl : _ = Expr.atom (.identifier _) := hshown.eq_atom (hext _ _ hname)
    exact ⟨Nat.le_refl _, .atom ⟨trivial, trivial⟩, ho.nodes, [name], hr, .atom (.identifier hk)⟩

/-- A cast is none of these expressions. -/
theorem castExpression_sound :
    MayRead context (castExpression inner token) state (Sound context bound base) := by
  refine MayRead.any.bind fun _ _ _ => MayRead.any.bind fun _ _ _ => ?_
  exact MayRead.any.bind fun _ _ _ => MayRead.any.bind fun _ _ _ => placeFrom_other rfl

/-- A primary expression is spelled by what was read. -/
theorem primaryAt_sound (hs : SoundLevel context inner) {rest : List Token}
    (hr : base.rest = token :: rest) :
    MayRead context (primaryAt inner token) base (Sound context 13 base) := by
  have hleaf {atom : Atom} {node : NodeKind Placed} {span : Span}
      (hk : node.map Placed.id = atom.kind) (hspelled : atom.Spelled context.text [token]) :
      MayRead context (advance >>= fun _ => place node span) base (Sound context 13 base) :=
    Comes.advance hr fun after hafter ho => place_atom (hafter ▸ hr) ho hk hspelled
  have hnumber (hk : token.kind = .integer ∨ token.kind = .float ∨ token.kind = .suffixed) :
      MayRead context (advance >>= fun _ => number token) base (Sound context 13 base) :=
    Comes.advance hr fun after hafter ho => number_sound (hafter ▸ hr) ho hk
  unfold primaryAt
  split
  · next hk => exact hnumber (.inl hk)
  · next hk => exact hnumber (.inr (.inl hk))
  · next hk => exact hnumber (.inr (.inr hk))
  · next hk => exact hleaf (show _ = Atom.kind (.constant .pi) from rfl) (.constant hk)
  · next hk => exact hleaf (show _ = Atom.kind (.constant .tau) from rfl) (.constant hk)
  · next hk => exact hleaf (show _ = Atom.kind (.constant .euler) from rfl) (.constant hk)
  · next hk => exact hleaf (show _ = Atom.kind (.boolean true) from rfl) (.boolean hk)
  · next hk => exact hleaf (show _ = Atom.kind (.boolean false) from rfl) (.boolean hk)
  · next hk => exact hleaf (show _ = Atom.kind (.bitstring _) from rfl) (.bitstring hk)
  · next hk =>
    exact Comes.advance hr fun after hafter ho => hardwareQubit_sound (hafter ▸ hr) ho hk
  · exact identifierOrCall_sound hs
  · next hk =>
    refine Comes.advance hr fun opened hopened ho => ?_
    refine (hs.expression opened).bind fun inside read hinside => ?_
    refine Comes.expect (fun _ _ => trivial) fun right rest' closed hr' hk' hrest' hon => ?_
    refine Comes.placeFrom (fun _ => trivial) fun placed span after hafter hon' hnode => ?_
    intro nodes hext expr hshown
    obtain ⟨expr, rfl, hexpr⟩ := hshown.of_paren (hext _ _ hnode)
    have hclosed := (hon.trans hon').nodes
    obtain ⟨-, hcanonical, hgrown, tokens, htokens, hspelled⟩ :=
      hinside nodes (hclosed.trans hext) _ hexpr
    refine ⟨Nat.le_refl _, .paren ⟨trivial, trivial⟩ hcanonical,
      ho.nodes.trans (hgrown.trans hclosed), token :: (tokens ++ [right]), ?_,
      .paren hk hspelled hk'⟩
    rw [hr, ← hopened, htokens, hr', hafter, hrest']
    simp
  · refine MayRead.any.bind fun _ _ _ => MayRead.any.bind fun _ _ _ => ?_
    refine MayRead.any.bind fun _ _ _ => MayRead.any.bind fun _ _ _ => placeFrom_other rfl
  · split
    · exact castExpression_sound
    · exact MayRead.unexpected

/-- So is an indexed one. -/
theorem postfixExpression_sound (hs : SoundLevel context inner) :
    MayRead context (postfixExpression inner) base (Sound context 12 base) := by
  refine Comes.bind (p := Sound context 13 base) ?_ fun node state h =>
    indices_sound hs (h.mono (by decide))
  refine Comes.current ?_
  split
  · next token htoken =>
    obtain ⟨rest, hrest⟩ : ∃ rest, base.rest = token :: rest := List.head?_eq_some_iff.1 htoken
    exact primaryAt_sound hs hrest
  · exact MayRead.unexpected

/-! ## Operators -/

/-- Two trees on the sides of an operator. -/
theorem place_binary {op : BinaryOp} {sign : Symbol} {left right : Placed} {opened : State}
    {lower upper : Nat} (h : Sound context lower base left state)
    (hr : state.rest = token :: opened.rest) (ho : Onward state opened)
    (hk : token.kind = .symbol sign) (hsign : sign.text = op.sign)
    (h' : Sound context upper opened right after)
    (hordered : ∀ left right : Expr, lower ≤ left.rank → upper ≤ right.rank →
      (Expr.binary op left right).Ordered) (hle : bound ≤ op.precedence) :
    MayRead context (place (.binary op left right) span) after fun node final =>
      Sound context bound base node final ∧ final.rest = after.rest := by
  refine Comes.place (fun _ => trivial) fun placed final _ hafter hon hnode => ⟨?_, hafter⟩
  intro nodes hext expr hshown
  obtain ⟨first, second, rfl, hfirst, hsecond⟩ := hshown.of_binary (hext _ _ hnode)
  obtain ⟨hupper, hcanonical', hgrown', tail, htail, hspelled'⟩ :=
    h' nodes (hon.nodes.trans hext) _ hsecond
  have hopened := ho.nodes.trans (hgrown'.trans hon.nodes)
  obtain ⟨hlower, hcanonical, hgrown, head, hhead, hspelled⟩ :=
    h nodes (hopened.trans hext) _ hfirst
  refine ⟨hle, .binary ⟨hordered _ _ hlower hupper, trivial⟩ hcanonical hcanonical',
    hgrown.trans hopened, head ++ token :: tail, ?_, .binary hspelled hk hsign hspelled'⟩
  rw [hhead, hr, htail, hafter]
  simp

/-- A power is spelled by what was read. -/
theorem power_sound (hs : SoundLevel context inner) :
    MayRead context (power inner) base (Sound context 11 base) := by
  refine (postfixExpression_sound hs).bind fun left state h => ?_
  refine Comes.accept (fun token rest opened hr hk hrest ho => ?_) fun _ => h.mono (by decide)
  refine (hs.unary opened).bind fun right after h' => ?_
  have hordered (left right : Expr) (hl : 12 ≤ left.rank) (hr : 11 ≤ right.rank) :
      (Expr.binary .pow left right).Ordered := ⟨hl, hr⟩
  exact (place_binary h (hrest ▸ hr) ho hk rfl h' hordered (Nat.le_refl _)).mono
    fun _ _ hplaced => hplaced.1

/-- So is a unary expression. -/
theorem unaryExpression_sound (hs : SoundLevel context inner) :
    MayRead context (unaryExpression inner) base (Sound context 11 base) := by
  refine Comes.peek ?_
  split
  · next op hop =>
    obtain ⟨token, rest, hr, hop⟩ := exists_of_operator hop
    obtain ⟨sign, hk, hsign⟩ := sign_of_unaryOp hop
    refine Comes.currentSpan fun span => Comes.advance hr fun opened hopened ho => ?_
    refine (hs.unary opened).bind fun operand after h => ?_
    refine Comes.placeFrom (fun _ => trivial) fun placed span final hafter hon hnode => ?_
    intro nodes hext expr hshown
    obtain ⟨expr, rfl, hexpr⟩ := hshown.of_unary (hext _ _ hnode)
    obtain ⟨hle, hcanonical, hgrown, tokens, htokens, hspelled⟩ :=
      h nodes (hon.nodes.trans hext) _ hexpr
    refine ⟨Nat.le_refl _, .unary ⟨hle, trivial⟩ hcanonical,
      ho.nodes.trans (hgrown.trans hon.nodes), token :: tokens, ?_, .unary hk hsign hspelled⟩
    rw [hr, ← hopened, htokens, hafter, List.cons_append]
  · exact power_sound hs

/-- No operator ahead is of the given precedence or a tighter one. -/
def Looser (bound : Nat) (rest : List Token) : Prop :=
  ∀ op, (rest.head?.map Token.kind).bind binaryOp? = some op → op.precedence < bound

/-- A climb ends before an operator that is looser than its least precedence. What it has read so
far is never looser than the operator ahead: that one has not gone on with the right side of the
tree, so it may take the whole tree for its left side. -/
theorem binaryFrom_sound (hs : SoundLevel context inner) (least : Nat) :
    least ≤ 11 → ∀ base, MayRead context (binaryFrom inner least) base fun node after =>
      Sound context least base node after ∧ Looser least after.rest := by
  induction least using climb_induction with
  | _ least ih =>
    intro hle base
    rw [binaryFrom_eq]
    refine (unaryExpression_sound hs).bind fun first state hfirst => ?_
    refine Comes.loop (fun left state => ∃ rank, least ≤ rank ∧ rank ≤ 11 ∧
        Sound context rank base left state ∧ Looser (rank + 1) state.rest)
      trivial (fun left state => ?_)
      ⟨11, hle, Nat.le_refl _, hfirst, fun op _ => Nat.lt_succ_of_le op.precedence_le_tightest⟩
    rintro ⟨rank, hleast, hrank, h, hlooser⟩
    refine Comes.peek ?_
    split
    · next op hop =>
      split
      · next hlt =>
        refine ⟨h.mono hleast, fun other hother => ?_⟩
        obtain rfl := Option.some.inj (hop.symm.trans hother)
        exact hlt
      · next htight =>
        obtain ⟨token, rest, hr, hbinary⟩ := exists_of_operator hop
        obtain ⟨sign, hk, hsign⟩ := sign_of_binaryOp hbinary
        have hne := ne_pow_of_binaryOp hbinary
        have hloose : op.precedence < 11 := BinaryOp.precedence_lt_tightest hne
        refine Comes.advance hr fun opened hopened ho => ?_
        refine (ih op (Nat.not_lt.1 htight) hloose opened).bind ?_
        rintro right after ⟨h', hahead⟩
        refine (place_binary h (hopened ▸ hr) ho hk hsign h' (fun left right hl hr => ?_)
          (Nat.le_refl op.precedence)).bind ?_
        · exact (Expr.ordered_binary_iff hne).2
            ⟨(Nat.le_of_lt_succ (hlooser op hop)).trans hl, hr⟩
        · rintro node final ⟨hsound, hfinal⟩
          exact ⟨op.precedence, Nat.not_lt.1 htight, Nat.le_of_lt hloose, hsound, hfinal ▸ hahead⟩
    · next hnone => exact ⟨h.mono hleast, fun other hother => by cases hnone.symm.trans hother⟩

/-- What the productions of all levels yield. -/
theorem level_sound (context : Context) (levels : Nat) : SoundLevel context (level levels) := by
  induction levels with
  | zero => exact ⟨fun _ => trivial, fun _ => trivial⟩
  | succ levels ih =>
    constructor
    · intro state
      refine Comes.nested (fun _ _ => trivial) ?_
      exact (binaryFrom_sound ih 1 (by decide) _).mono fun _ _ h => h.1
    · intro state
      refine Comes.nested (fun _ _ => trivial) ?_
      exact (unaryExpression_sound ih).mono fun _ _ h => h

end

end

end OpenQasm.Grammar
