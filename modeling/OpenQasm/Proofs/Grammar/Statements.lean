import OpenQasm.Proofs.Grammar.Declarations

/-!
# Readings of statements

Quantum and classical statements, control flow, and the choice among all statements.
-/

namespace OpenQasm.Grammar.Reading

section
variable {reading : Reading} {levels : Nat} {inner : Level} {base state : State}
  {read ahead rest : List Token} {token : Token} {roots : List Placed} {braces : Nat} {slot : Slot}
  {stop : State → Prop}

/-! ## Quantum statements -/

/-- A delay yields a statement. -/
theorem delay_runs (hi : reading.Spec levels inner) (h : reading.Ready levels base) :
    reading.Runs (delay inner) base (reading.Yields True .statement levels base)
      (reading.Dropped base) := by
  refine (Held.refl h).expect rfl fun token rest after hsplit _ h => ?_
  refine h.expect rfl fun _ rest after _ _ h => ?_
  refine h.yields (hi.expression _ h.ready) fun duration more rest after _ _ hduration _ h => ?_
  refine h.expect rfl fun _ rest after _ _ h => ?_
  refine h.yieldsAll (operands_runs hi h.ready) fun operands more rest after _ hoperands h => ?_
  refine h.expect rfl fun _ rest after _ _ h => ?_
  refine h.spanFrom (by simp) (start_eq hsplit) (h.requireVersion3 fun after h => ?_)
  exact h.ends (.refl _) (by simp) (by simp [NodeKind.children, NodeKind.slots])
    (by simpa [NodeKind.slots] using ⟨hduration, hoperands⟩) rfl rfl rfl

/-- A reset yields a statement. -/
theorem reset_runs (hi : reading.Spec levels inner) (h : reading.Ready levels base) :
    reading.Runs (reset inner) base (reading.Yields True .statement levels base)
      (reading.Dropped base) := by
  refine (Held.refl h).expect rfl fun token rest after hsplit _ h => ?_
  refine h.yields (operand_runs hi h.ready) fun operand more rest after _ _ hslot _ h => ?_
  refine h.expect rfl fun _ rest after _ _ h => ?_
  exact h.endsFrom (.refl _) (by simp) (start_eq hsplit)
    (by simp [NodeKind.children, NodeKind.slots]) (by simpa [NodeKind.slots] using hslot) rfl rfl

/-- A barrier yields a statement. -/
theorem barrier_runs (hi : reading.Spec levels inner) (h : reading.Ready levels base)
    (hr : base.rest = token :: rest) (hb : isBrace token.kind = false) :
    reading.Runs (barrier inner) base (reading.Yields True .statement levels base)
      (reading.Dropped base) := by
  have h0 := Held.refl h
  rw [hr] at h0
  refine h0.currentSpan fun start hstart => h0.advance hb fun after h => ?_
  refine h.yieldsAll (operands_runs hi h.ready) fun operands more rest after _ hslots h => ?_
  refine h.expect rfl fun _ rest after _ _ h => ?_
  exact h.endsFrom (.refl _) (by simp) (hr ▸ hstart)
    (by simp [NodeKind.children, NodeKind.slots]) (by simpa [NodeKind.slots] using hslots) rfl rfl

/-- A nop yields a statement. -/
theorem nop_runs (hi : reading.Spec levels inner) (h : reading.Ready levels base)
    (hr : base.rest = token :: rest) (hb : isBrace token.kind = false) :
    reading.Runs (nop inner) base (reading.Yields True .statement levels base)
      (reading.Dropped base) := by
  have h0 := Held.refl h
  rw [hr] at h0
  refine h0.currentSpan fun start hstart => h0.advance hb fun after h => ?_
  refine h.yieldsAll (operands_runs hi h.ready) fun operands more rest after _ hslots h => ?_
  refine h.expect rfl fun _ rest after _ _ h => ?_
  refine h.spanFrom (by simp) (hr ▸ hstart) (h.requireVersion3 fun after h => ?_)
  exact h.ends (.refl _) (by simp) (by simp [NodeKind.children, NodeKind.slots])
    (by simpa [NodeKind.slots] using hslots) rfl rfl rfl

/-- A measurement with its target yields a statement. -/
theorem measureStatement_runs (hi : reading.Spec levels inner) (h : reading.Ready levels base) :
    reading.Runs (measureStatement inner) base (reading.Yields True .statement levels base)
      (reading.Dropped base) := by
  have h0 := Held.refl h
  refine h0.currentSpan fun start hstart => ?_
  refine h0.yields (measurement_runs hi h) fun measured more rest after _ _ hmeasured _ h => ?_
  refine Runs.join (h.yieldsOption (optional_runs h.ready rfl fun _ => operand_runs hi)
    fun target more rest after _ htarget h => ?_)
  refine h.expect rfl fun _ rest after _ _ h => ?_
  exact h.endsFrom (.refl _) (by simp) hstart (by simp [NodeKind.children, NodeKind.slots])
    (by simpa [NodeKind.slots] using ⟨hmeasured, by simpa using htarget⟩) rfl rfl

/-- A gate modifier yields its node, whether it takes an expression or not. -/
theorem gateModifier_runs {modifier : ModifierKind} (hi : reading.Spec levels inner)
    (h : reading.Ready levels base) (hr : base.rest = token :: rest)
    (hb : isBrace token.kind = false) :
    reading.Runs (gateModifier inner modifier) base (reading.Yields False .modifier levels base)
      (reading.Dropped base) := by
  have h0 := Held.refl h
  rw [hr] at h0
  refine h0.currentSpan fun start hstart => h0.advance hb fun after h => ?_
  refine h.accept rfl (fun _ rest after _ _ h => ?_) (Runs.pure_bind ?_)
  · refine h.yields (hi.expression _ h.ready) fun arg more rest after _ _ hslot _ h => ?_
    refine h.expect rfl fun _ rest after _ _ h => Runs.pure_bind ?_
    refine h.expect rfl fun _ rest after _ _ h => ?_
    exact h.endsFrom (.refl _) (by simp) (hr ▸ hstart)
      (by simp [NodeKind.children, NodeKind.slots]) (by simpa [NodeKind.slots] using hslot) rfl rfl
  · refine h.expect rfl fun _ rest after _ _ h => ?_
    exact h.endsFrom (.refl _) (by simp) (hr ▸ hstart) rfl rfl rfl rfl

/-- No modifier is a brace. -/
theorem isBrace_of_modifierKind {kind : TokenKind} {modifier : ModifierKind}
    (h : modifierKind? kind = some modifier) : isBrace kind = false := by
  unfold isBrace
  split
  · cases h
  · cases h
  · rfl

/-- A row of modifiers yields their nodes. -/
theorem gateModifiers_runs (hi : reading.Spec levels inner) (h : reading.Ready levels base) :
    reading.Runs (gateModifiers inner) base (reading.YieldsAll False .modifier levels base)
      (reading.Dropped base) := by
  refine Runs.iterate (reading.YieldsAll False .modifier levels base)
    (fun modifiers state hs => ?_) (YieldsAll.nil h)
  obtain ⟨⟨base', read, ahead, hr, hheld⟩, -⟩ := id hs
  obtain rfl := hr.fixed.resolve_left id
  refine hheld.peek ?_
  split
  · next modifier hm =>
    obtain ⟨kind, hk, hm⟩ := Option.bind_eq_some_iff.1 hm
    obtain ⟨token, rest, hsplit, rfl⟩ := exists_of_peek hk
    refine Runs.bind ((gateModifier_runs hi hheld.ready (hheld.rest.trans hsplit)
      (isBrace_of_modifierKind hm)).conseq (fun _ _ hv => hv) fun _ => hheld.dropped)
      fun node after hnode => ⟨hs.snoc hnode, hnode.length_rest_lt⟩
  · exact hs

/-- The name of a gate yields a name. -/
theorem gateName_runs (h : reading.Ready levels base) :
    reading.Runs gateName base (reading.Yields False .name levels base)
      (reading.Dropped base) := by
  have h0 := Held.refl h
  refine h0.current ?_
  cases hr : base.rest with
  | nil => exact h0.unexpected
  | cons token rest =>
    refine Runs.ite (fun hk => ?_) fun _ => h0.unexpected
    have hb : isBrace token.kind = false := by rcases hk with hk | hk <;> rw [hk] <;> rfl
    have hline : '\n' ∉ token.text := by
      rcases hk with hk | hk <;> exact h.oneLine hr (by simp [hk]) (by simp [hk])
    exact leaf_runs h hr hb rfl (NodeKind.isFresh_identifier hline) rfl

/-- The arguments of a gate yield expressions. -/
theorem gateArguments_runs (hi : reading.Spec levels inner) (h : reading.Ready levels base) :
    reading.Runs (gateArguments inner) base (reading.YieldsAll False .expression levels base)
      (reading.Dropped base) := by
  refine (Held.refl h).accept rfl (fun token rest after _ _ h => ?_) (YieldsAll.nil h)
  refine h.yieldsAll (expressions_runs hi h.ready) fun args more rest after _ hargs h => ?_
  refine h.expect rfl fun _ rest after _ _ h => ?_
  exact ⟨⟨base, _, _, .refl _, h⟩, hargs⟩

/-- A gate call yields a statement. -/
theorem gateCall_runs (hi : reading.Spec levels inner) (h : reading.Ready levels base) :
    reading.Runs (gateCall inner) base (reading.Yields True .statement levels base)
      (reading.Dropped base) := by
  have h0 := Held.refl h
  refine h0.currentSpan fun start hstart => ?_
  refine h0.yieldsAll (gateModifiers_runs hi h) fun modifiers more rest after _ hmodifiers h => ?_
  refine h.yields (gateName_runs h.ready) fun callee more rest after _ _ hcallee _ h => ?_
  refine h.yieldsAll (gateArguments_runs hi h.ready) fun args more rest after _ hargs h => ?_
  refine h.yieldsOption (designator_runs hi h.ready)
    fun duration more rest after _ hduration h => ?_
  refine h.yieldsAll (operands_runs hi h.ready) fun operands more rest after _ hoperands h => ?_
  refine h.expect rfl fun _ rest after _ _ h => ?_
  exact h.endsFrom (.refl _) (by simp) hstart (by simp [NodeKind.children, NodeKind.slots])
    (by simpa [NodeKind.slots] using
      ⟨hmodifiers, hcallee, hargs, by simpa using hduration, hoperands⟩) rfl rfl

/-- A box yields a statement around its block. -/
theorem boxStatement_runs (hi : reading.Spec levels inner) (h : reading.Ready levels base) :
    reading.Runs (boxStatement inner) base (reading.Yields True .statement levels base)
      (reading.Dropped base) := by
  refine (Held.refl h).expect rfl fun token rest after hsplit _ h => ?_
  refine h.yieldsOption (designator_runs hi h.ready)
    fun duration more rest after _ hduration h => ?_
  refine h.yields (block_runs hi h.ready) fun body more rest after _ _ hbody _ h => ?_
  refine h.spanFrom (by simp) (start_eq hsplit) (h.requireVersion3 fun after h => ?_)
  exact h.ends (.refl _) (by simp) (by simp [NodeKind.children, NodeKind.slots])
    (by simpa [NodeKind.slots] using ⟨by simpa using hduration, hbody⟩) rfl rfl rfl

/-! ## Classical statements -/

/-- No operator of an assignment is a brace. -/
theorem isBrace_of_assignOp {kind : TokenKind} {op : AssignOp} (h : assignOp? kind = some op) :
    isBrace kind = false := by
  unfold isBrace
  split
  · cases h
  · cases h
  · rfl

/-- An assignment yields a statement. -/
theorem assignment_runs (hi : reading.Spec levels inner) (h : reading.Ready levels base) :
    reading.Runs (assignment inner) base (reading.Yields True .statement levels base)
      (reading.Dropped base) := by
  have h0 := Held.refl h
  refine h0.currentSpan fun start hstart => ?_
  refine h0.yields (operand_runs hi h) fun target more rest after _ _ htarget _ h => h.peek ?_
  split
  · next op hop =>
    obtain ⟨kind, hk, hop⟩ := Option.bind_eq_some_iff.1 hop
    obtain ⟨token, rest, rfl, rfl⟩ := exists_of_peek hk
    refine h.advance (isBrace_of_assignOp hop) fun after h => ?_
    refine h.yields (value_runs hi h.ready) fun value more rest after _ _ hvalue _ h => ?_
    refine h.expect rfl fun _ rest after _ _ h => ?_
    exact h.endsFrom (.refl _) (by simp) hstart (by simp [NodeKind.children, NodeKind.slots])
      (by simpa [NodeKind.slots] using ⟨htarget, hvalue⟩) rfl rfl
  · exact h.unexpected

/-- An expression with a semicolon yields a statement. -/
theorem expressionStatement_runs (hi : reading.Spec levels inner) (h : reading.Ready levels base) :
    reading.Runs (expressionStatement inner) base (reading.Yields True .statement levels base)
      (reading.Dropped base) := by
  have h0 := Held.refl h
  refine h0.currentSpan fun start hstart => ?_
  refine h0.yields (hi.expression _ h) fun expr more rest after _ _ hslot _ h => ?_
  refine h.expect rfl fun _ rest after _ _ h => ?_
  exact h.endsFrom (.refl _) (by simp) hstart (by simp [NodeKind.children, NodeKind.slots])
    (by simpa [NodeKind.slots] using hslot) rfl rfl

/-- A statement that is a single keyword yields its node. -/
theorem jump_runs {kind : NodeKind Placed} (h : reading.Ready levels base)
    (hr : base.rest = token :: rest) (hb : isBrace token.kind = false)
    (hroots : kind.children = []) (hfresh : kind.isFresh) (hslot : Slot.statement.accepts kind) :
    reading.Runs (jump kind) base (reading.Yields True .statement levels base)
      (reading.Dropped base) := by
  have hfit : kind.slots = [] := List.map_eq_nil_iff.1 hroots
  have h0 := Held.refl h
  rw [hr] at h0
  refine h0.currentSpan fun start hstart => h0.advance hb fun after h => ?_
  refine h.expect rfl fun _ rest after _ _ h => ?_
  exact h.endsFrom (.refl _) (by simp) (hr ▸ hstart) hroots (by rw [hfit]; rfl) hfresh hslot

/-- A return yields a statement, with a value or without. -/
theorem returnStatement_runs (hi : reading.Spec levels inner) (h : reading.Ready levels base) :
    reading.Runs (returnStatement inner) base (reading.Yields True .statement levels base)
      (reading.Dropped base) := by
  refine (Held.refl h).expect rfl fun token rest after hsplit _ h => ?_
  refine h.sees (fun _ _ _ _ => Runs.pure_bind ?_) (Runs.map_bind ?_)
  · refine h.expect rfl fun _ rest after _ _ h => ?_
    exact h.endsFrom (.refl _) (by simp) (start_eq hsplit) rfl rfl rfl rfl
  · refine h.yields (value_runs hi h.ready) fun value more rest after _ _ hslot _ h => ?_
    refine h.expect rfl fun _ rest after _ _ h => ?_
    exact h.endsFrom (.refl _) (by simp) (start_eq hsplit)
      (by simp [NodeKind.children, NodeKind.slots]) (by simpa [NodeKind.slots] using hslot) rfl rfl

/-! ## Control flow -/

/-- A condition between parentheses gives an expression. -/
theorem condition_runs (hi : reading.Spec levels inner) (h : reading.Ready levels base) :
    reading.Runs (condition inner) base
      (fun node after => reading.Gives False levels base [node] after ∧
        Slot.expression.accepts node.kind)
      (reading.Dropped base) := by
  refine (Held.refl h).expect rfl fun token rest after _ _ h => ?_
  refine h.yields (hi.expression _ h.ready) fun condition more rest after _ _ hslot _ h => ?_
  refine h.expect rfl fun _ rest after _ _ h => ?_
  exact ⟨⟨base, _, _, .refl _, h⟩, hslot⟩

/-- The body of a control statement gives a block or a statement. -/
theorem body_runs (hi : reading.Spec levels inner) (h : reading.Ready levels base)
    (hpos : 0 < base.position) :
    reading.Runs (body inner) base
      (fun node after => reading.Gives False levels base [node] after ∧
        Slot.statement.accepts node.kind)
      (reading.Dropped base) := by
  refine (Held.refl h).sees (fun _ _ _ _ => ?_) (inScope_runs _ h hpos fun h => ?_)
  · exact (block_runs hi h).conseq
      (fun _ _ hv => (hv.weaken accepts_statement_of_block).single) fun _ hs => hs
  · exact (hi.statement _ h hpos).conseq (fun _ _ hv => hv.single) fun _ hd => hd.within

/-- An if yields a statement, with an else or without. -/
theorem ifStatement_runs (hi : reading.Spec levels inner) (h : reading.Ready levels base) :
    reading.Runs (ifStatement inner) base (reading.Yields True .statement levels base)
      (reading.Dropped base) := by
  refine (Held.refl h).expect rfl fun token rest after hsplit _ h => ?_
  refine h.gives (fun node => [node]) (condition_runs hi h.ready)
    fun condition more rest after _ hcondition h => ?_
  refine h.gives (fun node => [node]) (body_runs hi h.ready (h.position_pos (by simp)))
    fun thenBranch more rest after _ hthen h => ?_
  refine h.accept rfl (fun _ rest after _ _ h => Runs.map_bind ?_) (Runs.pure_bind ?_)
  · refine h.gives (fun node => [node]) (body_runs hi h.ready (h.position_pos (by simp)))
      fun elseBranch more rest after _ helse h => ?_
    exact h.endsFrom (.refl _) (by simp) (start_eq hsplit)
      (by simp [NodeKind.children, NodeKind.slots])
      (by simpa [NodeKind.slots] using ⟨hcondition, hthen, helse⟩) rfl rfl
  · exact h.endsFrom (.refl _) (by simp) (start_eq hsplit)
      (by simp [NodeKind.children, NodeKind.slots])
      (by simpa [NodeKind.slots] using ⟨hcondition, hthen⟩) rfl rfl

/-- What a loop runs over gives a set, a range or an expression. -/
theorem iterable_runs (hi : reading.Spec levels inner) (h : reading.Ready levels base) :
    reading.Runs (iterable inner) base
      (fun node after => reading.Gives False levels base [node] after ∧
        Slot.indexItem.accepts node.kind)
      (reading.Dropped base) := by
  have h0 := Held.refl h
  refine h0.peek ?_
  split
  · next hk =>
    obtain ⟨token, rest, hr, hk⟩ := exists_of_peek hk
    rw [hr] at h0
    refine h0.advance (hk ▸ rfl) fun after h => ?_
    refine h.yields (rangeOrExpression_runs hi h.ready)
      fun range more rest after _ _ hslot _ h => ?_
    refine h.expect rfl fun _ rest after _ _ h => ?_
    exact ⟨⟨base, _, _, .refl _, h⟩, hslot⟩
  · exact (setLiteral_runs hi h).conseq (fun _ _ hv => hv.single) fun _ hs => hs
  · exact (hi.expression base h).conseq
      (fun _ _ hv => (hv.weaken accepts_indexItem_of_expression).single) fun _ hs => hs

/-- The type of a loop variable yields a type, if there is one. -/
theorem loopType_runs (hi : reading.Spec levels inner) (h : reading.Ready levels base) :
    reading.Runs (loopType inner) base
      (fun node => reading.YieldsAll False .type levels base node.toList)
      (reading.Dropped base) :=
  Runs.get (Runs.ite (fun _ => YieldsAll.nil h) fun _ => Runs.map ((type_runs hi h).conseq
    (fun _ _ hv => (YieldsAll.nil h).snoc hv) fun _ hs => hs))

/-- A for loop yields a statement. -/
theorem forStatement_runs (hi : reading.Spec levels inner) (h : reading.Ready levels base) :
    reading.Runs (forStatement inner) base (reading.Yields True .statement levels base)
      (reading.Dropped base) := by
  refine (Held.refl h).expect rfl fun token rest after hsplit _ h => ?_
  refine h.requireVersion3 fun after h => ?_
  refine h.yieldsOption (loopType_runs hi h.ready) fun type more rest after _ htype h => ?_
  refine h.gives (fun value => [value.1] ++ [value.2.1] ++ [value.2.2])
    (p := fun value => Fitting .name .indexItem .statement ([value.1], [value.2.1], value.2.2))
    (inScope_runs _ h.ready (h.position_pos (by simp)) fun h => ?scope)
    fun value more rest after _ hvalue h => ?_
  case scope =>
    refine (Held.refl h).yieldsAt (identifier_runs h) (fun _ hd => hd.within)
      fun var more rest after _ _ hvar _ h => ?_
    refine h.expectAt (fun _ hk => braceLevel?_plain (hk ▸ rfl)) (fun _ hd => hd.within)
      fun _ rest after _ _ h => ?_
    refine h.givesAt (fun node => [node]) (iterable_runs hi h.ready)
      (fun _ hd => hd.within) fun iterable more rest after _ hiterable h => ?_
    refine h.declare fun base' after hr h => ?_
    refine h.givesAt (fun node => [node])
      (body_runs hi h.ready (h.position_pos (by simp))) (fun after hd => ⟨base', hr, hd⟩)
      fun body more rest after _ hbody h => ?_
    exact ⟨⟨base', _, _, hr, h⟩, by simpa using hvar, by simpa using hiterable, hbody⟩
  obtain ⟨hvar, hiterable, hbody⟩ := hvalue
  exact h.endsFrom (.refl _) (by simp) (start_eq hsplit)
    (by simp [NodeKind.children, NodeKind.slots])
    (by simpa [NodeKind.slots] using
      ⟨by simpa using htype, by simpa using hvar, by simpa using hiterable, hbody⟩) rfl rfl

/-- A while loop yields a statement. -/
theorem whileStatement_runs (hi : reading.Spec levels inner) (h : reading.Ready levels base) :
    reading.Runs (whileStatement inner) base (reading.Yields True .statement levels base)
      (reading.Dropped base) := by
  refine (Held.refl h).expect rfl fun token rest after hsplit _ h => ?_
  refine h.requireVersion3 fun after h => ?_
  refine h.gives (fun node => [node]) (condition_runs hi h.ready)
    fun condition more rest after _ hcondition h => ?_
  refine h.gives (fun node => [node]) (body_runs hi h.ready (h.position_pos (by simp)))
    fun body more rest after _ hbody h => ?_
  exact h.endsFrom (.refl _) (by simp) (start_eq hsplit)
    (by simp [NodeKind.children, NodeKind.slots])
    (by simpa [NodeKind.slots] using ⟨hcondition, hbody⟩) rfl rfl

/-- A switch yields a statement with all of its cases. -/
theorem switchStatement_runs (hi : reading.Spec levels inner) (h : reading.Ready levels base) :
    reading.Runs (switchStatement inner) base (reading.Yields True .statement levels base)
      (reading.Dropped base) := by
  refine (Held.refl h).expect rfl fun token rest after hsplit _ h => ?_
  refine h.requireVersion3 fun after h => ?_
  refine h.gives (fun node => [node]) (condition_runs hi h.ready)
    fun subject more rest after _ hsubject h => ?_
  refine h.expect_left fun _ rest after _ _ h => ?_
  refine h.blockOpen (id)
    (fun base' hr hopen hpos => hi.cases base' hr (hpos ▸ h.position_pos (by simp)) hopen)
    fun cases more rest after _ hcases h => ?_
  refine h.expect_right fun _ rest after _ _ h => ?_
  exact h.endsFrom (.refl _) (by simp) (start_eq hsplit)
    (by simp [NodeKind.children, NodeKind.slots])
    (by simpa [NodeKind.slots] using ⟨hsubject, hcases⟩) rfl rfl

/-- Every case takes only what was pushed for it, so the loop keeps the cases before it. -/
theorem cases_runs (hi : reading.Spec levels inner) (h : reading.Ready levels base) :
    reading.Runs (Grammar.cases inner) base (reading.YieldsAll False .switchCase levels base)
      (reading.Dropped base) := by
  refine Runs.iterate (reading.YieldsAll False .switchCase levels base)
    (fun cases state hs => ?_) (YieldsAll.nil h)
  obtain ⟨⟨base', read, ahead, hr, hheld⟩, -⟩ := id hs
  obtain rfl := hr.fixed.resolve_left id
  refine Runs.conseq (s := reading.Dropped state) ?_ (fun _ _ hv => hv) fun _ => hheld.dropped
  have hs0 := Held.refl hs.ready
  refine hs0.currentSpan fun start hstart => hs0.peek ?_
  split
  · next hk =>
    obtain ⟨token, rest, hsplit, hk⟩ := exists_of_peek hk
    rw [hsplit] at hs0
    refine hs0.advance (hk ▸ rfl) fun after h => ?_
    refine h.yieldsAll (expressions_runs hi h.ready) fun values more rest after _ hvalues h => ?_
    refine Runs.ite (fun _ => h.unexpected_bind) fun _ => ?_
    refine h.yields (block_runs hi h.ready) fun body more rest after _ _ hbody _ h => ?_
    exact Runs.bind (p := reading.Yields False .switchCase levels state)
      (h.endsFrom (.refl _) (by simp) hstart
      (by simp [NodeKind.children, NodeKind.slots])
      (by simpa [NodeKind.slots] using ⟨hvalues, hbody⟩) rfl rfl)
      fun node after hnode => ⟨hs.snoc hnode, hnode.length_rest_lt⟩
  · next hk =>
    obtain ⟨token, rest, hsplit, hk⟩ := exists_of_peek hk
    rw [hsplit] at hs0
    refine hs0.advance (hk ▸ rfl) fun after h => ?_
    refine h.yields (block_runs hi h.ready) fun body more rest after _ _ hbody _ h => ?_
    exact Runs.bind (p := reading.Yields False .switchCase levels state)
      (h.endsFrom (.refl _) (by simp) hstart
      (by simp [NodeKind.children, NodeKind.slots])
      (by simpa [NodeKind.slots] using hbody) rfl rfl)
      fun node after hnode => ⟨hs.snoc hnode, hnode.length_rest_lt⟩
  · exact hs
  · exact hs0.unexpected

/-! ## The choice of a statement -/

/-- What starts with an identifier yields a statement. -/
theorem identifierStart_runs (hi : reading.Spec levels inner) (h : reading.Ready levels base) :
    reading.Runs (identifierStart inner) base (reading.Yields True .statement levels base)
      (reading.Dropped base) := by
  refine Runs.get ?_
  split
  · exact gateCall_runs hi h
  · exact assignment_runs hi h
  · exact expressionStatement_runs hi h

/-- So does what starts with a type. -/
theorem typeStart_runs (hi : reading.Spec levels inner) (h : reading.Ready levels base) :
    reading.Runs (typeStart inner) base (reading.Yields True .statement levels base)
      (reading.Dropped base) :=
  Runs.get (Runs.ite (fun _ => expressionStatement_runs hi h) fun _ => classicalDecl_runs hi h)

/-- So does what starts with a keyword. -/
theorem keywordStart_runs {keyword : Keyword} (hi : reading.Spec levels inner)
    (h : reading.Ready levels base) (hr : base.rest = token :: rest)
    (hk : token.kind = .keyword keyword) :
    reading.Runs (keywordStart inner keyword) base (reading.Yields True .statement levels base)
      (reading.Dropped base) := by
  have hb : isBrace token.kind = false := hk ▸ rfl
  unfold keywordStart
  split
  case h_1 => exact versionStatement_runs h
  case h_2 => exact includeStatement_runs h
  case h_3 => exact calibrationGrammar_runs h
  case h_4 => exact qubitDecl_runs hi h
  case h_5 | h_6 => exact registerDecl_runs hi h hr hb
  case h_7 => exact constDecl_runs hi h
  case h_8 | h_9 => exact ioDecl_runs hi h hr hb
  case h_10 => exact aliasDecl_runs hi h
  case h_11 => exact gateDef_runs hi h
  case h_12 => exact opaqueDecl_runs h
  case h_13 => exact subroutineDef_runs hi h
  case h_14 => exact externDecl_runs hi h
  case h_15 => exact cal_runs h
  case h_16 => exact defcal_runs h
  case h_17 => exact boxStatement_runs hi h
  case h_18 | h_19 | h_20 => exact jump_runs h hr hb rfl rfl rfl
  case h_21 => exact returnStatement_runs hi h
  case h_22 => exact ifStatement_runs hi h
  case h_23 => exact forStatement_runs hi h
  case h_24 => exact whileStatement_runs hi h
  case h_25 => exact switchStatement_runs hi h
  case h_26 => exact delay_runs hi h
  case h_27 => exact reset_runs hi h
  case h_28 => exact barrier_runs hi h hr hb
  case h_29 => exact nop_runs hi h hr hb
  case h_30 => exact measureStatement_runs hi h
  case h_31 | h_32 | h_33 | h_34 | h_35 => exact gateCall_runs hi h
  case h_36 =>
    exact Runs.ite (fun _ => typeStart_runs hi h) fun _ =>
      Runs.ite (fun _ => expressionStatement_runs hi h) fun _ => (Held.refl h).unexpected

/-- A statement of any kind yields a statement node. -/
theorem statement_runs (hi : reading.Spec levels inner) (h : reading.Ready levels base) :
    reading.Runs (statement inner) base (reading.Yields True .statement levels base)
      (reading.Dropped base) := by
  have h0 := Held.refl h
  refine h0.current ?_
  cases hr : base.rest with
  | nil => exact h0.unexpected
  | cons token rest =>
    rw [hr] at h0
    dsimp only [List.head?_cons]
    split
    · next hk => exact keywordStart_runs hi h hr hk
    · next hk => exact h0.advance (hk ▸ rfl) fun after h => pragma_runs h
    · next hk => exact h0.advance (hk ▸ rfl) fun after h => annotationLine_runs h
    · exact (block_runs hi h).conseq
        (fun _ _ hv => hv.mono.weaken accepts_statement_of_block) fun _ hs => hs
    · exact identifierStart_runs hi h
    · exact Runs.ite (fun _ => expressionStatement_runs hi h) fun _ => h0.unexpected

end

end OpenQasm.Grammar.Reading
