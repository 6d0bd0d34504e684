import OpenQasm.Grammar.Program
import OpenQasm.Proofs.Grammar.Pieces

/-!
# Readings of types

What the productions of a level are to do, and what follows for the pieces that stand on all levels
and for the types: each yields a node for its place, if the productions of the next level do. The
proofs follow the productions step by step.
-/

namespace OpenQasm.Grammar

/-! ## Places -/

section
variable {ι : Type} {kind : NodeKind ι}

/-- A name may stand for an expression. -/
theorem accepts_expression_of_name (h : Slot.accepts .name kind) :
    Slot.accepts .expression kind := by
  cases kind <;> first | rfl | cases h

/-- A name may stand for an operand. -/
theorem accepts_operand_of_name (h : Slot.accepts .name kind) : Slot.accepts .operand kind := by
  cases kind <;> first | rfl | cases h

/-- An operand may stand for an expression. -/
theorem accepts_expression_of_operand (h : Slot.accepts .operand kind) :
    Slot.accepts .expression kind := by
  cases kind <;> first | rfl | cases h

/-- So may a measurement. -/
theorem accepts_expression_of_measurement (h : Slot.accepts .measurement kind) :
    Slot.accepts .expression kind := by
  cases kind <;> first | rfl | cases h

/-- An expression may stand for an index. -/
theorem accepts_indexItem_of_expression (h : Slot.accepts .expression kind) :
    Slot.accepts .indexItem kind := by
  cases kind <;> first | rfl | cases h

/-- A block may stand for a statement. -/
theorem accepts_statement_of_block (h : Slot.accepts .block kind) :
    Slot.accepts .statement kind := by
  cases kind <;> first | rfl | cases h

/-- The children in a slot that takes many are those given. -/
@[simp] theorem map_snd_each (slot : Slot) (children : List ι) :
    (NodeKind.each slot children).map Prod.snd = children := by
  simp [NodeKind.each, Function.comp_def]

/-- The child in a slot that takes one at most is the one given. -/
@[simp] theorem map_snd_maybe (slot : Slot) (child : Option ι) :
    (NodeKind.maybe slot child).map Prod.snd = child.toList := map_snd_each slot child.toList

/-- What holds in such a slot holds of each child. -/
@[simp] theorem all_each (slot : Slot) (children : List ι) (p : Slot × ι → Bool) :
    (NodeKind.each slot children).all p = children.all fun child => p (slot, child) := by
  simp [NodeKind.each, Function.comp_def]

/-- What holds in such a slot holds of the child, if there is one. -/
@[simp] theorem all_maybe (slot : Slot) (child : Option ι) (p : Slot × ι → Bool) :
    (NodeKind.maybe slot child).all p = child.toList.all fun child => p (slot, child) :=
  all_each slot child.toList p

end

namespace Reading

section
variable {reading : Reading} {levels : Nat} {inner : Level} {base state : State}
  {read ahead rest : List Token} {token : Token} {roots : List Placed} {braces : Nat}

/-- What the productions of a level do. -/
structure Spec (reading : Reading) (levels : Nat) (inner : Level) : Prop where
  expression : ∀ base, reading.Ready levels base →
    reading.Runs (inner .expression) base (reading.Yields False .expression levels base)
      (reading.Dropped base)
  unary : ∀ base, reading.Ready levels base →
    reading.Runs (inner .unary) base (reading.Yields False .expression levels base)
      (reading.Dropped base)
  scalarType : ∀ base, reading.Ready levels base →
    reading.Runs (inner .scalarType) base (reading.Yields False .type levels base)
      (reading.Dropped base)
  statement : ∀ base, reading.Ready levels base → 0 < base.position →
    reading.Runs (inner .statement) base (reading.Yields True .statement levels base)
      (reading.Dropped base)
  blockItems : ∀ base, reading.Ready levels base → 0 < base.position → 0 < base.openBlocks →
    reading.Runs (inner .blockItems) base (reading.YieldsAll False .statement levels base)
      (reading.Dropped base)
  cases : ∀ base, reading.Ready levels base → 0 < base.position → 0 < base.openBlocks →
    reading.Runs (inner .cases) base (reading.YieldsAll False .switchCase levels base)
      (reading.Dropped base)
  arrayLiteral : ∀ base, reading.Ready levels base →
    reading.Runs (inner .arrayLiteral) base (reading.Yields False .expression levels base)
      (reading.Dropped base)

/-! ## Pieces that stand on all levels -/

/-- A token that has just been read spans from its start to the end of what was read. -/
theorem Held.token_span (h : reading.Held levels base ([] ++ [token]) ahead roots braces state) :
    token.span = ⟨reading.context.source, reading.nextStart base.rest,
      endAfter base.previousEnd ([] ++ [token])⟩ := by
  have hrow := h.start.row
  rw [h.split] at hrow ⊢
  rw [← hrow.1]
  rfl

/-- What begins with a token begins where the text ahead does. -/
theorem start_eq (h : base.rest = token :: rest) :
    token.span.start = reading.nextStart base.rest := by
  rw [h]
  rfl

/-- A node that takes one place takes another one too. -/
theorem Yields.weaken {declares : Prop} {slot slot' : Slot} {node : Placed}
    (h : reading.Yields declares slot levels base node state)
    (hs : slot.accepts node.kind → slot'.accepts node.kind) :
    reading.Yields declares slot' levels base node state := by
  obtain ⟨base', read, ahead, hr, hne, hheld, hslot, hspan⟩ := h
  exact ⟨base', read, ahead, hr, hne, hheld, hs hslot, hspan⟩

/-- An identifier yields a name. -/
theorem identifier_runs (h : reading.Ready levels base) :
    reading.Runs identifier base (reading.Yields False .name levels base)
      (reading.Dropped base) := by
  refine (Held.refl h).expect rfl fun token rest after hs hk hafter => ?_
  have hline := h.oneLine hs (by simp [hk]) (by simp [hk])
  exact hafter.ends (.refl _) (by simp) rfl rfl (NodeKind.isFresh_identifier hline)
    hafter.token_span rfl

/-- A list of identifiers yields names. -/
theorem identifiers_runs {close : Symbol} (h : reading.Ready levels base) :
    reading.Runs (identifiers close) base (reading.YieldsAll False .name levels base)
      (reading.Dropped base) :=
  separated_runs_fixed h fun _ => identifier_runs

/-- A list of expressions yields expressions. -/
theorem expressions_runs (hi : reading.Spec levels inner) {close : Symbol}
    (h : reading.Ready levels base) :
    reading.Runs (expressions inner close) base (reading.YieldsAll False .expression levels base)
      (reading.Dropped base) :=
  separated_runs_fixed h hi.expression

/-- A designator yields an expression, if there is one. -/
theorem designator_runs (hi : reading.Spec levels inner) (h : reading.Ready levels base) :
    reading.Runs (designator inner) base
      (fun node => reading.YieldsAll False .expression levels base node.toList)
      (reading.Dropped base) := by
  refine (Held.refl h).accept rfl (fun token rest after _ _ h => ?_) (YieldsAll.nil h)
  refine h.yields (hi.expression _ h.ready) fun node more rest after _ _ hslot _ h => ?_
  refine h.expect rfl fun token rest after _ _ h => ?_
  exact ⟨⟨base, _, _, .refl _, h⟩, by simpa using hslot⟩

/-- A block yields its node around its items. -/
theorem block_runs (hi : reading.Spec levels inner) (h : reading.Ready levels base) :
    reading.Runs (block inner) base (reading.Yields False .block levels base)
      (reading.Dropped base) := by
  refine (Held.refl h).expect_left fun token rest after hsplit _ h => ?_
  refine h.blockOpen id (fun base' hr hopen hpos => hi.blockItems base' hr ?_ hopen)
    fun items more rest after _ hslots h => ?_
  · rw [hpos, h.position]
    simp
  refine h.expect_right fun token rest after _ _ h => ?_
  exact h.endsFrom (.refl _) (by simp) (start_eq hsplit)
    (by simp [NodeKind.children, NodeKind.slots]) (by simpa [NodeKind.slots] using hslots) rfl rfl

/-! ## Types -/

/-- A complex type yields a type. -/
theorem complexType_runs (hi : reading.Spec levels inner) (h : reading.Ready levels base)
    (hn : base.rest = token :: rest) (hb : isBrace token.kind = false) :
    reading.Runs (complexType inner) base (reading.Yields False .type levels base)
      (reading.Dropped base) := by
  have h := Held.refl h
  rw [hn] at h
  refine h.currentSpan fun start hstart => h.advance hb fun after h => ?_
  refine h.accept rfl (fun token rest after _ _ h => ?_) ?_
  · refine h.yields (hi.scalarType _ h.ready) fun node more rest after _ _ hslot _ h => ?_
    refine h.expect rfl fun token rest after _ _ h => ?_
    refine Runs.pure_bind ?_
    exact h.endsFrom (.refl _) (by simp) (hn ▸ hstart)
      (by simp [NodeKind.children, NodeKind.slots]) (by simpa [NodeKind.slots] using hslot) rfl rfl
  · refine Runs.pure_bind ?_
    exact h.endsFrom (.refl _) (by simp) (hn ▸ hstart) rfl rfl rfl rfl

/-- No scalar type is named by a brace. -/
theorem isBrace_of_scalarKind {kind : TokenKind} {scalar : ScalarKind}
    (h : scalarKind? kind = some scalar) : isBrace kind = false := by
  unfold isBrace
  split
  · cases h
  · cases h
  · rfl

/-- A scalar type yields a type. -/
theorem scalarType_runs (hi : reading.Spec levels inner) (h : reading.Ready levels base) :
    reading.Runs (scalarType inner) base (reading.Yields False .type levels base)
      (reading.Dropped base) := by
  have h0 := Held.refl h
  refine h0.currentSpan fun start hstart => h0.peek ?_
  split
  · next scalar hs =>
    obtain ⟨kind, hk, hs⟩ := Option.bind_eq_some_iff.1 hs
    obtain ⟨token, rest, hr, rfl⟩ := exists_of_peek hk
    rw [hr] at h0
    refine h0.advance (isBrace_of_scalarKind hs) fun after h => ?_
    refine h.yieldsOption (designator_runs hi h.ready) fun node more rest after _ hslot h => ?_
    exact h.endsFrom (.refl _) (by simp) hstart
      (by simp [NodeKind.children, NodeKind.slots]) (by simpa [NodeKind.slots] using hslot) rfl rfl
  · refine h0.sees (fun token rest hr hk => ?_) h0.unexpected
    exact complexType_runs hi h hr (hk ▸ rfl)

/-- The element type of an array gives a type. -/
theorem elementType_runs (hi : reading.Spec levels inner) (h : reading.Ready levels base) :
    reading.Runs (elementType inner) base
      (fun node after => reading.Gives False levels base [node] after ∧
        Slot.type.accepts node.kind)
      (reading.Dropped base) := by
  refine (Held.refl h).expect rfl fun token rest after _ _ h => ?_
  refine h.yields (scalarType_runs hi h.ready) fun node more rest after _ _ hslot _ h => ?_
  refine h.expect rfl fun token rest after _ _ h => ?_
  exact ⟨⟨base, _, _, .refl _, h⟩, hslot⟩

/-- An array type yields a type. -/
theorem arrayType_runs (hi : reading.Spec levels inner) (h : reading.Ready levels base)
    (hn : base.rest = token :: rest) (hb : isBrace token.kind = false) :
    reading.Runs (arrayType inner) base (reading.Yields False .type levels base)
      (reading.Dropped base) := by
  have h := Held.refl h
  rw [hn] at h
  refine h.currentSpan fun start hstart => h.advance hb fun after h => ?_
  refine h.gives (fun node => [node]) (elementType_runs hi h.ready)
    fun element more rest after _ helement h => ?_
  refine h.yieldsAll (expressions_runs hi h.ready) fun dims more rest after _ hdims h => ?_
  refine Runs.ite (fun _ => h.unexpected_bind) fun _ => ?_
  refine h.expect rfl fun token rest after _ _ h => ?_
  exact h.endsFrom (.refl _) (by simp) (hn ▸ hstart)
    (by simp [NodeKind.children, NodeKind.slots])
    (by simpa [NodeKind.slots] using ⟨helement, hdims⟩) rfl rfl

/-- A qubit type yields a type. -/
theorem qubitType_runs (hi : reading.Spec levels inner) (h : reading.Ready levels base)
    (hn : base.rest = token :: rest) (hb : isBrace token.kind = false) :
    reading.Runs (qubitType inner) base (reading.Yields False .type levels base)
      (reading.Dropped base) := by
  have h := Held.refl h
  rw [hn] at h
  refine h.currentSpan fun start hstart => h.advance hb fun after h => ?_
  refine h.yieldsOption (designator_runs hi h.ready) fun size more rest after _ hslot h => ?_
  exact h.endsFrom (.refl _) (by simp) (hn ▸ hstart)
    (by simp [NodeKind.children, NodeKind.slots]) (by simpa [NodeKind.slots] using hslot) rfl rfl

/-- A type of any kind yields a type. -/
theorem type_runs (hi : reading.Spec levels inner) (h : reading.Ready levels base) :
    reading.Runs (type inner) base (reading.Yields False .type levels base)
      (reading.Dropped base) := by
  refine (Held.refl h).peek ?_
  split
  · next hk =>
    obtain ⟨token, rest, hr, hk⟩ := exists_of_peek hk
    exact complexType_runs hi h hr (hk ▸ rfl)
  · next hk =>
    obtain ⟨token, rest, hr, hk⟩ := exists_of_peek hk
    exact arrayType_runs hi h hr (hk ▸ rfl)
  · next hk =>
    obtain ⟨token, rest, hr, hk⟩ := exists_of_peek hk
    exact qubitType_runs hi h hr (hk ▸ rfl)
  · exact scalarType_runs hi h

/-- A reference to an array yields a type. -/
theorem arrayRefType_runs (hi : reading.Spec levels inner) (h : reading.Ready levels base) :
    reading.Runs (arrayRefType inner) base (reading.Yields False .type levels base)
      (reading.Dropped base) := by
  have h0 := Held.refl h
  refine h0.currentSpan fun start hstart => h0.peek ?_
  split
  case h_3 => exact h0.unexpected_bind
  all_goals
    next hk =>
    obtain ⟨token, rest, hr, hk⟩ := exists_of_peek hk
    rw [hr] at h0
    refine Runs.pure_bind (h0.advance (hk ▸ rfl) fun after h => ?_)
    refine h.expect rfl fun token rest after _ _ h => ?_
    refine h.gives (fun node => [node]) (elementType_runs hi h.ready)
      fun element more rest after _ helement h => ?_
    refine h.accept rfl (fun token rest after _ _ h => ?_) ?_
    · refine h.expect rfl fun token rest after _ _ h => ?_
      refine h.yields (hi.expression _ h.ready) fun rank more rest after _ _ hrank _ h => ?_
      refine h.expect rfl fun token rest after _ _ h => ?_
      exact h.endsFrom (.refl _) (by simp) hstart
        (by simp [NodeKind.children, NodeKind.slots])
        (by simpa [NodeKind.slots] using ⟨helement, hrank⟩) rfl rfl
    · refine h.yieldsAll (expressions_runs hi h.ready) fun dims more rest after _ hdims h => ?_
      refine h.expect rfl fun token rest after _ _ h => ?_
      exact h.endsFrom (.refl _) (by simp) hstart
        (by simp [NodeKind.children, NodeKind.slots])
        (by simpa [NodeKind.slots] using ⟨helement, hdims⟩) rfl rfl

end

end Reading

end OpenQasm.Grammar
