import OpenQasm.Proofs.Grammar.Types

/-!
# Readings of expressions

Each production of expressions yields a node for its place. The nodes of binary operators and of
indexing take the node before them as their first child, so the loops over them keep that one node
has been yielded so far.
-/

namespace OpenQasm.Grammar.Reading

section
variable {reading : Reading} {levels : Nat} {inner : Level} {base state : State}
  {read ahead rest : List Token} {token : Token} {roots : List Placed} {braces : Nat} {slot : Slot}
  {stop : State → Prop}

/-! ## Literals -/

/-- A literal yields an expression, or the exponent that overflows halts the parser. -/
theorem literal_runs {text : List Char} {span : Span} {kind : LiteralKind}
    (h : reading.Held levels base read ahead [] 0 state) (hne : read ≠ [])
    (hspan : span = ⟨reading.context.source, reading.nextStart base.rest,
      endAfter base.previousEnd read⟩)
    (ho : Literal.read text kind = .error .overflow → reading.halts .exponentOverflow) :
    reading.Runs (literal text span kind) state (reading.Yields False .expression levels base)
      stop := by
  unfold literal
  split
  · exact h.ends (.refl _) hne rfl rfl rfl hspan rfl
  · next hread => exact ho hread
  · exact h.report rfl fun after h => h.ends (.refl _) hne rfl rfl rfl hspan rfl

/-- A number without `im` behind it is read by itself. -/
theorem number_single_runs (h : reading.Held levels base ([] ++ [token]) ahead [] 0 state)
    (hk : token.kind = .integer ∨ token.kind = .float ∨ token.kind = .suffixed)
    (him : token.kind = .integer ∨ token.kind = .float →
      ∀ im ∈ ahead.head?, im.kind ≠ Keyword.kwIm) :
    reading.Runs (number.single token) state (reading.Yields False .expression levels base)
      stop :=
  literal_runs h (by simp) h.token_span fun hread => h.overflows (.alone hk him) hread

/-- A number yields an expression, with the unit or the `im` behind it. -/
theorem number_runs (h : reading.Held levels base ([] ++ [token]) ahead [] 0 state)
    (hk : token.kind = .integer ∨ token.kind = .float ∨ token.kind = .suffixed) :
    reading.Runs (number token) state (reading.Yields False .expression levels base) stop := by
  have hspan := h.token_span
  refine h.current ?_
  cases ahead with
  | nil => exact number_single_runs h hk fun _ _ him => nomatch him
  | cons next rest =>
    refine Runs.ite (fun hm => ?_) fun hm => number_single_runs h hk ?_
    · simp only [Bool.and_eq_true, Bool.or_eq_true, beq_iff_eq] at hm
      obtain ⟨hplain, him⟩ := hm
      refine h.advance (him ▸ rfl) fun after h' => Runs.read (literal_runs h' (by simp) ?_ ?_)
      · rw [hspan, endAfter_append]
        rfl
      · exact fun hread => h.overflows (.merged hplain rfl him) hread
    · rintro hplain im hhead him
      obtain rfl := Option.some.inj hhead
      exact hm (by simpa [him] using hplain)

/-- A hardware qubit yields its node. -/
theorem hardwareQubit_runs (h : reading.Held levels base ([] ++ [token]) ahead [] 0 state)
    (hq : ∀ number, slot.accepts (.hardwareQubit number : NodeKind Placed)) :
    reading.Runs (hardwareQubit token) state (reading.Yields False slot levels base) stop := by
  unfold hardwareQubit
  split
  · exact h.ends (.refl _) (by simp) rfl rfl rfl h.token_span (hq _)
  · exact h.report rfl fun after h' =>
      h'.ends (.refl _) (by simp) rfl rfl rfl h.token_span (by cases slot <;> rfl)

/-- A token that is a node by itself. -/
theorem leaf_runs {kind : NodeKind Placed} (h : reading.Ready levels base)
    (hr : base.rest = token :: rest) (hb : isBrace token.kind = false) (hroots : kind.children = [])
    (hfresh : kind.isFresh) (hslot : slot.accepts kind) :
    reading.Runs (advance >>= fun _ => place kind token.span) base
      (reading.Yields False slot levels base) stop := by
  have hfit : kind.slots = [] := List.map_eq_nil_iff.1 hroots
  have h0 := Held.refl h
  rw [hr] at h0
  exact h0.advance hb fun after h =>
    h.ends (.refl _) (by simp) hroots (by rw [hfit]; rfl) hfresh h.token_span hslot

/-! ## Brackets -/

/-- One bound of a range yields an expression, if there is one. -/
theorem rangePart_runs (hi : reading.Spec levels inner) (h : reading.Ready levels base) :
    reading.Runs (rangePart inner) base
      (fun node => reading.YieldsAll False .expression levels base node.toList)
      (reading.Dropped base) := by
  refine (Held.refl h).peek ?_
  split
  · exact YieldsAll.nil h
  · exact YieldsAll.nil h
  · exact YieldsAll.nil h
  · exact YieldsAll.nil h
  · exact Runs.bind (hi.expression base h) fun node after hnode => (YieldsAll.nil h).snoc hnode

/-- What follows the first bound yields a range. -/
theorem rangeAfter_runs (hi : reading.Spec levels inner) {startSpan : Span} (start : Option Placed)
    (h : reading.Held levels base read ahead start.toList 0 state)
    (hstart : startSpan.start = reading.nextStart base.rest)
    (hslot : ∀ child ∈ start.toList, Slot.expression.accepts child.kind) :
    reading.Runs (rangeAfter inner startSpan start) state
      (reading.Yields False .indexItem levels base) (reading.Dropped base) := by
  refine h.expect rfl fun token rest after _ _ h => ?_
  refine h.yieldsOption (rangePart_runs hi h.ready) fun second more rest after _ hsecond h => ?_
  refine h.accept rfl (fun token rest after _ _ h => ?_) ?_
  · refine h.yieldsOption (rangePart_runs hi h.ready) fun third more rest after _ hthird h => ?_
    exact h.endsFrom (.refl _) (by simp) hstart (by simp [NodeKind.children, NodeKind.slots])
      (by simpa [NodeKind.slots] using ⟨by simpa using hslot, by simpa using hsecond,
        by simpa using hthird⟩) rfl rfl
  · exact h.endsFrom (.refl _) (by simp) hstart (by simp [NodeKind.children, NodeKind.slots])
      (by simpa [NodeKind.slots] using ⟨by simpa using hslot, by simpa using hsecond⟩) rfl rfl

/-- An index between brackets yields a range or an expression. -/
theorem rangeOrExpression_runs (hi : reading.Spec levels inner) (h : reading.Ready levels base) :
    reading.Runs (rangeOrExpression inner) base (reading.Yields False .indexItem levels base)
      (reading.Dropped base) := by
  have h0 := Held.refl h
  refine h0.currentSpan fun start hstart => h0.sees (fun _ _ _ _ => ?_) ?_
  · exact rangeAfter_runs hi none h0 hstart fun _ hc => nomatch hc
  · refine h0.yields (hi.expression _ h) fun first more rest after hne _ hslot hspan h => ?_
    refine h.sees (fun _ _ _ _ => ?_) ?_
    · exact rangeAfter_runs hi (some first) h hstart (by simpa using hslot)
    · exact h.yielded (.refl _) (by simpa using hne) (accepts_indexItem_of_expression hslot) hspan

/-- A set yields an index. -/
theorem setLiteral_runs (hi : reading.Spec levels inner) (h : reading.Ready levels base) :
    reading.Runs (setLiteral inner) base (reading.Yields False .indexItem levels base)
      (reading.Dropped base) := by
  refine (Held.refl h).expect_left fun token rest after hsplit _ h => ?_
  refine h.yieldsAll (expressions_runs hi h.ready) fun elements more rest after _ hslots h => ?_
  refine h.expect_right fun token rest after _ _ h => ?_
  exact h.endsFrom (.refl _) (by simp) (start_eq hsplit)
    (by simp [NodeKind.children, NodeKind.slots]) (by simpa [NodeKind.slots] using hslots) rfl rfl

/-- An index of either form yields an index. -/
theorem indexItem_runs (hi : reading.Spec levels inner) (h : reading.Ready levels base) :
    reading.Runs (indexItem inner) base (reading.Yields False .indexItem levels base)
      (reading.Dropped base) :=
  (Held.refl h).sees (fun _ _ _ _ => setLiteral_runs hi h) (rangeOrExpression_runs hi h)

/-- Items in brackets go over the node before them. -/
theorem indexed_runs (hi : reading.Spec levels inner) {node : Placed}
    (h : reading.Yields False slot levels base node state)
    (hexpr : Slot.expression.accepts node.kind)
    (hindex : ∀ base items, slot.accepts (.index base items : NodeKind Placed)) :
    reading.Runs (indexed inner node) state
      (fun node after => reading.Yields False slot levels base node after ∧
        after.rest.length < state.rest.length)
      (reading.Dropped base) := by
  obtain ⟨base', read, ahead, hr, hne, h, -, hspan⟩ := h
  obtain rfl := hr.fixed.resolve_left id
  have hrest := h.rest
  refine h.expect rfl fun token rest after hsplit _ h => ?_
  refine h.yieldsAll (joined_runs h.ready rfl fun _ => indexItem_runs hi)
    fun items more rest after hsplit' hitems h => ?_
  refine h.expect rfl fun token rest after hsplit'' _ h => ?_
  refine (h.placeFrom_yields (.refl _) (by simp) (by rw [hspan])
    (by simp [NodeKind.children, NodeKind.slots])
    (by simpa [NodeKind.slots] using ⟨hexpr, hitems⟩) rfl (hindex _ _)).conseq
    (fun node after hv => ⟨hv.1, ?_⟩) fun _ hs => hs
  rw [hv.2, hrest, hsplit, hsplit', hsplit'']
  simp only [List.length_cons, List.length_append]
  omega

/-- All items in brackets go over the node before them. -/
theorem indices_runs (hi : reading.Spec levels inner) {node : Placed}
    (h : reading.Yields False slot levels base node state)
    (hexpr : ∀ kind : NodeKind NodeId, slot.accepts kind → Slot.expression.accepts kind)
    (hindex : ∀ base items, slot.accepts (.index base items : NodeKind Placed)) :
    reading.Runs (indices inner node) state (reading.Yields False slot levels base)
      (reading.Dropped base) := by
  refine Runs.iterate (reading.Yields False slot levels base) (fun node state h => ?_) h
  obtain ⟨base', read, ahead, hr, -, hheld, hslot, -⟩ := id h
  obtain rfl := hr.fixed.resolve_left id
  refine hheld.sees (fun _ _ _ _ => ?_) h
  exact Runs.bind (indexed_runs hi h (hexpr _ hslot) hindex) fun _ _ hv => hv

/-! ## Operators -/

/-- A name yields an expression, with the arguments of a call. -/
theorem identifierOrCall_runs (hi : reading.Spec levels inner) (h : reading.Ready levels base)
    (hr : base.rest = token :: rest) :
    reading.Runs (identifierOrCall inner token) base
      (reading.Yields False .expression levels base) (reading.Dropped base) := by
  refine (Held.refl h).yields (identifier_runs h)
    fun callee more rest after hne _ hslot hspan h => ?_
  have hname := accepts_expression_of_name hslot
  refine h.accept rfl (fun _ rest after _ _ h => ?_)
    (h.yielded (.refl _) (by simpa using hne) hname hspan)
  refine h.yieldsAll (expressions_runs hi h.ready) fun args more rest after _ hargs h => ?_
  refine h.expect rfl fun _ rest after _ _ h => ?_
  exact h.endsFrom (.refl _) (by simp) (start_eq hr) (by simp [NodeKind.children, NodeKind.slots])
    (by simpa [NodeKind.slots] using ⟨hslot, hargs⟩) rfl rfl

/-- A cast yields an expression. -/
theorem castExpression_runs (hi : reading.Spec levels inner) (h : reading.Ready levels base)
    (hr : base.rest = token :: rest) :
    reading.Runs (castExpression inner token) base
      (reading.Yields False .expression levels base) (reading.Dropped base) := by
  refine (Held.refl h).yields (type_runs hi h) fun type more rest after _ _ htype _ h => ?_
  refine h.expect rfl fun _ rest after _ _ h => ?_
  refine h.yields (hi.expression _ h.ready) fun operand more rest after _ _ hoperand _ h => ?_
  refine h.expect rfl fun _ rest after _ _ h => ?_
  exact h.endsFrom (.refl _) (by simp) (start_eq hr) (by simp [NodeKind.children, NodeKind.slots])
    (by simpa [NodeKind.slots] using ⟨htype, hoperand⟩) rfl rfl

/-- A primary expression yields one, whatever token it starts with. -/
theorem primaryAt_runs (hi : reading.Spec levels inner) (h : reading.Ready levels base)
    (hr : base.rest = token :: rest) :
    reading.Runs (primaryAt inner token) base (reading.Yields False .expression levels base)
      (reading.Dropped base) := by
  have h0 := Held.refl h
  rw [hr] at h0
  unfold primaryAt
  split
  case h_10 hk =>
    exact h0.advance (hk ▸ rfl) fun after h => hardwareQubit_runs h fun _ => rfl
  case h_11 => exact identifierOrCall_runs hi h hr
  case h_12 hk =>
    refine h0.advance (hk ▸ rfl) fun after h => ?_
    refine h.yields (hi.expression _ h.ready) fun inside more rest after _ _ hslot _ h => ?_
    refine h.expect rfl fun _ rest after _ _ h => ?_
    exact h.endsFrom (.refl _) (by simp) (start_eq hr)
      (by simp [NodeKind.children, NodeKind.slots]) (by simpa [NodeKind.slots] using hslot) rfl rfl
  case h_13 hk =>
    refine h0.advance (hk ▸ rfl) fun after h => ?_
    refine h.expect rfl fun _ rest after _ _ h => ?_
    refine h.yields (block_runs hi h.ready) fun body more rest after _ _ hslot _ h => ?_
    refine h.expect rfl fun _ rest after _ _ h => ?_
    exact h.endsFrom (.refl _) (by simp) (start_eq hr)
      (by simp [NodeKind.children, NodeKind.slots]) (by simpa [NodeKind.slots] using hslot) rfl rfl
  case h_14 =>
    exact Runs.ite (fun _ => castExpression_runs hi h hr) fun _ => (Held.refl h).unexpected
  case h_1 hk | h_2 hk | h_3 hk =>
    exact h0.advance (hk ▸ rfl) fun after h => number_runs h (by simp [hk])
  case h_4 hk | h_5 hk | h_6 hk | h_7 hk | h_8 hk =>
    exact leaf_runs h hr (hk ▸ rfl) rfl rfl rfl
  case h_9 hk =>
    have hline : '\n' ∉ (token.text.drop 1).dropLast := fun hm =>
      h.oneLine hr (by simp [hk]) (by simp [hk]) (List.mem_of_mem_drop (List.dropLast_subset _ hm))
    exact leaf_runs h hr (hk ▸ rfl) rfl (decide_eq_true (Text.oneLine_ofList.2 hline)) rfl

/-- So it does where a token is left; else the parser fails. -/
theorem primary_runs (hi : reading.Spec levels inner) (h : reading.Ready levels base) :
    reading.Runs (primary inner) base (reading.Yields False .expression levels base)
      (reading.Dropped base) := by
  refine (Held.refl h).current ?_
  cases hr : base.rest with
  | nil => exact (Held.refl h).unexpected
  | cons token rest => exact primaryAt_runs hi h hr

/-- An indexed expression yields an expression. -/
theorem postfixExpression_runs (hi : reading.Spec levels inner) (h : reading.Ready levels base) :
    reading.Runs (postfixExpression inner) base (reading.Yields False .expression levels base)
      (reading.Dropped base) :=
  Runs.bind (primary_runs hi h) fun _ _ hnode =>
    indices_runs hi hnode (fun _ => id) fun _ _ => rfl

/-- Two nodes in a row that span all that was read span it together. -/
theorem Held.join_eq {left right : Placed}
    (h : reading.Held levels base read ahead [left, right] braces state)
    (hl : left.span.start = reading.nextStart base.rest)
    (hr : right.span.stop = endAfter base.previousEnd read) :
    left.span.join right.span = ⟨reading.context.source, reading.nextStart base.rest,
      endAfter base.previousEnd read⟩ := by
  obtain ⟨h1, h2, h3, h4, h5, h6, h7, -⟩ := h.row
  rw [Span.join, if_pos (h1.trans h5.symm), h1, Nat.min_eq_left (by omega),
    Nat.max_eq_right (by omega), hl, hr]

/-- A power yields an expression. -/
theorem power_runs (hi : reading.Spec levels inner) (h : reading.Ready levels base) :
    reading.Runs (power inner) base (reading.Yields False .expression levels base)
      (reading.Dropped base) := by
  refine (Held.refl h).yields (postfixExpression_runs hi h)
    fun left more rest after hne _ hleft hspan h => ?_
  refine h.accept rfl (fun token rest after _ _ h => ?_)
    (h.yielded (.refl _) (by simpa using hne) hleft hspan)
  refine h.yields (hi.unary _ h.ready) fun right more rest after _ _ hright hspan' h => ?_
  exact h.ends (.refl _) (by simp) rfl
    (by simpa [NodeKind.slots] using ⟨hleft, hright⟩) rfl
    (h.join_eq (by rw [hspan]) (by rw [hspan'])) rfl

/-- No operator is a brace. -/
theorem isBrace_of_unaryOp {kind : TokenKind} {op : UnaryOp} (h : unaryOp? kind = some op) :
    isBrace kind = false := by
  unfold isBrace
  split
  · cases h
  · cases h
  · rfl

/-- A binary operator is no brace. -/
theorem isBrace_of_binaryOp {kind : TokenKind} {op : BinaryOp} (h : binaryOp? kind = some op) :
    isBrace kind = false := by
  unfold isBrace
  split
  · cases h
  · cases h
  · rfl

/-- A unary expression yields an expression. -/
theorem unaryExpression_runs (hi : reading.Spec levels inner) (h : reading.Ready levels base) :
    reading.Runs (unaryExpression inner) base (reading.Yields False .expression levels base)
      (reading.Dropped base) := by
  have h0 := Held.refl h
  refine h0.peek ?_
  split
  · next op hop =>
    obtain ⟨kind, hk, hop⟩ := Option.bind_eq_some_iff.1 hop
    obtain ⟨token, rest, hr, rfl⟩ := exists_of_peek hk
    rw [hr] at h0
    refine h0.currentSpan fun start hstart => h0.advance (isBrace_of_unaryOp hop) fun after h => ?_
    refine h.yields (hi.unary _ h.ready) fun operand more rest after _ _ hslot _ h => ?_
    exact h.endsFrom (.refl _) (by simp) (hr ▸ hstart)
      (by simp [NodeKind.children, NodeKind.slots]) (by simpa [NodeKind.slots] using hslot) rfl rfl
  · exact power_runs hi h

/-- A climb keeps that one node has been yielded while its operators follow. -/
theorem binaryFrom_runs (hi : reading.Spec levels inner) (least : Nat) :
    ∀ base, reading.Ready levels base →
      reading.Runs (binaryFrom inner least) base (reading.Yields False .expression levels base)
        (reading.Dropped base) := by
  induction least using climb_induction with
  | _ least ih =>
  intro base h
  rw [binaryFrom_eq]
  refine Runs.bind (unaryExpression_runs hi h) fun first state hfirst => ?_
  refine Runs.iterate (reading.Yields False .expression levels base)
    (fun left state hleft => ?_) hfirst
  obtain ⟨base', read, ahead, hr, hne, hheld, hslot, hspan⟩ := id hleft
  obtain rfl := hr.fixed.resolve_left id
  refine hheld.peek ?_
  split
  · next op hop =>
    refine Runs.ite (fun _ => hleft) fun hle => ?_
    obtain ⟨kind, hk, hop⟩ := Option.bind_eq_some_iff.1 hop
    obtain ⟨token, rest, hsplit, rfl⟩ := exists_of_peek hk
    have hrest := hheld.rest
    rw [hsplit] at hheld
    refine hheld.advance (isBrace_of_binaryOp hop) fun after h => ?_
    refine h.yields (ih op (Nat.not_lt.1 hle) _ h.ready)
      fun right more rest' after _ hsplit' hright hspan' h => ?_
    refine Runs.bind (p := fun node last =>
      reading.Yields False .expression levels base' node last ∧ last.rest = rest')
      (h.place_yields (.refl _) (by simp) rfl (by simpa [NodeKind.slots] using ⟨hslot, hright⟩)
        rfl (h.join_eq (by rw [hspan]) (by rw [hspan'])) rfl) fun node last hnode => ?_
    refine ⟨hnode.1, ?_⟩
    rw [hnode.2, hrest, hsplit, hsplit']
    simp only [List.length_cons, List.length_append]
    omega
  · exact hleft

/-- A binary expression yields an expression. -/
theorem binaryExpression_runs (hi : reading.Spec levels inner) (h : reading.Ready levels base) :
    reading.Runs (binaryExpression inner) base (reading.Yields False .expression levels base)
      (reading.Dropped base) :=
  binaryFrom_runs hi 1 base h

/-! ## Values -/

/-- A gate operand yields an operand. -/
theorem operand_runs (hi : reading.Spec levels inner) (h : reading.Ready levels base) :
    reading.Runs (operand inner) base (reading.Yields False .operand levels base)
      (reading.Dropped base) := by
  have h0 := Held.refl h
  refine h0.current ?_
  cases hr : base.rest with
  | nil => exact h0.unexpected
  | cons token rest =>
    rw [hr] at h0
    dsimp only [List.head?_cons]
    split
    · next hk => exact h0.advance (hk ▸ rfl) fun after h => hardwareQubit_runs h fun _ => rfl
    · refine Runs.bind (identifier_runs h) fun node after hnode => ?_
      exact indices_runs hi (hnode.weaken accepts_operand_of_name)
        (fun _ => accepts_expression_of_operand) fun _ _ => rfl
    · exact h0.unexpected

/-- A list of operands yields operands. -/
theorem operands_runs (hi : reading.Spec levels inner) (h : reading.Ready levels base) :
    reading.Runs (operands inner) base (reading.YieldsAll False .operand levels base)
      (reading.Dropped base) :=
  (Held.refl h).sees (fun _ _ _ _ => YieldsAll.nil h)
    (joined_runs h rfl fun _ => operand_runs hi)

/-- A measurement yields a measurement. -/
theorem measurement_runs (hi : reading.Spec levels inner) (h : reading.Ready levels base) :
    reading.Runs (measurement inner) base (reading.Yields False .measurement levels base)
      (reading.Dropped base) := by
  refine (Held.refl h).expect rfl fun token rest after hsplit _ h => ?_
  refine h.yields (operand_runs hi h.ready) fun measured more rest after _ _ hslot _ h => ?_
  exact h.endsFrom (.refl _) (by simp) (start_eq hsplit)
    (by simp [NodeKind.children, NodeKind.slots]) (by simpa [NodeKind.slots] using hslot) rfl rfl

/-- The value of an assignment yields an expression. -/
theorem value_runs (hi : reading.Spec levels inner) (h : reading.Ready levels base) :
    reading.Runs (value inner) base (reading.Yields False .expression levels base)
      (reading.Dropped base) := by
  refine (Held.refl h).sees (fun _ _ _ _ => ?_) (hi.expression base h)
  exact (measurement_runs hi h).conseq
    (fun _ _ hv => hv.weaken accepts_expression_of_measurement) fun _ hs => hs

/-- An array literal yields an expression. -/
theorem arrayLiteral_runs (hi : reading.Spec levels inner) (h : reading.Ready levels base) :
    reading.Runs (arrayLiteral inner) base (reading.Yields False .expression levels base)
      (reading.Dropped base) := by
  refine (Held.refl h).expect_left fun token rest after hsplit _ h => ?_
  have hitem : ∀ state, reading.Ready levels state → reading.Runs
      (sees Symbol.leftBrace >>= fun seen =>
        if seen = true then inner .arrayLiteral else expression inner) state
      (reading.Yields False .expression levels state) (reading.Dropped state) := fun state hs =>
    (Held.refl hs).sees (fun _ _ _ _ => hi.arrayLiteral state hs) (hi.expression state hs)
  refine h.yieldsAll (separated_runs_fixed h.ready hitem)
    fun elements more rest after _ hslots h => ?_
  refine h.expect_right fun token rest after _ _ h => ?_
  exact h.endsFrom (.refl _) (by simp) (start_eq hsplit)
    (by simp [NodeKind.children, NodeKind.slots]) (by simpa [NodeKind.slots] using hslots) rfl rfl

end

end OpenQasm.Grammar.Reading
