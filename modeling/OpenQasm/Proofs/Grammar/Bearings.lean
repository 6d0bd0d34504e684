import OpenQasm.Grammar.Program
import OpenQasm.Proofs.Grammar.Bearing
import OpenQasm.Proofs.Grammar.Canonical
import OpenQasm.Proofs.Grammar.Texts

/-!
# What all productions make

Types, expressions, declarations and statements, each with how much higher the nodes that it yields
stand than those of the next level. Every text that is read is that of spans between cuts.
-/

namespace OpenQasm.Grammar.Cuts

/-- What the productions of the next level yield stands so low. -/
structure BearsLevel (cuts : Cuts) (inner : Level) (low : Nat) : Prop where
  expression : cuts.Bears (inner .expression : Parser Placed) low
  unary : cuts.Bears (inner .unary : Parser Placed) low
  scalarType : cuts.Bears (inner .scalarType : Parser Placed) low
  statement : cuts.Bears (inner .statement : Parser Placed) low
  blockItems : cuts.Bears (inner .blockItems : Parser (List Placed)) low
  cases : cuts.Bears (inner .cases : Parser (List Placed)) low
  arrayLiteral : cuts.Bears (inner .arrayLiteral : Parser Placed) low

variable {cuts : Cuts} {inner : Level} {low : Nat}

-- Whether the children of a node are held is seen from their lists.
attribute [local simp] NodeKind.branches NodeKind.children NodeKind.slots NodeKind.each
  NodeKind.maybe Bearing.nodes or_imp

/-! ## Pieces that stand on all levels -/

/-- Expressions between commas are those of the next level. -/
theorem expressions_bears (hi : cuts.BearsLevel inner low) {close : Symbol} :
    cuts.Bears (expressions inner close) low := .separated hi.expression

/-- A size is an expression of the next level. -/
theorem designator_bears (hi : cuts.BearsLevel inner low) : cuts.Bears (designator inner) low := by
  refine .over low (.skip .accept fun opened =>
    .ite ?_ (.pure (by omega) (by simp +contextual) rfl))
  exact .bind hi.expression (by omega) fun inside _ => .bind .expect (by omega) fun _ _ =>
    .pure (by omega) (by simp +contextual) rfl

/-- A block stands one above its statements. -/
theorem block_bears (hi : cuts.BearsLevel inner low) : cuts.Bears (block inner) (low + 1) := by
  refine .over low (.bind .expect (by omega) fun token htoken =>
    .bind hi.blockItems.blockOpen (by omega) fun items _ => ?_)
  exact .bind .expect (by omega) fun _ _ => .placeFrom htoken.token (by simp +contextual) rfl

/-! ## Types -/

/-- A complex type stands one above its component. -/
theorem complexType_bears (hi : cuts.BearsLevel inner low) :
    cuts.Bears (complexType inner) (low + 1) := by
  refine .over low (.bind .currentSpan (by omega) fun start hstart => .skip .advance fun _ => ?_)
  refine .skip .accept fun opened => .ite (.bind hi.scalarType (by omega) fun component _ => ?_) ?_
  · exact .bind .expect (by omega) fun _ _ =>
      .pureBind (.placeFrom hstart.span (by simp +contextual) rfl)
  · exact .pureBind (.placeFrom hstart.span (by simp +contextual) rfl)

/-- A type stands one above its size or its component. -/
theorem scalarType_bears (hi : cuts.BearsLevel inner low) :
    cuts.Bears (scalarType inner) (low + 1) := by
  refine .over low (.bind .currentSpan (by omega) fun start hstart => .skip .peek fun next => ?_)
  cases next.bind scalarKind? with
  | some scalar =>
    exact .skip .advance fun _ => .bind (designator_bears hi) (by omega) fun size _ =>
      .placeFrom hstart.span (by simp +contextual) rfl
  | none =>
    exact .skip .sees fun found =>
      .ite (.of (complexType_bears hi) (by omega)) (.of .unexpected (by omega))

/-- The type of elements is one of the lower types. -/
theorem elementType_bears (hi : cuts.BearsLevel inner low) :
    cuts.Bears (elementType inner) (low + 1) := by
  refine .over (low + 1) (.bind .expect (by omega) fun _ _ =>
    .bind (scalarType_bears hi) (by omega) fun element _ => ?_)
  exact .bind .expect (by omega) fun _ _ => .pure (by omega) (by simp +contextual) rfl

/-- An array stands one above the type of its elements. -/
theorem arrayType_bears (hi : cuts.BearsLevel inner low) :
    cuts.Bears (arrayType inner) (low + 2) := by
  refine .over (low + 1) (.bind .currentSpan (by omega) fun start hstart =>
    .skip .advance fun _ => ?_)
  refine .bind (elementType_bears hi) (by omega) fun element _ =>
    .bind (expressions_bears hi) (by omega) fun dims _ => ?_
  refine .ite (.skip .unexpected fun _ => ?_) ?_
  all_goals exact .bind .expect (by omega) fun _ _ =>
    .placeFrom hstart.span (by simp +contextual) rfl

/-- A register stands one above its size. -/
theorem qubitType_bears (hi : cuts.BearsLevel inner low) :
    cuts.Bears (qubitType inner) (low + 1) := by
  refine .over low (.bind .currentSpan (by omega) fun start hstart => .skip .advance fun _ => ?_)
  exact .bind (designator_bears hi) (by omega) fun size _ =>
    .placeFrom hstart.span (by simp +contextual) rfl

/-- The highest of the types is that of arrays. -/
theorem type_bears (hi : cuts.BearsLevel inner low) : cuts.Bears (type inner) (low + 2) := by
  refine .over low (.skip .peek fun next => ?_)
  split
  · exact .of (complexType_bears hi) (by omega)
  · exact .of (arrayType_bears hi) (by omega)
  · exact .of (qubitType_bears hi) (by omega)
  · exact .of (scalarType_bears hi) (by omega)

/-- A reference to an array stands as high as the array. -/
theorem arrayRefType_bears (hi : cuts.BearsLevel inner low) :
    cuts.Bears (arrayRefType inner) (low + 2) := by
  refine .over (low + 1) (.bind .currentSpan (by omega) fun start hstart =>
    .skip .peek fun next => ?_)
  split
  all_goals
    refine .skip (by first | exact .pure | exact .unexpected) fun changes => ?_
    refine .skip .advance fun _ => .bind .expect (by omega) fun _ _ => ?_
    refine .bind (elementType_bears hi) (by omega) fun element _ => .skip .accept fun ranked =>
      .ite ?_ ?_
    · refine .bind .expect (by omega) fun _ _ => .bind hi.expression (by omega) fun rank _ => ?_
      exact .bind .expect (by omega) fun _ _ => .placeFrom hstart.span (by simp +contextual) rfl
    · refine .bind (expressions_bears hi) (by omega) fun dims _ => ?_
      exact .bind .expect (by omega) fun _ _ => .placeFrom hstart.span (by simp +contextual) rfl

/-! ## Literals -/

section
variable {span : Span} {token : Token} {state : State} {rest : List Token}

/-- An error in place of a literal has nothing below it. -/
theorem misread_bears {message : String} (h : cuts.Lies span) :
    cuts.BearsOver [] 0 (report .literalError span message >>= fun _ => place .error span) 1 :=
  .skip (.report h) fun _ => .place h (by simp +contextual) rfl

/-- A literal has nothing below it. -/
theorem literal_bears {text : List Char} {kind : LiteralKind} (h : cuts.Lies span) :
    cuts.Bears (literal text span kind) 1 := by
  unfold literal
  cases Literal.read text kind with
  | ok value => exact .over 0 (.place h (by simp +contextual) rfl)
  | error problem =>
    cases problem with
    | overflow => exact fun _ hs => .throw hs
    | _ => exact .over 0 (misread_bears h)

/-- A physical qubit has nothing below it. -/
theorem hardwareQubit_bears (h : cuts.Lies token.span) : cuts.Bears (hardwareQubit token) 1 := by
  unfold hardwareQubit
  cases hardwareNumber? (token.text.drop 1) with
  | some value => exact .over 0 (.place h (by simp +contextual) rfl)
  | none => exact .over 0 (misread_bears h)

/-- What is ahead begins behind what has been read, so a number and the unit behind it join. -/
theorem number_goes (hs : cuts.Sited state) (h : cuts.Lies token.span)
    (hle : token.span.start ≤ state.previousEnd) :
    cuts.Goes (number token) state (Borne cuts 1) := by
  have hsingle : cuts.Goes (number.single token) state (Borne cuts 1) := literal_bears h state hs
  refine .head ?_
  cases hnext : state.rest.head? with
  | none => exact hsingle
  | some unit =>
    have hm : unit ∈ state.rest := List.mem_of_mem_head? hnext
    have hunit := hs.ahead unit hm
    have hlies : cuts.Lies ⟨token.span.source, token.span.start, unit.span.stop⟩ :=
      ⟨h.source, h.start, hunit.stop,
        Nat.le_trans (Nat.le_trans hle (hs.previousEnd_le hm)) hunit.le⟩
    dsimp only
    split
    · exact (Plain.advance state hs).bind fun _ after hs _ _ =>
        .read (literal_bears hlies after hs)
    · exact hsingle

end

/-! ## Expressions -/

/-- A part of a range is an expression of the next level. -/
theorem rangePart_bears (hi : cuts.BearsLevel inner low) : cuts.Bears (rangePart inner) low := by
  refine .over low (.skip .peek fun next => ?_)
  split
  all_goals first
    | exact .pure (by omega) (by simp +contextual) rfl
    | exact .of hi.expression.some (by omega)

/-- A range stands one above its parts. -/
theorem rangeAfter_bears (hi : cuts.BearsLevel inner low) {start : Span} (h : cuts.Lies start)
    {first : Option Placed} {held : List Placed} (hf : ∀ node ∈ first, node ∈ held) :
    cuts.BearsOver held low (rangeAfter inner start first) (low + 1) := by
  refine .bind .expect (by omega) fun _ _ =>
    .bind (rangePart_bears hi) (by omega) fun second _ => ?_
  refine .skip .accept fun stepped => .ite (.bind (rangePart_bears hi) (by omega) fun third _ =>
    ?_) ?_
  all_goals exact .placeFrom h (by simp_all [NodeKind.branches, NodeKind.children, NodeKind.slots,
    NodeKind.maybe, Bearing.nodes, or_imp]) rfl

/-- At most one node stands above the expressions. -/
theorem rangeOrExpression_bears (hi : cuts.BearsLevel inner low) :
    cuts.Bears (rangeOrExpression inner) (low + 1) := by
  refine .over low (.bind .currentSpan (by omega) fun start hstart => .skip .sees fun opened =>
    .ite ?_ ?_)
  · exact rangeAfter_bears hi hstart.span nofun
  · refine .bind hi.expression (by omega) fun first _ => .skip .sees fun ranged =>
      .ite ?_ (.pure (by omega) (by simp +contextual) rfl)
    exact rangeAfter_bears hi hstart.span fun _ hm => Option.some.inj hm ▸ List.mem_cons_self

/-- A set stands one above its elements. -/
theorem setLiteral_bears (hi : cuts.BearsLevel inner low) :
    cuts.Bears (setLiteral inner) (low + 1) := by
  refine .over low (.bind .expect (by omega) fun token htoken =>
    .bind (expressions_bears hi) (by omega) fun items _ => ?_)
  exact .bind .expect (by omega) fun _ _ => .placeFrom htoken.token (by simp +contextual) rfl

/-- The items of an index are sets, ranges or expressions. -/
theorem indexItem_bears (hi : cuts.BearsLevel inner low) :
    cuts.Bears (indexItem inner) (low + 1) :=
  .over low (.skip .sees fun opened =>
    .ite (.of (setLiteral_bears hi) (by omega)) (.of (rangeOrExpression_bears hi) (by omega)))

/-- The base may stand as low as the node over it: it goes on the chain. -/
theorem indexed_goes (hi : cuts.BearsLevel inner low) {base : Placed} {state : State} {height : Nat}
    (hle : low + 1 ≤ height) (hs : cuts.Sited state) (hb : Borne cuts (height + 1) base state) :
    cuts.Goes (indexed inner base) state (Borne cuts (height + 1)) := by
  refine (Bears.expect state hs).bind fun _ after hs hl _ => ?_
  have hb := hb.later hl (Nat.le_refl _)
  refine ((indexItem_bears hi).joined after hs).bind fun items after hs hl hitems => ?_
  have hb := hb.later hl (Nat.le_refl _)
  refine (Bears.expect after hs).bind fun _ after hs hl' _ => ?_
  have hb := hb.later hl' (Nat.le_refl _)
  have hitems := hitems.later hl' hle
  refine (Bears.spanFrom hb.sound.node after hs).bind fun span after hs hl hspan => ?_
  refine .place hs hspan.sound.span (fun child hm => ?_) fun child hm => ?_
  · exact (hitems.later hl (Nat.le_refl _)).low child hm
  · obtain rfl := Option.some.inj hm
    exact (hb.later hl (Nat.le_refl _)).low base List.mem_cons_self

/-- The base of an index does not count, so that all indices stand at one height. -/
theorem indices_bears (hi : cuts.BearsLevel inner low) {height : Nat} (hle : low + 1 ≤ height)
    {base : Placed} {held : List Placed} (hm : base ∈ held) :
    cuts.BearsOver held (height + 1) (indices inner base) (height + 1) := by
  intro state hs hheld
  refine .iterate (Borne cuts (height + 1)) (fun base state hs hb => ?_) hs
    ⟨⟨fun node hn => ?_, nofun⟩, fun node hn => ?_⟩
  · refine (Plain.sees state hs).bind fun opened after hs hl _ => ?_
    have hb := hb.later hl (Nat.le_refl _)
    split
    · exact (indexed_goes hi hle hs hb).bind fun node after hs _ hnode => .pure hs hnode
    · exact .pure hs hb
  · exact hheld.sound.nodes node (List.mem_singleton.1 hn ▸ hm)
  · exact hheld.low node (List.mem_singleton.1 hn ▸ hm)

/-- A call stands one above its arguments. -/
theorem identifierOrCall_bears (hi : cuts.BearsLevel inner low) {token : Token}
    (h : cuts.Lies token.span) : cuts.Bears (identifierOrCall inner token) (low + 2) := by
  refine .over (low + 1) (.bind .identifier (by omega) fun callee _ => .skip .accept fun opened =>
    .ite ?_ (.pure (by omega) (by simp +contextual) rfl))
  exact .bind (expressions_bears hi) (by omega) fun args _ => .bind .expect (by omega) fun _ _ =>
    .placeFrom h (by simp +contextual) rfl

/-- A cast stands one above its type. -/
theorem castExpression_bears (hi : cuts.BearsLevel inner low) {token : Token}
    (h : cuts.Lies token.span) : cuts.Bears (castExpression inner token) (low + 3) := by
  refine .over (low + 2) (.bind (type_bears hi) (by omega) fun type _ =>
    .bind .expect (by omega) fun _ _ => ?_)
  exact .bind hi.expression (by omega) fun operand _ => .bind .expect (by omega) fun _ _ =>
    .placeFrom h (by simp +contextual) rfl

/-- What has been read ends where the token just read does. -/
theorem advance_goes {token : Token} {state : State} (hs : cuts.Sited state)
    (hr : state.rest.head? = some token) :
    cuts.Goes advance state fun _ after => after.previousEnd = token.span.stop := by
  refine ⟨(hs.pass 1).1, (hs.pass 1).2, ?_⟩
  obtain ⟨rest, hrest⟩ := List.head?_eq_some_iff.1 hr
  show (State.pass 1 state).previousEnd = _
  rw [State.pass, hrest]
  rfl

/-- The token is the one that the state is at, so that a unit ahead stands behind it. -/
theorem primaryAt_goes (hi : cuts.BearsLevel inner low) {token : Token} {state : State}
    (hs : cuts.Sited state) (hr : state.rest.head? = some token) :
    cuts.Goes (primaryAt inner token) state (Borne cuts (low + 3)) := by
  have h : cuts.Lies token.span := hs.ahead token (List.mem_of_mem_head? hr)
  have hnumber : cuts.Goes (advance >>= fun _ => number token) state (Borne cuts (low + 3)) := by
    refine (advance_goes hs hr).bind fun _ after hs _ hend => ?_
    exact (number_goes hs h (hend ▸ h.le)).mono fun _ _ _ hv => hv.later (.refl _) (by omega)
  have hleaf {kind : NodeKind Placed} (hb : kind.branches = []) (hc : kind.chained? = none) :
      cuts.Goes (advance >>= fun _ => place kind token.span) state (Borne cuts (low + 3)) := by
    refine Bears.over (low + 2) (.skip .advance fun _ => .place h ?_ hc) state hs
    rw [hb]
    exact nofun
  unfold primaryAt
  split
  iterate 3 exact hnumber
  iterate 6 exact hleaf rfl rfl
  · exact Bears.over (low + 2) (.skip .advance fun _ =>
      .of (hardwareQubit_bears h) (by omega)) state hs
  · exact (identifierOrCall_bears hi h).mono (by omega) state hs
  · refine Bears.over (low + 2) (.skip .advance fun _ =>
      .bind hi.expression (by omega) fun inside _ => ?_)
      state hs
    exact .bind .expect (by omega) fun _ _ => .placeFrom h (by simp +contextual) rfl
  · refine Bears.over (low + 2) (.skip .advance fun _ => .bind .expect (by omega) fun _ _ =>
      ?_) state hs
    exact .bind (block_bears hi) (by omega) fun body _ => .bind .expect (by omega) fun _ _ =>
      .placeFrom h (by simp +contextual) rfl
  · split
    · exact castExpression_bears hi h state hs
    · exact Bears.unexpected.mono (by omega) state hs

/-- The highest of the primaries is the cast. -/
theorem primary_bears (hi : cuts.BearsLevel inner low) : cuts.Bears (primary inner) (low + 3) := by
  intro state hs
  refine .head ?_
  cases hr : state.rest.head? with
  | none => exact Bears.unexpected.mono (by omega) state hs
  | some token => exact primaryAt_goes hi hs hr

/-- Indices add nothing to what they are indices of. -/
theorem postfixExpression_bears (hi : cuts.BearsLevel inner low) :
    cuts.Bears (postfixExpression inner) (low + 3) :=
  .over (low + 3) (.bind (primary_bears hi) (by omega) fun base _ =>
    indices_bears hi (Nat.le_succ _) List.mem_cons_self)

/-- A power stands one above its base. -/
theorem power_bears (hi : cuts.BearsLevel inner low) : cuts.Bears (power inner) (low + 4) := by
  refine .over (low + 3) (.bind (postfixExpression_bears hi) (by omega) fun base hbase => ?_)
  refine .skip .accept fun raised => .ite (.bind hi.unary (by omega) fun exponent hexponent =>
    ?_) (.pure (by omega) (by simp +contextual) rfl)
  exact .place (hbase.node.join hexponent.node) (by simp +contextual) rfl

/-- A sign stands above what is nested, a power above its base. -/
theorem unaryExpression_bears (hi : cuts.BearsLevel inner low) :
    cuts.Bears (unaryExpression inner) (low + 4) := by
  refine .over (low + 3) (.skip .peek fun next => ?_)
  cases next.bind unaryOp? with
  | some op =>
    refine .bind .currentSpan (by omega) fun start hstart => .skip .advance fun _ => ?_
    exact .bind hi.unary (by omega) fun operand _ =>
      .placeFrom hstart.span (by simp +contextual) rfl
  | none => exact .of (power_bears hi) (by omega)

/-- An operator ahead is no power, so that its left operand is the rest of a chain. Its right
operand has tighter operators only, of which there are so many. -/
theorem binaryFrom_bears (hi : cuts.BearsLevel inner low) (least : Nat) :
    cuts.Bears (binaryFrom inner least) (low + 4 + (BinaryOp.tightest - least)) := by
  induction least using climb_induction with
  | _ least ih =>
    intro state hs
    rw [binaryFrom_eq]
    refine (unaryExpression_bears hi state hs).bind fun first state hs _ hfirst => ?_
    refine .iterate (Borne cuts (low + 4 + (BinaryOp.tightest - least)))
      (fun lhs state hs hlhs => ?_) hs (hfirst.later (.refl _) (Nat.le_add_right _ _))
    refine (Plain.peek state hs).bind fun next state hs hl _ => ?_
    have hlhs := hlhs.later hl (Nat.le_refl _)
    cases hop : next.bind binaryOp? with
    | none => exact .pure hs hlhs
    | some op =>
      by_cases hlt : op.precedence < least
      · simp only [if_pos hlt]
        exact .pure hs hlhs
      simp only [if_neg hlt]
      obtain ⟨kind, -, hkind⟩ := Option.bind_eq_some_iff.1 hop
      have hne : op ≠ .pow := ne_pow_of_binaryOp hkind
      obtain ⟨height, hheight, hright⟩ : ∃ height,
          low + 4 + (BinaryOp.tightest - least) = height + 1 ∧
            low + 4 + (BinaryOp.tightest - (op.precedence + 1)) ≤ height := by
        have := BinaryOp.precedence_lt_tightest hne
        exact ⟨low + 4 + (BinaryOp.tightest - least) - 1, by omega, by omega⟩
      rw [hheight] at hlhs ⊢
      refine (Plain.advance state hs).bind fun _ state hs hl _ => ?_
      have hlhs := hlhs.later hl (Nat.le_refl _)
      refine (ih op (Nat.not_lt.1 hlt) state hs).bind fun rhs state hs hl hrhs => ?_
      have hlhs := hlhs.later hl (Nat.le_refl _)
      have hrhs := hrhs.later (.refl _) hright
      refine (Goes.place hs (hlhs.sound.node.join hrhs.sound.node) ?_ ?_).bind
        fun node state hs _ hnode => .pure hs hnode
      · simpa [NodeKind.branches, hne] using hrhs.low rhs List.mem_cons_self
      · simpa [NodeKind.chained?, hne] using hlhs.low lhs List.mem_cons_self

/-- All operators from the loosest on. -/
theorem binaryExpression_bears (hi : cuts.BearsLevel inner low) :
    cuts.Bears (binaryExpression inner) (low + 14) := binaryFrom_bears hi 1

/-! ## Values -/

/-- The operand of a gate is a name with indices. -/
theorem operand_bears (hi : cuts.BearsLevel inner low) : cuts.Bears (operand inner) (low + 2) := by
  refine .over (low + 2) (.bind .current (by omega) fun next hnext => ?_)
  cases next with
  | none => exact .of .unexpected (by omega)
  | some token =>
    dsimp only
    split
    · exact .skip .advance fun _ => .of (hardwareQubit_bears hnext.of_some) (by omega)
    · exact .bind .identifier (by omega) fun name _ =>
        indices_bears hi (Nat.le_refl _) List.mem_cons_self
    · exact .of .unexpected (by omega)

/-- All operands stand as low as each of them. -/
theorem operands_bears (hi : cuts.BearsLevel inner low) :
    cuts.Bears (operands inner) (low + 2) :=
  .over (low + 2) (.skip .sees fun none =>
    .ite (.pure (by omega) (by simp +contextual) rfl) (.of (operand_bears hi).joined (by omega)))

/-- A measurement stands one above its operand. -/
theorem measurement_bears (hi : cuts.BearsLevel inner low) :
    cuts.Bears (measurement inner) (low + 3) :=
  .over (low + 2) (.bind .expect (by omega) fun token htoken =>
    .bind (operand_bears hi) (by omega) fun measured _ =>
      .placeFrom htoken.token (by simp +contextual) rfl)

/-- A measurement is higher than an expression of the next level. -/
theorem value_bears (hi : cuts.BearsLevel inner low) : cuts.Bears (value inner) (low + 3) :=
  .over low (.skip .sees fun measured =>
    .ite (.of (measurement_bears hi) (by omega)) (.of hi.expression (by omega)))

/-- A literal in braces stands one above its elements. -/
theorem arrayLiteral_bears (hi : cuts.BearsLevel inner low) :
    cuts.Bears (arrayLiteral inner) (low + 1) := by
  have hitem : cuts.Bears (do
      if ← sees Symbol.leftBrace then inner .arrayLiteral else expression inner) low :=
    .over low (.skip .sees fun opened =>
      .ite (.of hi.arrayLiteral (by omega)) (.of hi.expression (by omega)))
  refine .over low (.bind .expect (by omega) fun token htoken =>
    .bind hitem.separated (by omega) fun elements _ => ?_)
  exact .bind .expect (by omega) fun _ _ => .placeFrom htoken.token (by simp +contextual) rfl

/-! ## Directives -/

/-- A version has nothing below it. -/
theorem versionStatement_bears : cuts.Bears versionStatement 1 := by
  refine .over 0 (.get fun state => .bind .expect (by omega) fun token htoken => ?_)
  refine .ite ?_ (.skip (.report htoken.token) fun _ => ?_)
  all_goals
    refine .bind .current (by omega) fun next _ => ?_
    cases next with
    | none => exact .of .unexpected (by omega)
    | some number =>
      refine .ite ?_ (.of .unexpected (by omega))
      cases version? number.text with
      | none => exact .of .failSyntax (by omega)
      | some version =>
        refine .skip .advance fun _ => .bind .expect (by omega) fun _ _ =>
          .ite ?_ (.placeFrom htoken.token (by simp +contextual) rfl)
        refine .skip (.modify fun state hs => ?_) fun _ =>
          .placeFrom htoken.token (by simp +contextual) rfl
        exact ⟨{ hs with }, .refl _, Nat.le_refl _⟩

/-- A text is no node. -/
theorem stringText_plain {what : String} : cuts.Plain (stringText what) := by
  refine .bind Bears.current.plain fun next => ?_
  cases next with
  | none => exact .unexpected
  | some token => exact .ite (.bind .advance fun _ => .pure) .unexpected

/-- An include has nothing below it before it is resolved. -/
theorem includeStatement_bears : cuts.Bears includeStatement 1 := by
  refine .over 0 (.bind .expect (by omega) fun token htoken => .get fun state => ?_)
  refine .ite (.skip (.report htoken.token) fun _ => ?_) ?_
  all_goals
    exact .skip stringText_plain fun path => .bind .expect (by omega) fun _ _ =>
      .placeFrom htoken.token (by simp +contextual) rfl

/-- The name of a grammar is no node. -/
theorem calibrationGrammar_bears : cuts.Bears calibrationGrammar 1 := by
  refine .over 0 (.bind .expect (by omega) fun token htoken =>
    .skip stringText_plain fun name => ?_)
  refine .bind .expect (by omega) fun _ _ =>
    .bind (.spanFrom htoken.token) (by omega) fun span hspan => ?_
  exact .skip (.requireVersion3 hspan.span) fun _ => .place hspan.span (by simp +contextual) rfl

/-- A pragma has nothing below it. -/
theorem pragma_bears {token : Token} (h : cuts.Lies token.span) : cuts.Bears (pragma token) 1 :=
  .over 0 (.place h (by simp +contextual) rfl)

/-- An annotation has nothing below it. -/
theorem annotationLine_bears {token : Token} (h : cuts.Lies token.span) :
    cuts.Bears (annotationLine token) 1 := by
  unfold annotationLine
  exact .over 0 (.place h (by simp +contextual) rfl)

/-- The body of a calibration is no node. -/
theorem calibrationBody_plain : cuts.Plain calibrationBody :=
  .bind Bears.expect.plain fun _ => .pure

/-- A calibration has nothing below it. -/
theorem cal_bears : cuts.Bears cal 1 := by
  refine .over 0 (.bind .expect (by omega) fun token htoken =>
    .skip calibrationBody_plain fun body => ?_)
  refine .bind (.spanFrom htoken.token) (by omega) fun span hspan => ?_
  exact .skip (.requireVersion3 hspan.span) fun _ => .place hspan.span (by simp +contextual) rfl

/-- The signature of a calibration is no node. -/
theorem defcal_bears : cuts.Bears defcal 1 := by
  refine .over 0 (.bind .expect (by omega) fun token htoken =>
    .bind .current (by omega) fun next _ => ?_)
  cases next with
  | none => exact .of .unexpected (by omega)
  | some first =>
    refine .ite (.skip .unexpected fun _ => ?_) ?_
    all_goals
      refine .get fun state => .skip .passOver fun _ => .read (.get fun after => ?_)
      refine .skip calibrationBody_plain fun body =>
        .bind (.spanFrom htoken.token) (by omega) fun span hspan => ?_
      exact .skip (.requireVersion3 hspan.span) fun _ => .place hspan.span (by simp +contextual) rfl

/-! ## Declarations -/

/-- A declaration of qubits stands above a name and a size. -/
theorem qubitDecl_bears (hi : cuts.BearsLevel inner low) :
    cuts.Bears (qubitDecl inner) (low + 2) := by
  refine .over (low + 1) (.bind .expect (by omega) fun token htoken =>
    .bind (designator_bears hi) (by omega) fun size _ => ?_)
  refine .bind .identifier (by omega) fun name hname => .bind .expect (by omega) fun _ _ => ?_
  exact .skip (.declare hname.node) fun _ => .placeFrom htoken.token (by simp +contextual) rfl

/-- The text of a span is no node. -/
theorem spanText_plain {span : Span} : cuts.Plain (spanText span) := .read .pure

/-- A suggestion is no node. -/
theorem registerReplacement_plain {register : RegisterKind} {name : Placed} {size : Option Placed} :
    cuts.Plain (registerReplacement register name size) := by
  refine .bind spanText_plain fun nameText => ?_
  cases size with
  | some size => exact .bind spanText_plain fun sizeText => .pure
  | none => exact .pure

/-- The text to replace ends where reading was before the semicolon. -/
theorem registerDecl_bears (hi : cuts.BearsLevel inner low) {register : RegisterKind} :
    cuts.Bears (registerDecl inner register) (low + 2) := by
  intro state hs
  refine .head ?_
  cases hr : state.rest.head? with
  | none => exact Bears.unexpected.mono (by omega) state hs
  | some keyword =>
    have h : cuts.Lies keyword.span := hs.ahead keyword (List.mem_of_mem_head? hr)
    refine (advance_goes hs hr).bind fun _ state hs _ hend => ?_
    refine (Bears.identifier state hs).bind fun name named hs hl hname => ?_
    refine (designator_bears hi named hs).bind fun size sized hs hl' hsize => .get ?_
    have hstart : keyword.span.start ≤ sized.previousEnd := by
      have := (hl.trans hl').previousEnd
      have := h.le
      omega
    have hfix : cuts.Lies ⟨keyword.span.source, keyword.span.start, sized.previousEnd⟩ :=
      ⟨h.source, h.start, hs.previousEnd, hstart⟩
    have hname := hname.later hl' (Nat.le_add_left 1 low)
    have hsize := hsize.later (.refl sized) (Nat.le_succ low)
    refine BearsOver.bind .expect (Nat.zero_le _) (fun _ _ => ?_) sized hs
      (hname.held.append hsize.held)
    refine .skip (.declare hname.sound.node) fun _ => .skip registerReplacement_plain fun text => ?_
    refine .skip (.deprecated h fun _ hm => Option.some.inj hm ▸ hfix) fun _ => ?_
    exact .placeFrom h (by simp +contextual) rfl

/-- A number that becomes an angle stands where it stood. -/
theorem initializer_bears (hi : cuts.BearsLevel inner low) {type : Placed} :
    cuts.Bears (initializer inner type) (low + 3) := by
  refine .over (low + 3) (.skip .sees fun braced => .ite
    (.bind (arrayLiteral_bears hi) (by omega) fun value _ =>
      ?_) (.bind (value_bears hi) (by omega) fun value _ => ?_))
  all_goals
    split
    · exact .retagAngle List.mem_cons_self
    · exact .pure (by omega) (by simp +contextual) rfl

/-- A declaration stands one above its value, a measurement at most. -/
theorem classicalDecl_bears (hi : cuts.BearsLevel inner low) :
    cuts.Bears (classicalDecl inner) (low + 4) := by
  refine .over (low + 3) (.bind .currentSpan (by omega) fun start hstart =>
    .bind (type_bears hi) (by omega) fun type htype => ?_)
  refine .skip (.requireVersion3 htype.node) fun _ =>
    .bind .identifier (by omega) fun name hname => ?_
  refine .skip .accept fun assigned =>
    .ite (.bind (initializer_bears hi).some (by omega) fun init _ => ?_)
    (.pureBind ?_)
  all_goals
    exact .bind .expect (by omega) fun _ _ => .skip (.declare hname.node) fun _ =>
      .placeFrom hstart.span (by simp +contextual) rfl

/-- A constant stands one above its value. -/
theorem constDecl_bears (hi : cuts.BearsLevel inner low) :
    cuts.Bears (constDecl inner) (low + 4) := by
  refine .over (low + 3) (.bind .expect (by omega) fun token htoken =>
    .bind (type_bears hi) (by omega) fun type _ => ?_)
  refine .bind .identifier (by omega) fun name hname => .bind .expect (by omega) fun _ _ => ?_
  refine .bind (initializer_bears hi) (by omega) fun init _ =>
    .bind .expect (by omega) fun _ _ => ?_
  refine .bind (.spanFrom htoken.token) (by omega) fun span hspan => ?_
  refine .skip (.requireVersion3 hspan.span) fun _ => .skip (.declare hname.node) fun _ => ?_
  exact .place hspan.span (by simp +contextual) rfl

/-- An input or output stands one above its type. -/
theorem ioDecl_bears (hi : cuts.BearsLevel inner low) {direction : Direction} :
    cuts.Bears (ioDecl inner direction) (low + 3) := by
  refine .over (low + 2) (.bind .current (by omega) fun next hnext => ?_)
  cases next with
  | none => exact .of .unexpected (by omega)
  | some keyword =>
    refine .skip .advance fun _ => .bind (type_bears hi) (by omega) fun type _ => ?_
    refine .bind .identifier (by omega) fun name hname => .bind .expect (by omega) fun _ _ => ?_
    refine .bind (.spanFrom hnext.of_some) (by omega) fun span hspan => ?_
    refine .skip (.requireVersion3 hspan.span) fun _ => .skip (.declare hname.node) fun _ => ?_
    exact .place hspan.span (by simp +contextual) rfl

/-- An alias stands one above its parts. -/
theorem aliasDecl_bears (hi : cuts.BearsLevel inner low) :
    cuts.Bears (aliasDecl inner) (low + 2) := by
  refine .over (low + 1) (.bind .expect (by omega) fun token htoken =>
    .bind .identifier (by omega) fun name hname => ?_)
  refine .bind .expect (by omega) fun _ _ => .bind hi.expression.joined (by omega) fun parts _ => ?_
  refine .bind .expect (by omega) fun _ _ =>
    .bind (.spanFrom htoken.token) (by omega) fun span hspan => ?_
  refine .skip (.requireVersion3 hspan.span) fun _ => .skip (.declare hname.node) fun _ => ?_
  exact .place hspan.span (by simp +contextual) rfl

/-- Parameters are identifiers. -/
theorem gateParams_bears : cuts.Bears gateParams 1 := by
  refine .over 1 (.skip .accept fun opened => .ite ?_ (.pure (by omega) (by simp +contextual) rfl))
  exact .bind Bears.identifier.separated (by omega) fun params _ =>
    .bind .expect (by omega) fun _ _ => .pure (by omega) (by simp +contextual) rfl

/-- Names are declared one after the other. -/
theorem declareAll_plain {names : List Placed} (h : ∀ name ∈ names, cuts.Lies name.span) :
    cuts.Plain (names.forM declare) := by
  induction names with
  | nil => exact .pure
  | cons name names ih =>
    exact .bind (.declare (h name List.mem_cons_self)) fun _ =>
      ih fun other ho => h other (List.mem_cons_of_mem _ ho)

/-- A gate stands one above its block. -/
theorem gateDef_bears (hi : cuts.BearsLevel inner low) : cuts.Bears (gateDef inner) (low + 2) := by
  have hparts : cuts.Bears (do
      let params ← gateParams
      let qubits ← identifiers Symbol.leftBrace
      if qubits.isEmpty then unexpected "qubit argument"
      (params ++ qubits).forM declare
      return (params, qubits, ← block inner)) (low + 1) := by
    refine .over (low + 1) (.bind gateParams_bears (by omega) fun params hparams => ?_)
    refine .bind Bears.identifier.separated (by omega) fun qubits hqubits => ?_
    have hnames : ∀ name ∈ params ++ qubits, cuts.Lies name.span := fun name hm =>
      (List.mem_append.1 hm).elim (hparams.nodes name) (hqubits.nodes name)
    refine .ite (.skip .unexpected fun _ => ?_) ?_
    all_goals
      exact .skip (declareAll_plain hnames) fun _ =>
        .bind (block_bears hi) (by omega) fun body _ => .pure (by omega) (by simp +contextual) rfl
  refine .over (low + 1) (.bind .expect (by omega) fun token htoken =>
    .bind .identifier (by omega) fun name hname => ?_)
  refine .bind hparts.inScope (by omega) fun parts _ => ?_
  obtain ⟨params, qubits, body⟩ := parts
  exact .skip (.declare hname.node) fun _ => .placeFrom htoken.token (by simp +contextual) rfl

/-- A gate without a body stands above identifiers. -/
theorem opaqueDecl_bears : cuts.Bears opaqueDecl 2 := by
  refine .over 1 (.bind .expect (by omega) fun token htoken =>
    .bind .identifier (by omega) fun name hname => ?_)
  refine .bind gateParams_bears (by omega) fun params _ =>
    .bind Bears.identifier.separated (by omega) fun qubits _ => ?_
  refine .bind .expect (by omega) fun _ _ => .skip (.deprecated htoken.token nofun) fun _ => ?_
  exact .skip (.declare hname.node) fun _ => .placeFrom htoken.token (by simp +contextual) rfl

/-- A register as a parameter stands above a name and a size. -/
theorem registerParam_bears (hi : cuts.BearsLevel inner low) {register : RegisterKind} :
    cuts.Bears (registerParam inner register) (low + 2) := by
  refine .over (low + 1) (.bind .currentSpan (by omega) fun start hstart =>
    .skip .advance fun _ => ?_)
  refine .bind .identifier (by omega) fun name hname =>
    .bind (designator_bears hi) (by omega) fun size _ => ?_
  exact .skip (.declare hname.node) fun _ => .placeFrom hstart.span (by simp +contextual) rfl

/-- The highest type of a parameter is that of arrays. -/
theorem paramType_bears (hi : cuts.BearsLevel inner low) :
    cuts.Bears (paramType inner) (low + 2) := by
  refine .over low (.skip .peek fun next => ?_)
  split
  · exact .of (arrayRefType_bears hi) (by omega)
  · exact .of (arrayRefType_bears hi) (by omega)
  · exact .of (type_bears hi) (by omega)

/-- A parameter stands one above its type. -/
theorem subroutineParam_bears (hi : cuts.BearsLevel inner low) :
    cuts.Bears (subroutineParam inner) (low + 3) := by
  refine .over (low + 2) (.bind .currentSpan (by omega) fun start hstart =>
    .skip .peek fun next => ?_)
  split
  · exact .of (registerParam_bears hi) (by omega)
  · exact .of (registerParam_bears hi) (by omega)
  · refine .bind (paramType_bears hi) (by omega) fun type _ =>
      .bind .identifier (by omega) fun name hname => ?_
    exact .skip (.declare hname.node) fun _ => .placeFrom hstart.span (by simp +contextual) rfl

/-- The type of a result is a type. -/
theorem returnType_bears (hi : cuts.BearsLevel inner low) :
    cuts.Bears (returnType inner) (low + 2) :=
  .over low (.skip .accept fun found =>
    .ite (.of (type_bears hi).some (by omega)) (.pure (by omega) (by simp +contextual) rfl))

/-- A subroutine stands one above its parameters. -/
theorem subroutineDef_bears (hi : cuts.BearsLevel inner low) :
    cuts.Bears (subroutineDef inner) (low + 4) := by
  have hparts : cuts.Bears (do
      let _ ← expect Symbol.leftParen
      let params ← separated Symbol.rightParen (subroutineParam inner)
      let _ ← expect Symbol.rightParen
      let returnType ← returnType inner
      return (params, returnType, ← block inner)) (low + 3) := by
    refine .over (low + 3) (.bind .expect (by omega) fun _ _ => ?_)
    refine .bind (subroutineParam_bears hi).separated (by omega) fun params _ =>
      .bind .expect (by omega) fun _ _ => ?_
    exact .bind (returnType_bears hi) (by omega) fun result _ =>
      .bind (block_bears hi) (by omega) fun body _ => .pure (by omega) (by simp +contextual) rfl
  refine .over (low + 3) (.bind .expect (by omega) fun token htoken =>
    .bind .identifier (by omega) fun name hname => ?_)
  refine .bind hparts.inScope (by omega) fun parts _ => ?_
  obtain ⟨params, result, body⟩ := parts
  refine .skip (.requireVersion3 htoken.token) fun _ => .skip (.declare hname.node) fun _ => ?_
  exact .placeFrom htoken.token (by simp +contextual) rfl

/-- A register without a name stands above its size. -/
theorem registerType_bears (hi : cuts.BearsLevel inner low) :
    cuts.Bears (registerType inner) (low + 1) := by
  refine .over low (.bind .currentSpan (by omega) fun start hstart => .skip .advance fun _ => ?_)
  exact .bind (designator_bears hi) (by omega) fun size _ =>
    .placeFrom hstart.span (by simp +contextual) rfl

/-- A parameter without a name is its type. -/
theorem externParam_bears (hi : cuts.BearsLevel inner low) :
    cuts.Bears (externParam inner) (low + 2) := by
  refine .over low (.skip .peek fun next => ?_)
  split
  · exact .of (registerType_bears hi) (by omega)
  · exact .of (paramType_bears hi) (by omega)

/-- A declaration stands one above the types of its parameters. -/
theorem externDecl_bears (hi : cuts.BearsLevel inner low) :
    cuts.Bears (externDecl inner) (low + 3) := by
  refine .over (low + 2) (.bind .expect (by omega) fun token htoken =>
    .bind .identifier (by omega) fun name hname => ?_)
  refine .bind .expect (by omega) fun _ _ =>
    .bind (externParam_bears hi).separated (by omega) fun params _ => ?_
  refine .bind .expect (by omega) fun _ _ =>
    .bind (returnType_bears hi) (by omega) fun result _ => ?_
  refine .bind .expect (by omega) fun _ _ =>
    .bind (.spanFrom htoken.token) (by omega) fun span hspan => ?_
  refine .skip (.requireVersion3 hspan.span) fun _ => .skip (.declare hname.node) fun _ => ?_
  exact .place hspan.span (by simp +contextual) rfl

/-! ## Statements -/

/-- A delay stands one above its operands. -/
theorem delay_bears (hi : cuts.BearsLevel inner low) : cuts.Bears (delay inner) (low + 3) := by
  refine .over (low + 2) (.bind .expect (by omega) fun token htoken =>
    .bind .expect (by omega) fun _ _ => ?_)
  refine .bind hi.expression (by omega) fun duration _ => .bind .expect (by omega) fun _ _ => ?_
  refine .bind (operands_bears hi) (by omega) fun operands _ =>
    .bind .expect (by omega) fun _ _ => ?_
  refine .bind (.spanFrom htoken.token) (by omega) fun span hspan => ?_
  exact .skip (.requireVersion3 hspan.span) fun _ => .place hspan.span (by simp +contextual) rfl

/-- A reset stands one above its operand. -/
theorem reset_bears (hi : cuts.BearsLevel inner low) : cuts.Bears (reset inner) (low + 3) := by
  refine .over (low + 2) (.bind .expect (by omega) fun token htoken =>
    .bind (operand_bears hi) (by omega) fun operand _ => ?_)
  exact .bind .expect (by omega) fun _ _ => .placeFrom htoken.token (by simp +contextual) rfl

/-- A barrier stands one above its operands. -/
theorem barrier_bears (hi : cuts.BearsLevel inner low) : cuts.Bears (barrier inner) (low + 3) := by
  refine .over (low + 2) (.bind .currentSpan (by omega) fun start hstart =>
    .skip .advance fun _ => ?_)
  exact .bind (operands_bears hi) (by omega) fun operands _ => .bind .expect (by omega) fun _ _ =>
    .placeFrom hstart.span (by simp +contextual) rfl

/-- An idle statement stands one above its operands. -/
theorem nop_bears (hi : cuts.BearsLevel inner low) : cuts.Bears (nop inner) (low + 3) := by
  refine .over (low + 2) (.bind .currentSpan (by omega) fun start hstart =>
    .skip .advance fun _ => ?_)
  refine .bind (operands_bears hi) (by omega) fun operands _ =>
    .bind .expect (by omega) fun _ _ => ?_
  refine .bind (.spanFrom hstart.span) (by omega) fun span hspan => ?_
  exact .skip (.requireVersion3 hspan.span) fun _ => .place hspan.span (by simp +contextual) rfl

/-- The statement stands one above the measurement. -/
theorem measureStatement_bears (hi : cuts.BearsLevel inner low) :
    cuts.Bears (measureStatement inner) (low + 4) := by
  refine .over (low + 3) (.bind .currentSpan (by omega) fun start hstart =>
    .bind (measurement_bears hi) (by omega) fun measured _ => ?_)
  refine .skip .accept fun stored =>
    .ite (.bind (operand_bears hi).some (by omega) fun target _ => ?_)
    (.pureBind ?_)
  all_goals exact .bind .expect (by omega) fun _ _ =>
    .placeFrom hstart.span (by simp +contextual) rfl

/-- A modifier stands one above its argument. -/
theorem gateModifier_bears (hi : cuts.BearsLevel inner low) {modifier : ModifierKind} :
    cuts.Bears (gateModifier inner modifier) (low + 1) := by
  refine .over low (.bind .currentSpan (by omega) fun start hstart => .skip .advance fun _ => ?_)
  refine .skip .accept fun opened => .ite (.bind hi.expression (by omega) fun arg _ =>
    ?_) (.pureBind ?_)
  · exact .bind .expect (by omega) fun _ _ => .pureBind (.bind .expect (by omega) fun _ _ =>
      .placeFrom hstart.span (by simp +contextual) rfl)
  · exact .bind .expect (by omega) fun _ _ => .placeFrom hstart.span (by simp +contextual) rfl

/-- All modifiers stand as low as each of them. -/
theorem gateModifiers_bears (hi : cuts.BearsLevel inner low) :
    cuts.Bears (gateModifiers inner) (low + 1) := by
  refine .over (low + 1) (.iterate (by simp) rfl fun modifiers _ => .skip .peek fun next => ?_)
  cases next.bind modifierKind? with
  | some modifier =>
    exact .bind (gateModifier_bears hi) (by omega) fun node _ =>
      .pure (by omega) (by simp +contextual) rfl
  | none => exact .pure (by omega) (by simp +contextual) rfl

/-- The name of a gate has nothing below it. -/
theorem gateName_bears : cuts.Bears gateName 1 := by
  refine .over 0 (.bind .current (by omega) fun next hnext => ?_)
  cases next with
  | none => exact .of .unexpected (by omega)
  | some token => exact .ite (.skip .advance fun _ =>
    .place hnext.of_some (by simp +contextual) rfl) (.of .unexpected (by omega))

/-- Arguments are expressions of the next level. -/
theorem gateArguments_bears (hi : cuts.BearsLevel inner low) :
    cuts.Bears (gateArguments inner) low := by
  refine .over low (.skip .accept fun opened =>
    .ite ?_ (.pure (by omega) (by simp +contextual) rfl))
  exact .bind (expressions_bears hi) (by omega) fun args _ => .bind .expect (by omega) fun _ _ =>
    .pure (by omega) (by simp +contextual) rfl

/-- A gate call stands one above its operands. -/
theorem gateCall_bears (hi : cuts.BearsLevel inner low) :
    cuts.Bears (gateCall inner) (low + 3) := by
  refine .over (low + 2) (.bind .currentSpan (by omega) fun start hstart => ?_)
  refine .bind (gateModifiers_bears hi) (by omega) fun modifiers _ =>
    .bind gateName_bears (by omega) fun callee _ => ?_
  refine .bind (gateArguments_bears hi) (by omega) fun args _ =>
    .bind (designator_bears hi) (by omega) fun duration _ => ?_
  exact .bind (operands_bears hi) (by omega) fun operands _ => .bind .expect (by omega) fun _ _ =>
    .placeFrom hstart.span (by simp +contextual) rfl

/-- A box stands one above its block. -/
theorem boxStatement_bears (hi : cuts.BearsLevel inner low) :
    cuts.Bears (boxStatement inner) (low + 2) := by
  refine .over (low + 1) (.bind .expect (by omega) fun token htoken =>
    .bind (designator_bears hi) (by omega) fun duration _ => ?_)
  refine .bind (block_bears hi) (by omega) fun body _ =>
    .bind (.spanFrom htoken.token) (by omega) fun span hspan => ?_
  exact .skip (.requireVersion3 htoken.token) fun _ => .place hspan.span (by simp +contextual) rfl

/-- An assignment stands one above its value, a measurement at most. -/
theorem assignment_bears (hi : cuts.BearsLevel inner low) :
    cuts.Bears (assignment inner) (low + 4) := by
  refine .over (low + 3) (.bind .currentSpan (by omega) fun start hstart =>
    .bind (operand_bears hi) (by omega) fun target _ => .skip .peek fun next => ?_)
  cases next.bind assignOp? with
  | some op =>
    refine .skip .advance fun _ => .bind (value_bears hi) (by omega) fun value _ => ?_
    exact .bind .expect (by omega) fun _ _ => .placeFrom hstart.span (by simp +contextual) rfl
  | none => exact .of .unexpected (by omega)

/-- The statement stands one above its expression. -/
theorem expressionStatement_bears (hi : cuts.BearsLevel inner low) :
    cuts.Bears (expressionStatement inner) (low + 1) := by
  refine .over low (.bind .currentSpan (by omega) fun start hstart =>
    .bind hi.expression (by omega) fun expr _ => ?_)
  exact .bind .expect (by omega) fun _ _ => .placeFrom hstart.span (by simp +contextual) rfl

/-- A keyword by itself has nothing below it. -/
theorem jump_bears {kind : NodeKind Placed} (hb : kind.branches = []) (hc : kind.chained? = none) :
    cuts.Bears (jump kind) 1 := by
  refine .over 0 (.bind .currentSpan (by omega) fun start hstart => .skip .advance fun _ => ?_)
  exact .bind .expect (by omega) fun _ _ => .placeFrom hstart.span (by rw [hb]; exact nofun) hc

/-- The statement stands one above its value. -/
theorem returnStatement_bears (hi : cuts.BearsLevel inner low) :
    cuts.Bears (returnStatement inner) (low + 4) := by
  refine .over (low + 3) (.bind .expect (by omega) fun token htoken => .skip .sees fun empty => ?_)
  refine .ite (.pureBind ?_) (.bind (value_bears hi).some (by omega) fun value _ => ?_)
  all_goals exact .bind .expect (by omega) fun _ _ =>
    .placeFrom htoken.token (by simp +contextual) rfl

/-! ## Control flow -/

/-- A condition is an expression of the next level. -/
theorem condition_bears (hi : cuts.BearsLevel inner low) : cuts.Bears (condition inner) low := by
  refine .over low (.bind .expect (by omega) fun _ _ =>
    .bind hi.expression (by omega) fun inside _ => ?_)
  exact .bind .expect (by omega) fun _ _ => .pure (by omega) (by simp +contextual) rfl

/-- A body is a block or a statement of the next level. -/
theorem body_bears (hi : cuts.BearsLevel inner low) : cuts.Bears (body inner) (low + 1) :=
  .over low (.skip .sees fun braced =>
    .ite (.of (block_bears hi) (by omega)) (.of hi.statement.inScope (by omega)))

/-- A branch stands one above its bodies. -/
theorem ifStatement_bears (hi : cuts.BearsLevel inner low) :
    cuts.Bears (ifStatement inner) (low + 2) := by
  refine .over (low + 1) (.bind .expect (by omega) fun token htoken =>
    .bind (condition_bears hi) (by omega) fun condition _ =>
      .bind (body_bears hi) (by omega) fun thenBranch _ => ?_)
  refine .skip .accept fun otherwise =>
    .ite (.bind (body_bears hi).some (by omega) fun elseBranch _ => ?_)
    (.pureBind ?_)
  all_goals exact .placeFrom htoken.token (by simp +contextual) rfl

/-- What is iterated over is a range, a set or an expression. -/
theorem iterable_bears (hi : cuts.BearsLevel inner low) :
    cuts.Bears (iterable inner) (low + 1) := by
  refine .over (low + 1) (.skip .peek fun next => ?_)
  split
  · refine .skip .advance fun _ => .bind (rangeOrExpression_bears hi) (by omega) fun range _ => ?_
    exact .bind .expect (by omega) fun _ _ => .pure (by omega) (by simp +contextual) rfl
  · exact .of (setLiteral_bears hi) (by omega)
  · exact .of hi.expression (by omega)

/-- The type of a variable is a type. -/
theorem loopType_bears (hi : cuts.BearsLevel inner low) :
    cuts.Bears (loopType inner) (low + 2) :=
  .over low (.get fun state => .ite (.pure (by omega) (by simp +contextual) rfl)
    (.of (type_bears hi).some (by omega)))

/-- A loop stands one above the type of its variable. -/
theorem forStatement_bears (hi : cuts.BearsLevel inner low) :
    cuts.Bears (forStatement inner) (low + 3) := by
  have hparts : cuts.Bears (do
      let var ← identifier
      let _ ← expect Keyword.kwIn
      let iterable ← iterable inner
      declare var
      return (var, iterable, ← body inner)) (low + 2) := by
    refine .over (low + 2) (.bind .identifier (by omega) fun var hvar =>
      .bind .expect (by omega) fun _ _ => ?_)
    refine .bind (iterable_bears hi) (by omega) fun iterable _ =>
      .skip (.declare hvar.node) fun _ => ?_
    exact .bind (body_bears hi) (by omega) fun body _ => .pure (by omega) (by simp +contextual) rfl
  refine .over (low + 2) (.bind .expect (by omega) fun token htoken => ?_)
  refine .skip (.requireVersion3 htoken.token) fun _ =>
    .bind (loopType_bears hi) (by omega) fun type _ => ?_
  refine .bind hparts.inScope (by omega) fun parts _ => ?_
  obtain ⟨var, iterable, body⟩ := parts
  exact .placeFrom htoken.token (by simp +contextual) rfl

/-- A loop stands one above its body. -/
theorem whileStatement_bears (hi : cuts.BearsLevel inner low) :
    cuts.Bears (whileStatement inner) (low + 2) := by
  refine .over (low + 1) (.bind .expect (by omega) fun token htoken => ?_)
  refine .skip (.requireVersion3 htoken.token) fun _ =>
    .bind (condition_bears hi) (by omega) fun condition _ => ?_
  exact .bind (body_bears hi) (by omega) fun body _ =>
    .placeFrom htoken.token (by simp +contextual) rfl

/-- A switch stands one above its cases, which are nested. -/
theorem switchStatement_bears (hi : cuts.BearsLevel inner low) :
    cuts.Bears (switchStatement inner) (low + 1) := by
  refine .over low (.bind .expect (by omega) fun token htoken => ?_)
  refine .skip (.requireVersion3 htoken.token) fun _ =>
    .bind (condition_bears hi) (by omega) fun subject _ => ?_
  refine .bind .expect (by omega) fun _ _ => .bind hi.cases.blockOpen (by omega) fun cases _ => ?_
  exact .bind .expect (by omega) fun _ _ => .placeFrom htoken.token (by simp +contextual) rfl

/-- A clause with its body comes to the clauses before it. -/
theorem clause_goes (hi : cuts.BearsLevel inner low) {start : Span} (h : cuts.Lies start)
    {clauses held : List Placed} {state : State} (hs : cuts.Sited state)
    (hclauses : Borne cuts (low + 2) clauses state) (hheld : Borne cuts (low + 1) held state)
    (kind : Placed → NodeKind Placed)
    (hb : ∀ body, ∀ child ∈ (kind body).branches, child ∈ body :: held)
    (hc : ∀ body, (kind body).chained? = none) :
    cuts.Goes (do
      let body ← block inner
      return .again (clauses ++ [← placeFrom start (kind body)]) :
      Parser (Turn (List Placed) (List Placed))) state (Borne cuts (low + 2)) := by
  refine (block_bears hi state hs).bind fun body after hs hl hbody => ?_
  have hclause : cuts.BearsOver (body :: held) (low + 1) (placeFrom start (kind body)) (low + 2) :=
    .placeFrom h (hb body) (hc body)
  have hheld := hheld.later hl (Nat.le_refl _)
  have hclauses := hclauses.later hl (Nat.le_refl _)
  refine (hclause after hs (hbody.held.append hheld)).bind fun clause after hs hl hclause => ?_
  have hall := (hclauses.later hl (Nat.le_refl _)).append hclause.held
  exact .pure hs ⟨⟨hall.sound.nodes, nofun⟩, hall.low⟩

/-- A case stands one above its block. -/
theorem cases_bears (hi : cuts.BearsLevel inner low) : cuts.Bears (cases inner) (low + 2) := by
  refine .over (low + 2) (.iterate (by simp) rfl fun clauses _ state hs hclauses => ?_)
  refine (Bears.currentSpan state hs).bind fun start after hs hl hstart => ?_
  have hclauses := hclauses.later hl (Nat.le_refl _)
  refine (Plain.peek after hs).bind fun next after hs hl _ => ?_
  have hclauses := hclauses.later hl (Nat.le_refl _)
  split
  · refine (Plain.advance after hs).bind fun _ after hs hl _ => ?_
    have hclauses := hclauses.later hl (Nat.le_refl _)
    refine (expressions_bears hi after hs).bind fun values after hs hl hvalues => ?_
    have hclauses := hclauses.later hl (Nat.le_refl _)
    have hclause {state : State} (hs : cuts.Sited state) (hl : Later after state) :=
      clause_goes hi hstart.sound.span hs (hclauses.later hl (Nat.le_refl _))
        (hvalues.later hl (Nat.le_succ low)) (.caseClause values)
        (fun body child hm => by simpa [NodeKind.branches, NodeKind.children, NodeKind.slots,
          NodeKind.each, or_comm] using hm) fun _ => rfl
    split
    · exact (Plain.unexpected after hs).bind fun _ after hs hl _ => hclause hs hl
    · exact hclause hs (.refl _)
  · refine (Plain.advance after hs).bind fun _ after hs hl _ => ?_
    have hnone : Borne cuts (low + 1) ([] : List Placed) after := ⟨⟨nofun, nofun⟩, nofun⟩
    exact clause_goes hi hstart.sound.span hs (hclauses.later hl (Nat.le_refl _)) hnone
      .defaultClause (fun _ _ hm => hm) fun _ => rfl
  · exact .pure hs ⟨⟨hclauses.sound.nodes, nofun⟩, hclauses.low⟩
  · exact Bears.unexpected.mono (Nat.zero_le _) after hs

/-! ## The choice of a statement -/

/-- The highest statement that begins with an identifier is the assignment. -/
theorem identifierStart_bears (hi : cuts.BearsLevel inner low) :
    cuts.Bears (identifierStart inner) (low + 4) := by
  refine .over low (.get fun state => ?_)
  split
  · exact .of (gateCall_bears hi) (by omega)
  · exact .of (assignment_bears hi) (by omega)
  · exact .of (expressionStatement_bears hi) (by omega)

/-- The highest statement that begins with a type is the declaration. -/
theorem typeStart_bears (hi : cuts.BearsLevel inner low) :
    cuts.Bears (typeStart inner) (low + 4) :=
  .over low (.get fun state => .ite (.of (expressionStatement_bears hi) (by omega))
    (.of (classicalDecl_bears hi) (by omega)))

/-- No statement stands more than four above the next level. -/
theorem keywordStart_bears (hi : cuts.BearsLevel inner low) (keyword : Keyword) :
    cuts.Bears (keywordStart inner keyword) (low + 4) := by
  refine .over low ?_
  unfold keywordStart
  split
  · exact .of versionStatement_bears (by omega)
  · exact .of includeStatement_bears (by omega)
  · exact .of calibrationGrammar_bears (by omega)
  · exact .of (qubitDecl_bears hi) (by omega)
  · exact .of (registerDecl_bears hi) (by omega)
  · exact .of (registerDecl_bears hi) (by omega)
  · exact .of (constDecl_bears hi) (by omega)
  · exact .of (ioDecl_bears hi) (by omega)
  · exact .of (ioDecl_bears hi) (by omega)
  · exact .of (aliasDecl_bears hi) (by omega)
  · exact .of (gateDef_bears hi) (by omega)
  · exact .of opaqueDecl_bears (by omega)
  · exact .of (subroutineDef_bears hi) (by omega)
  · exact .of (externDecl_bears hi) (by omega)
  · exact .of cal_bears (by omega)
  · exact .of defcal_bears (by omega)
  · exact .of (boxStatement_bears hi) (by omega)
  iterate 3 exact .of (jump_bears rfl rfl) (by omega)
  · exact .of (returnStatement_bears hi) (by omega)
  · exact .of (ifStatement_bears hi) (by omega)
  · exact .of (forStatement_bears hi) (by omega)
  · exact .of (whileStatement_bears hi) (by omega)
  · exact .of (switchStatement_bears hi) (by omega)
  · exact .of (delay_bears hi) (by omega)
  · exact .of (reset_bears hi) (by omega)
  · exact .of (barrier_bears hi) (by omega)
  · exact .of (nop_bears hi) (by omega)
  · exact .of (measureStatement_bears hi) (by omega)
  iterate 5 exact .of (gateCall_bears hi) (by omega)
  · exact .ite (.of (typeStart_bears hi) (by omega))
      (.ite (.of (expressionStatement_bears hi) (by omega)) (.of .unexpected (by omega)))

/-- No statement stands more than four above the next level, whatever it begins with. -/
theorem statement_bears (hi : cuts.BearsLevel inner low) :
    cuts.Bears (statement inner) (low + 4) := by
  refine .over (low + 3) (.bind .current (by omega) fun next hnext => ?_)
  cases next with
  | none => exact .of .unexpected (by omega)
  | some token =>
    dsimp only
    split
    · exact .of (keywordStart_bears hi _) (by omega)
    · exact .skip .advance fun _ => .of (pragma_bears hnext.of_some) (by omega)
    · exact .skip .advance fun _ => .of (annotationLine_bears hnext.of_some) (by omega)
    · exact .of (block_bears hi) (by omega)
    · exact .of (identifierStart_bears hi) (by omega)
    · exact .ite (.of (expressionStatement_bears hi) (by omega)) (.of .unexpected (by omega))

/-! ## Recovery -/

/-- Recovery passes over tokens. -/
theorem synchronize_plain {before opened : Nat} : cuts.Plain (synchronize before opened) :=
  .get fun _ => .bind .passOver fun _ => .modify fun _ hs => ⟨{ hs with }, .refl _, Nat.le_refl _⟩

/-- An error takes the place of a statement that stopped, if nothing unwinds. -/
theorem errorNode_goes {state : State} (hs : cuts.Sited state) (before height : Nat) {start : Span}
    (h : cuts.Lies start) :
    cuts.Goes (do
      let state ← get
      if state.unwinding.isSome ∧ 0 < state.openBlocks then recover
      set { state with unwinding := none }
      synchronize before (state.unwinding.getD 0)
      placeFrom start .error) state (Borne cuts (height + 1)) := by
  have hstop : cuts.Goes (recover : Parser PUnit) state fun _ _ => False := .throw hs
  have hset : cuts.Goes (set { state with unwinding := none } : Parser PUnit) state
      fun _ _ => True := ⟨{ hs with }, ⟨.refl _, Nat.le_refl _⟩, trivial⟩
  refine .get ?_
  split
  · exact hstop.bind fun _ _ _ _ hfalse => hfalse.elim
  · refine hset.bind fun _ after hs _ _ => ?_
    exact Bears.over height (.skip synchronize_plain fun _ =>
      .placeFrom h (by simp +contextual) rfl) after hs

/-- What stood before the statement is still there when what it pushed is dropped. -/
theorem statementOrError_bears (hi : cuts.BearsLevel inner low) :
    cuts.Bears (statementOrError inner) (low + 4) := by
  intro base hs
  have hstatement := statement_bears hi base hs
  unfold Goes at hstatement
  cases hr : statement inner cuts.context base with
  | ok node after =>
    unfold Goes
    rw [statementOrError_ok hr]
    rwa [hr] at hstatement
  | error failure failed =>
    rw [hr] at hstatement
    obtain ⟨hfailed, hlater⟩ := hstatement
    cases failure with
    | crash failure =>
      unfold Goes
      rw [statementOrError_crash hr]
      exact ⟨hfailed, hlater⟩
    | recovered =>
      have hdropped : Later base
          { failed with builder := failed.builder.truncate base.builder.size } :=
        ⟨hlater.lasts.take, hlater.previousEnd⟩
      refine .of_eq ?_ hdropped
        (errorNode_goes (hfailed.truncate _) base.position (low + 3) hs.nextSpan)
      rw [statementOrError_stop (currentSpan_eq ..) hr]
      rfl

/-- The statements of a block stand as low as each of them. -/
theorem blockItems_bears (hi : cuts.BearsLevel inner low) :
    cuts.Bears (blockItems inner) (low + 4) := by
  refine .over (low + 4) (.iterate (by simp) rfl fun items _ => .skip .peek fun next => ?_)
  split
  · exact .pure (by omega) (by simp +contextual) rfl
  · exact .pure (by omega) (by simp +contextual) rfl
  · exact .bind (statementOrError_bears hi) (by omega) fun item _ =>
      .pure (by omega) (by simp +contextual) rfl

/-! ## Levels -/

/-- Each level adds as much as the highest of its productions. -/
theorem level_bears (levels : Nat) : cuts.BearsLevel (level levels) (14 * levels) := by
  induction levels with
  | zero => constructor <;> exact fun _ hs => .throw hs
  | succ levels ih =>
    have hle : 14 * (levels + 1) = 14 * levels + 14 := Nat.mul_succ _ _
    rw [hle]
    exact
      { expression := (binaryExpression_bears ih).nested
        unary := ((unaryExpression_bears ih).mono (by omega)).nested
        scalarType := ((scalarType_bears ih).mono (by omega)).nested
        statement := ((statement_bears ih).mono (by omega)).nested
        blockItems := ((blockItems_bears ih).inScope.mono (by omega)).nested
        cases := ((cases_bears ih).mono (by omega)).nested
        arrayLiteral := ((arrayLiteral_bears ih).mono (by omega)).nested }

/-! ## Programs -/

/-- The statements of a program stand as low as each of them. -/
theorem programItems_bears (hi : cuts.BearsLevel inner low) :
    cuts.Bears (programItems inner) (low + 4) := by
  refine .over (low + 4) (.iterate (by simp) rfl fun items _ => .skip .peek fun next => ?_)
  split
  · exact .pure (by omega) (by simp +contextual) rfl
  · exact .skip .reportSyntax fun _ => .skip .advance fun _ =>
      .pure (by omega) (by simp +contextual) rfl
  · refine .bind (statementOrError_bears hi).attempt (by omega) fun item _ => ?_
    cases item with
    | some item => exact .pure (by omega) (by simp +contextual) rfl
    | none => exact .pure (by omega) (by simp +contextual) rfl

/-- The program stands one above its statements. -/
theorem program_bears : cuts.Bears program (14 * (cuts.context.options.maxDepth + 1) + 5) := by
  have hspan : cuts.Lies ⟨cuts.context.source, 0, min (Text.width cuts.context.text) maxOffset⟩ :=
    ⟨rfl, cuts.isCut_zero, cuts.isCut_end, Nat.zero_le _⟩
  refine .over (14 * (cuts.context.options.maxDepth + 1) + 4) (.read ?_)
  exact .bind (programItems_bears (level_bears _)) (by omega) fun items _ =>
    .place hspan (by simp +contextual) rfl

/-! ## Parses -/

/-- The start of a parse, if the spans of the tokens lie between cuts. -/
theorem sited_startState {source : SourceId} {text : List Char} {options : ParseOptions}
    (hc : cuts.context = ⟨source, text, options⟩)
    (ht : ∀ token ∈ (tokenize source text).1, cuts.Lies token.span) :
    cuts.Sited (startState source text options) where
  ahead := fun token hm => ht token (List.mem_filter.1 hm).1
  row := by
    rw [hc]
    exact (tokenize_inRow source text).sublist (List.filter_sublist.map _)
  previousEnd := cuts.isCut_zero
  nodes := fun _ hm => nomatch hm
  comments := fun span hm => by
    obtain ⟨token, htrivia, rfl⟩ := List.mem_map.1 hm
    exact ht token (List.mem_filter.1 htrivia).1
  reports := fun _ hm => nomatch hm
  names := fun scope hm _ he => by
    obtain rfl := List.mem_singleton.1 hm
    cases he

/-- The spans in a tree and in its reports lie between cuts, and the tree is low. -/
structure Makes (cuts : Cuts) (output : ParseOutput) : Prop where
  nodes : ∀ node ∈ output.tree.nodes, cuts.Lies node.span
  comments : ∀ span ∈ output.tree.comments, cuts.Lies span
  reports : ∀ diagnostic ∈ output.diagnostics, ∀ span ∈ diagnostic.spans, cuts.Lies span
  low : Low output.tree.nodes (14 * (cuts.context.options.maxDepth + 1) + 5) output.tree.root

/-- A parse keeps all its spans between the cuts, and the root of its tree stands low. -/
theorem parse_makes {source : SourceId} {text : List Char} {options : ParseOptions}
    {output : ParseOutput} (hc : cuts.context = ⟨source, text, options⟩)
    (ht : ∀ token ∈ (tokenize source text).1, cuts.Lies token.span)
    (h : parse source text options = .ok output) : cuts.Makes output := by
  have hprogram := program_bears _ (sited_startState hc ht)
  unfold Goes at hprogram
  rw [parse_eq, ← hc] at h
  cases hresult : program cuts.context (startState source text options) with
  | error failure state =>
    rw [hresult] at h
    cases failure <;> cases h
  | ok root state =>
    rw [hresult] at h hprogram
    obtain ⟨hs, -, hroot⟩ := hprogram
    dsimp only at h
    unfold Builder.finish at h
    split at h
    · next tree hfinish =>
      obtain rfl := Except.ok.inj h
      split at hfinish
      · obtain rfl := Except.ok.inj hfinish
        refine ⟨hs.nodes, hs.comments, fun diagnostic hd span hm => ?_,
          hroot.low root List.mem_cons_self⟩
        rcases List.mem_append.1 (Diagnostics.mem_of_mem_sorted hd) with hd | hd
        · obtain ⟨token, htoken, hspan, hlabels, hfix⟩ := tokenize_plain hd
          rw [Diagnostic.spans, hlabels, hfix, hspan] at hm
          exact List.mem_singleton.1 hm ▸ ht token htoken
        · exact hs.reports diagnostic hd span hm
      · cases hfinish
    · cases h

end OpenQasm.Grammar.Cuts
