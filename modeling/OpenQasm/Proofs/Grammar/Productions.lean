import OpenQasm.Grammar.Program
import OpenQasm.Proofs.Grammar.Composition

/-!
# Compositions of all productions

Types, expressions, declarations and statements, each composed of the productions of the next level.
-/

namespace OpenQasm.Grammar

variable {has : Feature → Prop}

/-! ## Types -/

/-- The keyword and, if a bracket follows, the component of the type. -/
theorem complexType_composed : Composed has complexType := by
  refine .bind .currentSpan fun start => .bind .advance fun _ => .bind .accept fun opened => ?_
  refine .ite (.bind (.inner .scalarType trivial) fun component => .bind .expect fun _ => ?_) ?_
  all_goals exact .bind .pure fun component => .placeFrom trivial

/-- The keyword of a type and its size, or a complex type. -/
theorem scalarType_composed : Composed has scalarType := by
  refine .bind .currentSpan fun start => .bind .peek fun next => ?_
  cases next.bind scalarKind? with
  | some scalar =>
    exact .bind .advance fun _ => .bind designator_composed fun size => .placeFrom trivial
  | none => exact .bind .sees fun found => .ite complexType_composed .unexpected

/-- The type of the elements, behind a bracket and up to the first comma. -/
theorem elementType_composed : Composed has elementType :=
  .bind .expect fun _ => .bind scalarType_composed fun _ => .bind .expect fun _ => .pure

/-- The elements and the dimensions of an array, of which there is one at least. -/
theorem arrayType_composed : Composed has arrayType := by
  refine .bind .currentSpan fun start => .bind .advance fun _ => ?_
  refine .bind elementType_composed fun element => .bind expressions_composed fun dims => ?_
  refine .ite (.bind .unexpected fun _ => ?_) ?_
  all_goals exact .bind .expect fun _ => .placeFrom trivial

/-- The keyword and the size of a register. -/
theorem qubitType_composed : Composed has qubitType := by
  refine .bind .currentSpan fun start => .bind .advance fun _ => ?_
  exact .bind designator_composed fun size => .placeFrom trivial

/-- Each keyword has its type. -/
theorem type_composed : Composed has type := by
  refine .bind .peek fun next => ?_
  split
  · exact complexType_composed
  · exact arrayType_composed
  · exact qubitType_composed
  · exact scalarType_composed

/-- A reference to an array has dimensions or their number, and is mutable or not. -/
theorem arrayRefType_composed : Composed has arrayRefType := by
  refine .bind .currentSpan fun start => .bind .peek fun next => ?_
  split
  all_goals
    refine .bind (by first | exact .pure | exact .unexpected) fun changes => ?_
    refine .bind .advance fun _ => .bind .expect fun _ => ?_
    refine .bind elementType_composed fun element => .bind .accept fun ranked => .ite ?_ ?_
    · refine .bind .expect fun _ => .bind (.inner .expression trivial) fun rank => ?_
      exact .bind .expect fun _ => .placeFrom trivial
    · refine .bind expressions_composed fun dims => ?_
      exact .bind .expect fun _ => .placeFrom trivial

/-! ## Literals -/

/-- A literal is placed, or misread, or its exponent overflows. -/
theorem literal_composed {text : List Char} {span : Span} {kind : LiteralKind} :
    Composed has fun _ => literal text span kind := by
  unfold literal
  cases Literal.read text kind with
  | ok value => exact .place trivial
  | error problem => cases problem <;> first | exact .misread | exact .overflows

/-- A number by itself, or with the unit of the imaginary numbers behind it. -/
theorem number_composed {token : Token} : Composed has fun _ => number token := by
  refine .bind .current fun next => ?_
  cases next with
  | none => exact literal_composed
  | some next =>
    refine .ite (.bind .advance fun _ => ?_) literal_composed
    exact .read (fun _ _ => rfl) fun context => literal_composed

/-- A physical qubit is placed, or its number is misread. -/
theorem hardwareQubit_composed {token : Token} : Composed has fun _ => hardwareQubit token := by
  unfold hardwareQubit
  cases hardwareNumber? (token.text.drop 1) with
  | some value => exact .place trivial
  | none => exact .misread

/-! ## Expressions -/

/-- A part of a range is nested or missing. -/
theorem rangePart_composed : Composed has rangePart := by
  refine .bind .peek fun next => ?_
  split
  all_goals first
    | exact .pure
    | exact .bind (.inner .expression trivial) fun part => .pure

/-- A range behind its first colon has one more part or two. -/
theorem rangeAfter_composed {startSpan : Span} {start : Option Placed} :
    Composed has fun inner => rangeAfter inner startSpan start := by
  refine .bind .expect fun _ => .bind rangePart_composed fun second => ?_
  refine .bind .accept fun stepped => ?_
  exact .ite (.bind rangePart_composed fun third => .placeFrom trivial) (.placeFrom trivial)

/-- An expression, unless a colon stands before or behind it. -/
theorem rangeOrExpression_composed : Composed has rangeOrExpression := by
  refine .bind .currentSpan fun startSpan => .bind .sees fun colon => .ite rangeAfter_composed ?_
  refine .bind (.inner .expression trivial) fun first => .bind .sees fun ranged => ?_
  exact .ite rangeAfter_composed .pure

/-- Expressions between braces. -/
theorem setLiteral_composed : Composed has setLiteral := by
  refine .bind .expect fun token => .bind expressions_composed fun elements => ?_
  exact .bind .expect fun _ => .placeFrom trivial

/-- A brace begins a set, all else is a range or an expression. -/
theorem indexItem_composed : Composed has indexItem :=
  .bind .sees fun _ => .ite setLiteral_composed rangeOrExpression_composed

/-- The items of one index are joined by commas. -/
theorem indexed_composed {base : Placed} : Composed has fun inner => indexed inner base := by
  refine .bind .expect fun _ => .bind (.joined indexItem_composed) fun items => ?_
  exact .bind .expect fun _ => .placeFrom trivial

/-- One index after the other, each of them around what has been read so far. -/
theorem indices_composed {base : Placed} : Composed has fun inner => indices inner base := by
  refine .iterate fun base => .bind .sees fun opened => .ite ?_ .pure
  exact .bind indexed_composed fun node => .pure

/-- A name, and its arguments if a parenthesis follows. -/
theorem identifierOrCall_composed {token : Token} :
    Composed has fun inner => identifierOrCall inner token := by
  refine .bind identifier_composed fun callee => .bind .accept fun called => .ite ?_ .pure
  exact .bind expressions_composed fun args => .bind .expect fun _ => .placeFrom trivial

/-- A type and its operand in parentheses. -/
theorem castExpression_composed {token : Token} :
    Composed has fun inner => castExpression inner token := by
  refine .bind type_composed fun type => .bind .expect fun _ => ?_
  exact .bind (.inner .expression trivial) fun operand => .bind .expect fun _ => .placeFrom trivial

/-- Of all expressions, only a duration holds a block. -/
theorem primaryAt_composed {token : Token} (ht : token.kind = Keyword.kwDurationOf → has .tracked) :
    Composed has fun inner => primaryAt inner token := by
  unfold primaryAt
  split
  case h_1 => exact .bind .advance fun _ => number_composed
  case h_2 => exact .bind .advance fun _ => number_composed
  case h_3 => exact .bind .advance fun _ => number_composed
  case h_10 => exact .bind .advance fun _ => hardwareQubit_composed
  case h_11 => exact identifierOrCall_composed
  case h_12 =>
    refine .bind .advance fun _ => .bind (.inner .expression trivial) fun inside => ?_
    exact .bind .expect fun _ => .placeFrom trivial
  case h_13 hk =>
    refine .bind .advance fun _ => .bind .expect fun _ => ?_
    refine .bind (block_composed (ht hk)) fun body => ?_
    exact .bind .expect fun _ => .placeFrom trivial
  case h_14 => exact .ite castExpression_composed .unexpected
  all_goals exact .bind .advance fun _ => .place trivial

/-- The block of a duration is all that is to be kept track of in an expression. -/
theorem primary_composed (ht : has .tracked) : Composed has primary := by
  refine .bind .current fun next => ?_
  cases next with
  | some token => exact primaryAt_composed fun _ => ht
  | none => exact .unexpected

/-- An exponent is nested, its base is not. -/
theorem power_composed (ht : has .tracked) : Composed has power := by
  refine .bind (.bind (primary_composed ht) fun base => indices_composed) fun base => ?_
  refine .bind .accept fun raised => .ite ?_ .pure
  exact .bind (.inner .unary trivial) fun exponent => .place trivial

/-- The operand of a sign is nested. -/
theorem unaryExpression_composed (ht : has .tracked) : Composed has unaryExpression := by
  refine .bind .peek fun next => ?_
  cases next.bind unaryOp? with
  | some op =>
    refine .bind .currentSpan fun start => .bind .advance fun _ => ?_
    exact .bind (.inner .unary trivial) fun operand => .placeFrom trivial
  | none => exact power_composed ht

/-- A climb goes on to climbs from above its operators, by induction on how far they are from the
tightest one. -/
theorem binaryFrom_composed (ht : has .tracked) (least : Nat) :
    Composed has fun inner => binaryFrom inner least := by
  induction least using climb_induction with
  | _ least ih =>
    simp only [binaryFrom_eq]
    refine .bind (unaryExpression_composed ht) fun first => .iterate fun lhs => ?_
    refine .bind .peek fun next => ?_
    cases next.bind binaryOp? with
    | some op =>
      by_cases hlt : op.precedence < least
      · simpa only [if_pos hlt] using .pure
      · simp only [if_neg hlt]
        refine .bind .advance fun _ => .bind (ih op (Nat.not_lt.1 hlt)) fun rhs => ?_
        exact .bind (.place trivial) fun node => .pure
    | none => exact .pure

/-! ## Values -/

/-- A physical qubit, or a name with its indices. -/
theorem operand_composed : Composed has operand := by
  refine .bind .current fun next => ?_
  cases next with
  | none => exact .unexpected
  | some token =>
    dsimp only
    split
    · exact .bind .advance fun _ => hardwareQubit_composed
    · exact .bind identifier_composed fun name => indices_composed
    · exact .unexpected

/-- No operands, or some joined by commas. -/
theorem operands_composed : Composed has operands :=
  .bind .sees fun _ => .ite .pure (.joined operand_composed)

/-- The keyword and what is measured. -/
theorem measurement_composed : Composed has measurement :=
  .bind .expect fun _ => .bind operand_composed fun _ => .placeFrom trivial

/-- A measurement or a nested expression. -/
theorem value_composed : Composed has value :=
  .bind .sees fun _ => .ite measurement_composed (.inner .expression trivial)

/-- Between braces, a further brace begins a nested literal. -/
theorem arrayLiteral_composed : Composed has arrayLiteral := by
  refine .bind .expect fun token => ?_
  refine .bind (.separated (.bind .sees fun nested => ?_)) fun elements => ?_
  · exact .ite (.inner .arrayLiteral trivial) (.inner .expression trivial)
  · exact .bind .expect fun _ => .placeFrom trivial

/-! ## Directives -/

/-- What is said of a version is not said of a place. -/
theorem invalidVersion_not_mem_placementMessages (text : List Char) :
    s!"invalid version number `{String.ofList text}`" ∉ placementMessages := by
  have hmessage : s!"invalid version number `{String.ofList text}`" =
      "invalid version number `" ++ (String.ofList text ++ "`") := by
    simp only [String.append_assoc]
    rfl
  rw [hmessage]
  exact append_not_mem_placementMessages _ rfl (by decide)

/-- A version is kept track of, and its wrong place is reported as one of placement. -/
theorem versionStatement_composed (ht : has .tracked) : Composed has fun _ => versionStatement := by
  refine .get (fun _ _ _ => rfl) fun state => .bind .expect fun token => ?_
  refine .ite ?_ (.bind (.report (by decide)) fun _ => ?_)
  all_goals
    refine .bind .current fun next => ?_
    cases next with
    | none => exact .unexpected
    | some number =>
      refine .ite ?_ .unexpected
      cases version? number.text with
      | none => exact .failSyntax (invalidVersion_not_mem_placementMessages number.text)
      | some version =>
        refine .bind .advance fun _ => .bind .expect fun _ => ?_
        exact .ite (.bind (.setVersion ht) fun _ => .placeFrom trivial) (.placeFrom trivial)

/-- The text of a string token. -/
theorem stringText_composed {what : String} : Composed has fun _ => stringText what := by
  refine .bind .current fun next => ?_
  cases next with
  | none => exact .unexpected
  | some token => exact .ite (.bind .advance fun _ => .pure) .unexpected

/-- An include is the one node of its kind, and its wrong place is one of placement. -/
theorem includeStatement_composed (h : has .inclusion) :
    Composed has fun _ => includeStatement := by
  refine .bind .expect fun token => .get (fun _ _ _ => rfl) fun state => ?_
  refine .ite (.bind (.report (by decide)) fun _ => ?_) ?_
  all_goals exact .bind stringText_composed fun path => .bind .expect fun _ => .placeFrom h

/-- A name of a grammar, which version 2 lacks. -/
theorem calibrationGrammar_composed (ht : has .tracked) :
    Composed has fun _ => calibrationGrammar := by
  refine .bind .expect fun token => .bind stringText_composed fun name => .bind .expect fun _ => ?_
  exact .bind .spanFrom fun span => .bind (.requireVersion3 ht) fun _ => .place ht

/-- An annotation is one token. -/
theorem annotationLine_composed {token : Token} : Composed has fun _ => annotationLine token := by
  unfold annotationLine
  exact .place trivial

/-- The body of a calibration is one token. -/
theorem calibrationBody_composed : Composed has fun _ => calibrationBody :=
  .bind .expect fun _ => .pure

/-- A keyword and a body, which version 2 lacks. -/
theorem cal_composed (ht : has .tracked) (hc : has .calibration) :
    Composed has fun _ => cal := by
  refine .bind .expect fun token => .bind calibrationBody_composed fun body => ?_
  exact .bind .spanFrom fun span => .bind (.requireVersion3 ht) fun _ => .place ⟨ht, hc⟩

/-- What stands before the body is passed over at once. -/
theorem defcal_composed (ht : has .tracked) (hc : has .calibration) :
    Composed has fun _ => defcal := by
  refine .bind .expect fun token => .bind .current fun next => ?_
  cases next with
  | none => exact .unexpected
  | some first =>
    refine .ite (.bind .unexpected fun _ => ?_) ?_
    all_goals
      refine .get (fun _ _ _ => rfl) fun state => .bind .passOver fun _ => ?_
      refine .read (fun _ _ => rfl) fun context => .get (fun _ _ _ => rfl) fun after => ?_
      refine .bind calibrationBody_composed fun body => .bind .spanFrom fun span => ?_
      exact .bind (.requireVersion3 ht) fun _ => .place ⟨ht, hc⟩

/-! ## Declarations -/

/-- A size and a name, which is declared. -/
theorem qubitDecl_composed (ht : has .tracked) : Composed has qubitDecl := by
  refine .bind .expect fun token => .bind designator_composed fun size => ?_
  refine .bind identifier_composed fun name => .bind .expect fun _ => ?_
  exact .bind (.declare ht) fun _ => .placeFrom ht

/-- A look at the text of a span. -/
theorem spanText_composed {span : Span} : Composed has fun _ => spanText span :=
  .read (fun _ _ => rfl) fun _ => .pure

/-- What is suggested for a register is made of texts. -/
theorem registerReplacement_composed {register : RegisterKind} {name : Placed}
    {size : Option Placed} : Composed has fun _ => registerReplacement register name size := by
  refine .bind spanText_composed fun nameText => ?_
  cases size with
  | some size => exact .bind spanText_composed fun sizeText => .pure
  | none => exact .pure

/-- A name and a size; the declaration is deprecated. -/
theorem registerDecl_composed {register : RegisterKind} (ht : has .tracked) :
    Composed has fun inner => registerDecl inner register := by
  refine .bind .current fun next => ?_
  cases next with
  | none => exact .unexpected
  | some keyword =>
    refine .bind .advance fun _ => .bind identifier_composed fun name => ?_
    refine .bind designator_composed fun size => .get (fun _ _ _ => rfl) fun state => ?_
    refine .bind .expect fun _ => .bind (.declare ht) fun _ => ?_
    refine .bind registerReplacement_composed fun replacement => ?_
    exact .bind (.deprecated ht) fun _ => .placeFrom ht

/-- A literal in braces or a value, of which an angle is made if its type is one. -/
theorem initializer_composed {type : Placed} (ht : has .tracked) :
    Composed has fun inner => initializer inner type := by
  refine .bind .sees fun braced => .ite (.bind arrayLiteral_composed fun value => ?_)
    (.bind value_composed fun value => ?_)
  all_goals
    split
    · exact .retagAngle ht
    · exact .pure

/-- A type and a name, and a value if an equals sign follows. -/
theorem classicalDecl_composed (ht : has .tracked) : Composed has classicalDecl := by
  refine .bind .currentSpan fun start => .bind type_composed fun type => ?_
  refine .bind (.requireVersion3 ht) fun _ => .bind identifier_composed fun name => ?_
  refine .bind .accept fun assigned => .ite (.bind (.map (initializer_composed ht)) fun init => ?_)
    (.bind .pure fun init => ?_)
  all_goals exact .bind .expect fun _ => .bind (.declare ht) fun _ => .placeFrom ht

/-- A type, a name and a value. -/
theorem constDecl_composed (ht : has .tracked) : Composed has constDecl := by
  refine .bind .expect fun token => .bind type_composed fun type => ?_
  refine .bind identifier_composed fun name => .bind .expect fun _ => ?_
  refine .bind (initializer_composed ht) fun init => .bind .expect fun _ => ?_
  refine .bind .spanFrom fun span => .bind (.requireVersion3 ht) fun _ => ?_
  exact .bind (.declare ht) fun _ => .place ht

/-- A type and a name. -/
theorem ioDecl_composed {direction : Direction} (ht : has .tracked) :
    Composed has fun inner => ioDecl inner direction := by
  refine .bind .current fun next => ?_
  cases next with
  | none => exact .unexpected
  | some keyword =>
    refine .bind .advance fun _ => .bind type_composed fun type => ?_
    refine .bind identifier_composed fun name => .bind .expect fun _ => ?_
    refine .bind .spanFrom fun span => .bind (.requireVersion3 ht) fun _ => ?_
    exact .bind (.declare ht) fun _ => .place ht

/-- A name for some joined expressions. -/
theorem aliasDecl_composed (ht : has .tracked) : Composed has aliasDecl := by
  refine .bind .expect fun token => .bind identifier_composed fun name => .bind .expect fun _ => ?_
  refine .bind (.joined (.inner .expression trivial)) fun parts => .bind .expect fun _ => ?_
  refine .bind .spanFrom fun span => .bind (.requireVersion3 ht) fun _ => ?_
  exact .bind (.declare ht) fun _ => .place ht

/-- Parameters in parentheses, or none. -/
theorem gateParams_composed : Composed has fun _ => gateParams := by
  refine .bind .accept fun opened => .ite ?_ .pure
  exact .bind identifiers_composed fun params => .bind .expect fun _ => .pure

/-- The names of a list are declared one after the other. -/
theorem declareAll_composed (ht : has .tracked) (names : List Placed) :
    Composed has fun _ => names.forM declare := by
  induction names with
  | nil => exact .pure
  | cons name names ih => exact .bind (.declare ht) fun _ => ih

/-- The parameters and the qubits of a gate are declared in a scope that its body shares. -/
theorem gateDef_composed (ht : has .tracked) : Composed has gateDef := by
  refine .bind .expect fun token => .bind identifier_composed fun name => ?_
  refine .bind (.inScope ht ?_) fun parts => .bind (.declare ht) fun _ => .placeFrom ht
  refine .bind gateParams_composed fun params => .bind identifiers_composed fun qubits => ?_
  refine .ite (.bind .unexpected fun _ => ?_) ?_
  all_goals
    exact .bind (declareAll_composed ht _) fun _ => .bind (block_composed ht) fun body => .pure

/-- A gate without a body. -/
theorem opaqueDecl_composed (ht : has .tracked) : Composed has fun _ => opaqueDecl := by
  refine .bind .expect fun token => .bind identifier_composed fun name => ?_
  refine .bind gateParams_composed fun params => .bind identifiers_composed fun qubits => ?_
  refine .bind .expect fun _ => .bind (.deprecated ht) fun _ => ?_
  exact .bind (.declare ht) fun _ => .placeFrom ht

/-- A name and a size, declared where the parameter stands. -/
theorem registerParam_composed {register : RegisterKind} (ht : has .tracked) :
    Composed has fun inner => registerParam inner register := by
  refine .bind .currentSpan fun start => .bind .advance fun _ => ?_
  refine .bind identifier_composed fun name => .bind designator_composed fun size => ?_
  exact .bind (.declare ht) fun _ => .placeFrom ht

/-- A reference to an array, or a type. -/
theorem paramType_composed : Composed has paramType := by
  refine .bind .peek fun next => ?_
  split
  · exact arrayRefType_composed
  · exact arrayRefType_composed
  · exact type_composed

/-- A register, or a type and a name. -/
theorem subroutineParam_composed (ht : has .tracked) : Composed has subroutineParam := by
  refine .bind .currentSpan fun start => .bind .peek fun next => ?_
  split
  · exact registerParam_composed ht
  · exact registerParam_composed ht
  · refine .bind paramType_composed fun type => .bind identifier_composed fun name => ?_
    exact .bind (.declare ht) fun _ => .placeFrom ht

/-- A type behind an arrow, or none. -/
theorem returnType_composed : Composed has returnType :=
  .bind .accept fun _ => .ite (.map type_composed) .pure

/-- The parameters of a subroutine are declared in a scope that its body shares. -/
theorem subroutineDef_composed (ht : has .tracked) : Composed has subroutineDef := by
  refine .bind .expect fun token => .bind identifier_composed fun name => ?_
  refine .bind (.inScope ht ?_) fun parts => .bind (.requireVersion3 ht) fun _ => ?_
  · refine .bind .expect fun _ => .bind (.separated (subroutineParam_composed ht)) fun params => ?_
    refine .bind .expect fun _ => .bind returnType_composed fun result => ?_
    exact .bind (block_composed ht) fun body => .pure
  · exact .bind (.declare ht) fun _ => .placeFrom ht

/-- The keyword and the size of a register without a name. -/
theorem registerType_composed : Composed has registerType := by
  refine .bind .currentSpan fun start => .bind .advance fun _ => ?_
  exact .bind designator_composed fun size => .placeFrom trivial

/-- A register without a name, or a type. -/
theorem externParam_composed : Composed has externParam := by
  refine .bind .peek fun next => ?_
  split
  · exact registerType_composed
  · exact paramType_composed

/-- A name with the types of its parameters and of its result. -/
theorem externDecl_composed (ht : has .tracked) : Composed has externDecl := by
  refine .bind .expect fun token => .bind identifier_composed fun name => .bind .expect fun _ => ?_
  refine .bind (.separated externParam_composed) fun params => .bind .expect fun _ => ?_
  refine .bind returnType_composed fun result => .bind .expect fun _ => ?_
  refine .bind .spanFrom fun span => .bind (.requireVersion3 ht) fun _ => ?_
  exact .bind (.declare ht) fun _ => .place ht

/-! ## Statements -/

/-- A duration in brackets and the operands. -/
theorem delay_composed (ht : has .tracked) : Composed has delay := by
  refine .bind .expect fun token => .bind .expect fun _ => ?_
  refine .bind (.inner .expression trivial) fun duration => .bind .expect fun _ => ?_
  refine .bind operands_composed fun operands => .bind .expect fun _ => ?_
  exact .bind .spanFrom fun span => .bind (.requireVersion3 ht) fun _ => .place ht

/-- The keyword and its operand. -/
theorem reset_composed : Composed has reset := by
  refine .bind .expect fun token => .bind operand_composed fun operand => ?_
  exact .bind .expect fun _ => .placeFrom trivial

/-- The keyword and its operands. -/
theorem barrier_composed : Composed has barrier := by
  refine .bind .currentSpan fun start => .bind .advance fun _ => ?_
  exact .bind operands_composed fun operands => .bind .expect fun _ => .placeFrom trivial

/-- The keyword and its operands, which version 2 lacks. -/
theorem nop_composed (ht : has .tracked) : Composed has nop := by
  refine .bind .currentSpan fun start => .bind .advance fun _ => ?_
  refine .bind operands_composed fun operands => .bind .expect fun _ => ?_
  exact .bind .spanFrom fun span => .bind (.requireVersion3 ht) fun _ => .place ht

/-- A measurement, and a target behind an arrow. -/
theorem measureStatement_composed : Composed has measureStatement := by
  refine .bind .currentSpan fun start => .bind measurement_composed fun measured => ?_
  refine .bind .accept fun stored => .ite (.bind (.map operand_composed) fun target => ?_)
    (.bind .pure fun target => ?_)
  all_goals exact .bind .expect fun _ => .placeFrom trivial

/-- A modifier, its argument if a parenthesis follows, and the sign behind it. -/
theorem gateModifier_composed {modifier : ModifierKind} :
    Composed has fun inner => gateModifier inner modifier := by
  refine .bind .currentSpan fun start => .bind .advance fun _ => .bind .accept fun opened => ?_
  refine .ite (.bind (.inner .expression trivial) fun arg => .bind .expect fun _ => ?_) ?_
  all_goals exact .bind .pure fun arg => .bind .expect fun _ => .placeFrom trivial

/-- One modifier after the other. -/
theorem gateModifiers_composed : Composed has gateModifiers := by
  refine .iterate fun modifiers => .bind .peek fun next => ?_
  cases next.bind modifierKind? with
  | some modifier => exact .bind gateModifier_composed fun node => .pure
  | none => exact .pure

/-- The name of a gate is an identifier or the one keyword that is a gate. -/
theorem gateName_composed : Composed has fun _ => gateName := by
  refine .bind .current fun next => ?_
  cases next with
  | none => exact .unexpected
  | some token => exact .ite (.bind .advance fun _ => .place trivial) .unexpected

/-- Expressions in parentheses, or none. -/
theorem gateArguments_composed : Composed has gateArguments := by
  refine .bind .accept fun opened => .ite ?_ .pure
  exact .bind expressions_composed fun args => .bind .expect fun _ => .pure

/-- Modifiers, a name, arguments, a duration and operands. -/
theorem gateCall_composed : Composed has gateCall := by
  refine .bind .currentSpan fun start => .bind gateModifiers_composed fun modifiers => ?_
  refine .bind gateName_composed fun callee => .bind gateArguments_composed fun args => ?_
  refine .bind designator_composed fun duration => .bind operands_composed fun operands => ?_
  exact .bind .expect fun _ => .placeFrom trivial

/-- A duration, if there is one, and a block. -/
theorem boxStatement_composed (ht : has .tracked) : Composed has boxStatement := by
  refine .bind .expect fun token => .bind designator_composed fun duration => ?_
  refine .bind (block_composed ht) fun body => .bind .spanFrom fun span => ?_
  exact .bind (.requireVersion3 ht) fun _ => .place ht

/-- An operand, an operator and a value. -/
theorem assignment_composed : Composed has assignment := by
  refine .bind .currentSpan fun start => .bind operand_composed fun target => ?_
  refine .bind .peek fun next => ?_
  cases next.bind assignOp? with
  | some op =>
    refine .bind .advance fun _ => .bind value_composed fun value => ?_
    exact .bind .expect fun _ => .placeFrom trivial
  | none => exact .unexpected

/-- A nested expression. -/
theorem expressionStatement_composed : Composed has expressionStatement := by
  refine .bind .currentSpan fun start => .bind (.inner .expression trivial) fun expr => ?_
  exact .bind .expect fun _ => .placeFrom trivial

/-- A keyword by itself. -/
theorem jump_composed {kind : NodeKind Placed} (h : Placeable has kind) :
    Composed has fun _ => jump kind := by
  refine .bind .currentSpan fun start => .bind .advance fun _ => ?_
  exact .bind .expect fun _ => .placeFrom h

/-- The keyword and a value, if there is one. -/
theorem returnStatement_composed : Composed has returnStatement := by
  refine .bind .expect fun token => .bind .sees fun empty => .ite (.bind .pure fun value => ?_)
    (.bind (.map value_composed) fun value => ?_)
  all_goals exact .bind .expect fun _ => .placeFrom trivial

/-- A nested expression in parentheses. -/
theorem condition_composed : Composed has condition := by
  refine .bind .expect fun _ => .bind (.inner .expression trivial) fun condition => ?_
  exact .bind .expect fun _ => .pure

/-- A block, or one nested statement in a scope of its own. -/
theorem body_composed (ht : has .tracked) (h : has .bareBody) : Composed has body :=
  .bind .sees fun _ => .ite (block_composed ht) (.inScope ht (.inner .statement h))

/-- A condition, a body, and another one behind `else`. -/
theorem ifStatement_composed (ht : has .tracked) (h : has .bareBody) :
    Composed has ifStatement := by
  refine .bind .expect fun token => .bind condition_composed fun condition => ?_
  refine .bind (body_composed ht h) fun thenBranch => .bind .accept fun more => ?_
  refine .ite (.bind (.map (body_composed ht h)) fun elseBranch => ?_)
    (.bind .pure fun elseBranch => ?_)
  all_goals exact .placeFrom ht

/-- A range, a set or an expression. -/
theorem iterable_composed : Composed has iterable := by
  refine .bind .peek fun next => ?_
  split
  · refine .bind .advance fun _ => .bind rangeOrExpression_composed fun range => ?_
    exact .bind .expect fun _ => .pure
  · exact setLiteral_composed
  · exact .inner .expression trivial

/-- A type, unless the variable follows at once. -/
theorem loopType_composed : Composed has loopType :=
  .get (fun _ _ _ => rfl) fun _ => .ite .pure (.map type_composed)

/-- The variable of a loop is declared in a scope that its body shares. -/
theorem forStatement_composed (ht : has .tracked) (h : has .bareBody) :
    Composed has forStatement := by
  refine .bind .expect fun token => .bind (.requireVersion3 ht) fun _ => ?_
  refine .bind loopType_composed fun type => .bind (.inScope ht ?_) fun parts => .placeFrom ht
  refine .bind identifier_composed fun var => .bind .expect fun _ => ?_
  refine .bind iterable_composed fun iterable => .bind (.declare ht) fun _ => ?_
  exact .bind (body_composed ht h) fun body => .pure

/-- A condition and a body. -/
theorem whileStatement_composed (ht : has .tracked) (h : has .bareBody) :
    Composed has whileStatement := by
  refine .bind .expect fun token => .bind (.requireVersion3 ht) fun _ => ?_
  refine .bind condition_composed fun condition => .bind (body_composed ht h) fun body => ?_
  exact .placeFrom ht

/-- The cases of a switch are nested in an open block. -/
theorem switchStatement_composed (ht : has .tracked) : Composed has switchStatement := by
  refine .bind .expect fun token => .bind (.requireVersion3 ht) fun _ => ?_
  refine .bind condition_composed fun subject => .bind .expect fun _ => ?_
  refine .bind (.blockOpen (.inner .cases trivial)) fun cases => ?_
  exact .bind .expect fun _ => .placeFrom ht

/-- One case after the other up to the closing brace. -/
theorem cases_composed (ht : has .tracked) : Composed has cases := by
  refine .iterate fun cases => .bind .currentSpan fun start => .bind .peek fun next => ?_
  split
  · refine .bind .advance fun _ => .bind expressions_composed fun values => ?_
    refine .ite (.bind .unexpected fun _ => ?_) ?_
    all_goals
      refine .bind (block_composed ht) fun body => ?_
      exact .bind (.placeFrom trivial) fun node => .pure
  · refine .bind .advance fun _ => .bind (block_composed ht) fun body => ?_
    exact .bind (.placeFrom trivial) fun node => .pure
  · exact .pure
  · exact .unexpected

/-! ## The choice of a statement -/

/-- What an identifier begins is decided by the tokens ahead. -/
theorem identifierStart_composed : Composed has identifierStart := by
  refine .get (fun _ _ _ => rfl) fun state => ?_
  split
  · exact gateCall_composed
  · exact assignment_composed
  · exact expressionStatement_composed

/-- What a type begins is a cast or a declaration, as the tokens ahead tell. -/
theorem typeStart_composed (ht : has .tracked) : Composed has typeStart :=
  .get (fun _ _ _ => rfl) fun _ => .ite expressionStatement_composed (classicalDecl_composed ht)

/-- A statement that a condition or a loop governs may stand without braces. -/
def governingKeywords : List Keyword := [.kwIf, .kwFor, .kwWhile]

/-- What is left to the tools of a calibration grammar, up to a body in braces. -/
def calibrationKeywords : List Keyword := [.kwCal, .kwDefcal]

/-- Each keyword has its statement; what some of them need is asked for those only. -/
theorem keywordStart_composed {keyword : Keyword} (hi : keyword = .kwInclude → has .inclusion)
    (hc : keyword ∈ calibrationKeywords → has .calibration)
    (hb : keyword ∈ governingKeywords → has .bareBody) (ht : has .tracked) :
    Composed has fun inner => keywordStart inner keyword := by
  unfold keywordStart
  split
  case h_1 => exact versionStatement_composed ht
  case h_2 => exact includeStatement_composed (hi rfl)
  case h_3 => exact calibrationGrammar_composed ht
  case h_4 => exact qubitDecl_composed ht
  case h_5 => exact registerDecl_composed ht
  case h_6 => exact registerDecl_composed ht
  case h_7 => exact constDecl_composed ht
  case h_8 => exact ioDecl_composed ht
  case h_9 => exact ioDecl_composed ht
  case h_10 => exact aliasDecl_composed ht
  case h_11 => exact gateDef_composed ht
  case h_12 => exact opaqueDecl_composed ht
  case h_13 => exact subroutineDef_composed ht
  case h_14 => exact externDecl_composed ht
  case h_15 => exact cal_composed ht (hc (by decide))
  case h_16 => exact defcal_composed ht (hc (by decide))
  case h_17 => exact boxStatement_composed ht
  case h_18 => exact jump_composed trivial
  case h_19 => exact jump_composed trivial
  case h_20 => exact jump_composed trivial
  case h_21 => exact returnStatement_composed
  case h_22 => exact ifStatement_composed ht (hb (by decide))
  case h_23 => exact forStatement_composed ht (hb (by decide))
  case h_24 => exact whileStatement_composed ht (hb (by decide))
  case h_25 => exact switchStatement_composed ht
  case h_26 => exact delay_composed ht
  case h_27 => exact reset_composed
  case h_28 => exact barrier_composed
  case h_29 => exact nop_composed ht
  case h_30 => exact measureStatement_composed
  case h_36 =>
    exact .ite (typeStart_composed ht) (.ite expressionStatement_composed .unexpected)
  all_goals exact gateCall_composed

/-- A statement is what the next token begins. Includes and calibrations are placed only behind
their keywords, and statements without braces only behind those that govern them. -/
theorem exists_statementAt : ∃ statementAt : Option Token → Level → Parser Placed,
    (∀ inner, statement inner = current >>= fun next => statementAt next inner) ∧
    ∀ (has : Feature → Prop) (next : Option Token), has .tracked →
      (next.map Token.kind = some Keyword.kwInclude → has .inclusion) →
      (∀ keyword ∈ calibrationKeywords, next.map Token.kind = some keyword → has .calibration) →
      (∀ keyword ∈ governingKeywords, next.map Token.kind = some keyword → has .bareBody) →
      Composed has (statementAt next) := by
  refine ⟨fun next inner => _, fun inner => rfl, fun has next ht hi hc hb => ?_⟩
  cases next with
  | none => exact .unexpected
  | some token =>
    dsimp only
    split
    · next hk =>
      rw [Option.map_some, hk] at hi hc hb
      exact keywordStart_composed (fun h => hi (h ▸ rfl)) (fun h => hc _ h rfl)
        (fun h => hb _ h rfl) ht
    · exact .bind .advance fun _ => .place trivial
    · exact .bind .advance fun _ => annotationLine_composed
    · exact block_composed ht
    · exact identifierStart_composed
    · exact .ite expressionStatement_composed .unexpected

/-- Where everything is allowed, every statement is composed. -/
theorem statement_composed : Composed (fun _ => True) statement := by
  obtain ⟨statementAt, heq, hc⟩ := exists_statementAt
  rw [show statement = fun inner => current >>= fun next => statementAt next inner from funext heq]
  refine .bind .current fun next => ?_
  exact hc _ next trivial (fun _ => trivial) (fun _ _ _ => trivial) fun _ _ _ => trivial

/-! ## Levels -/

/-- A production other than statements is composed of those of the next level. It places no include,
and all its statements stand in blocks. -/
theorem parse_composed_of_readable {production : Production}
    (h : Readable (· = .tracked) production) (ht : has .tracked) :
    Composed has production.parse := by
  cases production with
  | expression => exact binaryFrom_composed ht 1
  | unary => exact unaryExpression_composed ht
  | scalarType => exact scalarType_composed
  | statement => exact nomatch h
  | blockItems => exact h.elim
  | cases => exact cases_composed ht
  | arrayLiteral => exact arrayLiteral_composed

/-- A production other than the statements of a block is composed of those of the next level. -/
theorem parse_composed {production : Production} (h : production ≠ .blockItems) :
    Composed (fun _ => True) production.parse := by
  cases production with
  | statement => exact statement_composed
  | blockItems => exact absurd rfl h
  | _ => exact parse_composed_of_readable trivial trivial

end OpenQasm.Grammar
