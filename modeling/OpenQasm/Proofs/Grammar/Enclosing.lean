import OpenQasm.Proofs.Grammar.Grouping
import OpenQasm.Proofs.Grammar.Levels
import OpenQasm.Proofs.Grammar.Soundness

/-!
# What brackets enclose

The tokens of an expression nest in their brackets and no semicolon stands among them, as long as
there is no `durationof`. Only there does an expression hold statements: these end with semicolons,
and what is passed over after an error among them need not nest at all.
-/

namespace OpenQasm.Grammar

/-- If no `durationof` is among the tokens, their brackets nest and no semicolon is among them. -/
def Clear (tokens : List Token) : Prop :=
  (∀ token ∈ tokens, token.kind ≠ Keyword.kwDurationOf) → Nests tokens ∧ Unbroken tokens

/-- Tokens that are neither brackets nor semicolons. -/
def Plain (kind : TokenKind) : Prop :=
  isOpening kind = false ∧ isClosing kind = false ∧ kind ≠ Symbol.semicolon

instance : DecidablePred Plain := fun _ => inferInstanceAs (Decidable (_ ∧ _ ∧ _))

/-- The tokens read since the base are clear. -/
def Passes (base state : State) : Prop := ∃ read, base.rest = read ++ state.rest ∧ Clear read

/-- The tokens read since the base are a group whose inside is clear. -/
def Encloses (left : TokenKind) (base state : State) : Prop :=
  ∃ group : Group, group.left.kind = left ∧ base.rest = group.tokens ++ state.rest ∧
    Clear group.inside

section
variable {token : Token} {tokens more : List Token} {kind left : TokenKind}
  {base middle state after : State}

/-! ## Clear tokens -/

namespace Clear

/-- No tokens at all. -/
theorem nil : Clear [] := fun _ => ⟨.nil, unbroken_nil⟩

/-- Clear tokens behind clear ones. -/
theorem append (h : Clear tokens) (h' : Clear more) : Clear (tokens ++ more) := by
  intro hno
  obtain ⟨hfront, hback⟩ := List.forall_mem_append.1 hno
  exact ⟨(h hfront).1.append (h' hback).1, (h hfront).2.append (h' hback).2⟩

/-- A token that is neither a bracket nor a semicolon. -/
theorem singleton (h : Plain token.kind) : Clear [token] := by
  intro _
  refine ⟨.token h.1 h.2.1 .nil, fun other hm => ?_⟩
  rw [List.mem_singleton.1 hm]
  exact h.2.2

/-- A group whose inside is clear. -/
theorem group {group : Group} (h : Clear group.inside) : Clear group.tokens := by
  intro hno
  obtain ⟨-, hno⟩ := List.forall_mem_cons.1 hno
  obtain ⟨hnests, hunbroken⟩ := h (List.forall_mem_append.1 hno).1
  refine ⟨.group group.opening group.closing hnests .nil, ?_⟩
  exact group.unbroken_tokens_iff.2 hunbroken

/-- With a `durationof`, tokens may be anything. -/
theorem of_durationOf (hm : token ∈ tokens) (hk : token.kind = Keyword.kwDurationOf) :
    Clear tokens := fun hno => absurd hk (hno token hm)

end Clear

/-- The keyword of a type is neither a bracket nor a semicolon. -/
theorem plain_of_scalarKind {scalar : ScalarKind} (h : scalarKind? kind = some scalar) :
    Plain kind := by
  unfold scalarKind? at h
  split at h <;> first | decide | cases h

/-- An operator between two operands is neither a bracket nor a semicolon. -/
theorem plain_of_binaryOp {op : BinaryOp} (h : binaryOp? kind = some op) : Plain kind := by
  unfold binaryOp? at h
  split at h <;> first | decide | cases h

/-- A sign is neither a bracket nor a semicolon. -/
theorem plain_of_unaryOp {op : UnaryOp} (h : unaryOp? kind = some op) : Plain kind := by
  unfold unaryOp? at h
  split at h <;> first | decide | cases h

/-! ## States -/

namespace Passes

/-- Where nothing is read, all that is read is clear. -/
theorem refl (state : State) : Passes state state := ⟨[], rfl, .nil⟩

/-- What is read in two steps is clear if both are. -/
theorem trans (h : Passes base middle) (h' : Passes middle after) : Passes base after := by
  obtain ⟨read, hread, hclear⟩ := h
  obtain ⟨more, hmore, hclear'⟩ := h'
  exact ⟨read ++ more, by rw [hread, hmore, List.append_assoc], hclear.append hclear'⟩

/-- One plain token is read. -/
theorem step (hr : base.rest = token :: after.rest) (h : Plain token.kind) : Passes base after :=
  ⟨[token], hr, .singleton h⟩

end Passes

/-- A group is clear as a whole. -/
theorem Encloses.passes (h : Encloses left base after) : Passes base after := by
  obtain ⟨group, -, hr, hclear⟩ := h
  exact ⟨group.tokens, hr, .group hclear⟩

end

/-! ## Parsers -/

section
variable {α β : Type} {context : Context} {parser : Parser α} {next : α → Parser β}
  {kind : TokenKind} {left right : Symbol} {base opened state : State} {token : Token}

/-- What a parser reads is clear. -/
def Passing (context : Context) (parser : Parser α) : Prop :=
  ∀ state, MayRead context parser state fun _ after => Passes state after

/-- A parser reads no token. -/
def Idle (context : Context) (parser : Parser α) : Prop :=
  ∀ state, MayRead context parser state fun _ after => after.rest = state.rest

namespace Idle

/-- A value by itself. -/
theorem pure {value : α} : Idle context (pure value) := fun _ => rfl

/-- Two parsers that read nothing, one after the other. -/
theorem bind (h : Idle context parser) (hn : ∀ value, Idle context (next value)) :
    Idle context (parser >>= next) := fun state =>
  (h state).bind fun value middle hr => (hn value middle).mono fun _ _ hr' => hr'.trans hr

/-- A node is placed. -/
theorem place {node : NodeKind Placed} {span : Span} : Idle context (place node span) :=
  fun _ => Comes.place (fun _ => trivial) fun _ _ _ hr _ _ => hr

/-- A node is placed over what has been read. -/
theorem placeFrom {node : NodeKind Placed} {start : Span} :
    Idle context (placeFrom start node) :=
  fun _ => Comes.placeFrom (fun _ => trivial) fun _ _ _ hr _ _ => hr

/-- A look at the next token. -/
theorem peek : Idle context peek := fun _ => rfl

/-- A look whether the next token is of a kind. -/
theorem sees : Idle context (sees kind) := fun _ => rfl

/-- A look at the span of the next token. -/
theorem currentSpan : Idle context currentSpan := by
  intro state
  rw [← bind_pure Grammar.currentSpan]
  exact Comes.currentSpan fun _ => rfl

/-- A report. -/
theorem report {code : Code} {span : Span} {message : String} :
    Idle context (report code span message) := fun _ => rfl

/-- A failure reads nothing. -/
theorem unexpected {expected : String} : Idle context (unexpected expected : Parser α) :=
  fun _ => MayRead.unexpected

/-- Where no token is read, none is amiss. -/
theorem passing (h : Idle context parser) : Passing context parser := fun state =>
  (h state).mono fun _ _ hr => ⟨[], hr.symm, .nil⟩

end Idle

namespace Passing

/-- A value by itself. -/
theorem pure {value : α} : Passing context (pure value) := Idle.pure.passing

/-- Two parsers, one after the other. -/
theorem bind (h : Passing context parser) (hn : ∀ value, Passing context (next value)) :
    Passing context (parser >>= next) := fun state =>
  (h state).bind fun value middle hp => (hn value middle).mono fun _ _ hp' => hp.trans hp'

/-- What is read after clear tokens is clear. -/
theorem after (hp : Passes base state) (h : Passing context parser) :
    MayRead context parser state fun _ after => Passes base after :=
  (h state).mono fun _ _ hp' => hp.trans hp'

/-- A failure reads nothing. -/
theorem unexpected {expected : String} : Passing context (unexpected expected : Parser α) :=
  Idle.unexpected.passing

/-- A node is placed. -/
theorem place {node : NodeKind Placed} {span : Span} : Passing context (place node span) :=
  Idle.place.passing

/-- A node is placed over what has been read. -/
theorem placeFrom {node : NodeKind Placed} {start : Span} :
    Passing context (placeFrom start node) := Idle.placeFrom.passing

/-- A plain token is read. -/
theorem expect (h : Plain kind) : Passing context (expect kind) := by
  intro state
  rw [← bind_pure (Grammar.expect kind)]
  apply Comes.expect (fun _ _ => trivial)
  intro token rest after hr hk hrest _
  exact Passes.step (hrest ▸ hr) (hk ▸ h)

/-- A plain token is read, or none. -/
theorem accept (h : Plain kind) : Passing context (accept kind) := by
  intro state
  refine Comes.sees (fun token rest hr hk => ?_) fun _ => .refl state
  exact Comes.advance hr fun after hrest _ => Passes.step (hrest ▸ hr) (hk ▸ h)

/-- A token that is neither a bracket nor a semicolon, and what is read after it. -/
theorem advance {next : Unit → Parser β} {rest : List Token} (hr : state.rest = token :: rest)
    (hk : Plain token.kind) (h : Passing context (next ())) :
    MayRead context (advance >>= next) state fun _ after => Passes state after := by
  apply Comes.advance hr
  intro middle hrest _
  exact h.after (Passes.step (hrest ▸ hr) hk)

/-- A loop reads what is clear if its rounds do. -/
theorem iterate {round : α → Parser (Turn α β)} {value : α}
    (h : ∀ value, Passing context (round value)) : Passing context (iterate round value) := by
  intro base
  refine Comes.loop (fun _ state => Passes base state) trivial (fun value state hp => ?_)
    (.refl base)
  apply ((h value).after hp).mono
  intro turn after hp'
  cases turn <;> exact hp'

/-- The depth does not matter. -/
theorem nested (h : Passing context parser) : Passing context (nested parser) := fun state =>
  Comes.nested (fun _ _ => trivial) (h { state with depth := state.depth + 1 })

/-- An identifier is a plain token. -/
theorem identifier : Passing context identifier :=
  .bind (.expect (by decide)) fun _ => .place

/-- Items between commas. -/
theorem separated {close : Symbol} (h : Passing context parser) :
    Passing context (separated close parser) := by
  refine .iterate fun items => .bind Idle.sees.passing fun seen => ?_
  split
  · exact .pure
  · refine .bind h fun item => .bind (.accept (by decide)) fun seen => ?_
    split <;> exact .pure

/-- Items joined by commas. -/
theorem joined (h : Passing context parser) : Passing context (joined Symbol.comma parser) := by
  refine .bind h fun first => .iterate fun items => .bind (.accept (by decide)) fun seen => ?_
  split
  · exact .bind h fun item => .pure
  · exact .pure

end Passing

/-- The right bracket of a group. -/
theorem closed_encloses {next : Token → Parser β} (hr : base.rest = token :: opened.rest)
    (hk : token.kind = left) (hl : isOpening left = true) (hright : isClosing right = true)
    (hp : Passes opened state) (hn : ∀ token, Idle context (next token)) :
    MayRead context (expect right >>= next) state fun _ after => Encloses left base after := by
  obtain ⟨inside, hinside, hclear⟩ := hp
  apply Comes.expect (fun _ _ => trivial)
  intro last rest closed hr' hk' hrest _
  apply (hn last closed).mono
  intro _ after hafter
  refine ⟨⟨token, inside, last, hk ▸ hl, hk' ▸ hright⟩, hk, ?_, hclear⟩
  rw [hr, hinside, hr', hafter, hrest, Group.tokens, List.cons_append, List.append_assoc,
    List.singleton_append]

/-- A group whose left bracket has been read. -/
theorem opened_encloses {next : α → Token → Parser β} (hr : base.rest = token :: opened.rest)
    (hk : token.kind = left) (hl : isOpening left = true) (hright : isClosing right = true)
    (h : Passing context parser) (hn : ∀ value token, Idle context (next value token)) :
    MayRead context (parser >>= fun value => expect right >>= next value) opened
      fun _ after => Encloses left base after :=
  (h opened).bind fun value _ hp => closed_encloses hr hk hl hright hp (hn value)

/-- A group. -/
theorem expect_encloses {next : Token → α → Token → Parser β} (hl : isOpening left = true)
    (hright : isClosing right = true) (h : Passing context parser)
    (hn : ∀ token value last, Idle context (next token value last)) (base : State) :
    MayRead context
      (expect left >>= fun token => parser >>= fun value => expect right >>= next token value) base
      fun _ after => Encloses left base after := by
  apply Comes.expect (fun _ _ => trivial)
  intro token rest opened hr hk hrest _
  exact opened_encloses (hrest ▸ hr) hk hl hright h (hn token)

/-- A group, or no token. -/
theorem accept_encloses {next : α → Token → Parser β} {no : Parser β} (hl : isOpening left = true)
    (hright : isClosing right = true) (h : Passing context parser)
    (hn : ∀ value last, Idle context (next value last)) (hno : Idle context no) (base : State) :
    MayRead context
      (accept left >>= fun seen =>
        if seen = true then parser >>= fun value => expect right >>= next value else no) base
      fun _ after => after.rest = base.rest ∨ Encloses left base after := by
  refine Comes.accept (fun token rest opened hr hk hrest _ => ?_) fun _ => ?_
  · exact (opened_encloses (hrest ▸ hr) hk hl hright h hn).mono fun _ _ h => .inr h
  · exact (hno base).mono fun _ _ h => .inl h

/-- What brackets enclose, or no token. -/
theorem passes_of_encloses {after : State} (h : after.rest = base.rest ∨ Encloses left base after) :
    Passes base after := by
  cases h with
  | inl hr => exact ⟨[], hr.symm, .nil⟩
  | inr h => exact h.passes

end

/-! ## Productions -/

/-- What is read by the productions of a level. -/
structure PassingLevel (context : Context) (inner : Level) : Prop where
  expression : Passing context (inner .expression)
  unary : Passing context (inner .unary)
  scalarType : Passing context (inner .scalarType)
  block (state : State) : MayRead context (block inner) state fun _ after =>
    ∃ read, state.rest = read ++ after.rest

section
variable {context : Context} {inner : Level} {state : State} {token : Token} {rest : List Token}

/-- A size is a group in square brackets, or nothing. -/
theorem designator_encloses (hs : PassingLevel context inner) (base : State) :
    MayRead context (designator inner) base fun _ after =>
      after.rest = base.rest ∨ Encloses Symbol.leftBracket base after :=
  accept_encloses rfl rfl hs.expression (fun _ _ => .pure) .pure base

/-- A size is clear, given or not. -/
theorem designator_passing (hs : PassingLevel context inner) :
    Passing context (designator inner) := fun base =>
  (designator_encloses hs base).mono fun _ _ => passes_of_encloses

/-- The arguments of a gate are a group in parentheses, or nothing. -/
theorem gateArguments_encloses (hs : PassingLevel context inner) (base : State) :
    MayRead context (gateArguments inner) base fun _ after =>
      after.rest = base.rest ∨ Encloses Symbol.leftParen base after :=
  accept_encloses rfl rfl (.separated hs.expression) (fun _ _ => .pure) .pure base

/-! ### Types -/

/-- The component of a complex type is a group. -/
theorem complexType_passing (hs : PassingLevel context inner)
    (hr : state.rest = token :: rest) (hk : Plain token.kind) :
    MayRead context (complexType inner) state fun _ after => Passes state after := by
  apply Comes.currentSpan
  intro span
  apply Passing.advance hr hk
  intro base
  have hnode {component : Option Placed} :
      Idle context (pure component >>= fun component => placeFrom span (.complexType component)) :=
    .bind .pure fun _ => .placeFrom
  exact (accept_encloses rfl rfl hs.scalarType (fun _ _ => hnode) hnode base).mono
    fun _ _ => passes_of_encloses

/-- A type and its size. -/
theorem scalarType_passing (hs : PassingLevel context inner) :
    Passing context (scalarType inner) := by
  intro state
  refine Comes.currentSpan fun span => Comes.peek ?_
  split
  · next scalar hscalar =>
    obtain ⟨token, rest, hr, hkind⟩ := exists_of_operator hscalar
    refine Passing.advance hr (plain_of_scalarKind hkind) ?_
    exact .bind (designator_passing hs) fun _ => .placeFrom
  · refine Comes.sees (fun token rest hr hk => ?_) fun _ => MayRead.unexpected
    exact complexType_passing hs hr (hk ▸ by decide)

/-- The type of an array: its elements and its dimensions stand in the same brackets. -/
theorem arrayType_passing (hs : PassingLevel context inner)
    (hr : state.rest = token :: rest) (hk : Plain token.kind) :
    MayRead context (arrayType inner) state fun _ after => Passes state after := by
  apply Comes.currentSpan
  intro span
  apply Passing.advance hr hk
  intro base
  have helement : Passing context (scalarType inner >>= fun element =>
      expect Symbol.comma >>= fun _ => pure element) :=
    .bind (scalarType_passing hs) fun _ => .bind (.expect (by decide)) fun _ => .pure
  refine Comes.assoc (Comes.expect (fun _ _ => trivial) fun left rest opened hr hk hrest _ => ?_)
  apply (helement opened).bind
  intro element middle hp
  apply (Passing.after hp (.separated hs.expression)).bind
  intro dims middle hp
  split
  · exact Comes.bind (p := fun _ _ => False) MayRead.unexpected fun _ _ h => h.elim
  · refine (closed_encloses (hrest ▸ hr) hk rfl rfl hp fun _ => .placeFrom).mono ?_
    exact fun _ _ h => h.passes

/-- The keyword of a register and its size. -/
theorem qubitType_passing (hs : PassingLevel context inner)
    (hr : state.rest = token :: rest) (hk : Plain token.kind) :
    MayRead context (qubitType inner) state fun _ after => Passes state after := by
  apply Comes.currentSpan
  intro span
  refine Passing.advance hr hk ?_
  exact .bind (designator_passing hs) fun _ => .placeFrom

/-- Whatever type there is. -/
theorem type_passing (hs : PassingLevel context inner) : Passing context (type inner) := by
  intro state
  refine Comes.peek ?_
  have hstep {kind : TokenKind} (h : state.rest.head?.map Token.kind = some kind)
      (hplain : Plain kind) : ∃ token rest, state.rest = token :: rest ∧ Plain token.kind := by
    obtain ⟨token, htoken, rfl⟩ := Option.map_eq_some_iff.1 h
    obtain ⟨rest, hr⟩ := List.head?_eq_some_iff.1 htoken
    exact ⟨token, rest, hr, hplain⟩
  split
  · next h =>
    obtain ⟨token, rest, hr, hk⟩ := hstep h (by decide)
    exact complexType_passing hs hr hk
  · next h =>
    obtain ⟨token, rest, hr, hk⟩ := hstep h (by decide)
    exact arrayType_passing hs hr hk
  · next h =>
    obtain ⟨token, rest, hr, hk⟩ := hstep h (by decide)
    exact qubitType_passing hs hr hk
  · exact scalarType_passing hs state

/-! ### Literals -/

/-- The token of a literal has been read before. -/
theorem literal_idle {text : List Char} {span : Span} {kind : LiteralKind} :
    Idle context (literal text span kind) := by
  unfold literal
  split
  · exact .place
  · exact fun _ => trivial
  · exact .bind .report fun _ => .place

/-- The token of a physical qubit has been read before. -/
theorem hardwareQubit_idle : Idle context (hardwareQubit token) := by
  unfold hardwareQubit
  split
  · exact .place
  · exact .bind .report fun _ => .place

/-- At most one keyword is read behind a number. -/
theorem number_passing : Passing context (number token) := by
  intro state
  refine Comes.current ?_
  have hsingle : Passing context (number.single token) := literal_idle.passing
  split
  · next unit hunit =>
    split
    · next hm =>
      obtain ⟨rest, hr⟩ := List.head?_eq_some_iff.1 hunit
      have hk : unit.kind = Keyword.kwIm := eq_of_beq (Bool.and_eq_true_iff.1 hm).2
      apply Passing.advance hr (hk ▸ by decide)
      intro state
      exact literal_idle.passing state
    · exact hsingle state
  · exact hsingle state

/-! ### Brackets -/

/-- A part of a range, if it is there. -/
theorem rangePart_passing (hs : PassingLevel context inner) :
    Passing context (rangePart inner) := by
  refine .bind Idle.peek.passing fun next => ?_
  split
  case h_5 => exact .bind hs.expression fun _ => .pure
  all_goals exact .pure

/-- Colons are plain tokens. -/
theorem rangeAfter_passing (hs : PassingLevel context inner) {span : Span}
    {start : Option Placed} : Passing context (rangeAfter inner span start) := by
  refine .bind (.expect (by decide)) fun _ => .bind (rangePart_passing hs) fun second => ?_
  refine .bind (.accept (by decide)) fun seen => ?_
  split
  · exact .bind (rangePart_passing hs) fun third => .placeFrom
  · exact .placeFrom

/-- A range or an expression. -/
theorem rangeOrExpression_passing (hs : PassingLevel context inner) :
    Passing context (rangeOrExpression inner) := by
  refine .bind Idle.currentSpan.passing fun span => .bind Idle.sees.passing fun seen => ?_
  split
  · exact rangeAfter_passing hs
  · refine .bind hs.expression fun first => .bind Idle.sees.passing fun seen => ?_
    split
    · exact rangeAfter_passing hs
    · exact .pure

/-- A set is a group in braces. -/
theorem setLiteral_passing (hs : PassingLevel context inner) :
    Passing context (setLiteral inner) := fun base =>
  (expect_encloses rfl rfl (.separated hs.expression) (fun _ _ _ => .placeFrom) base).mono
    fun _ _ h => h.passes

/-- An item of an index. -/
theorem indexItem_passing (hs : PassingLevel context inner) :
    Passing context (indexItem inner) := by
  refine .bind Idle.sees.passing fun seen => ?_
  split
  · exact setLiteral_passing hs
  · exact rangeOrExpression_passing hs

/-- The items of an index are a group in square brackets. -/
theorem indexed_encloses (hs : PassingLevel context inner) (node : Placed) (base : State) :
    MayRead context (indexed inner node) base fun _ after =>
      Encloses Symbol.leftBracket base after :=
  expect_encloses rfl rfl (.joined (indexItem_passing hs)) (fun _ _ _ => .placeFrom) base

/-- One group after the other. -/
theorem indices_passing (hs : PassingLevel context inner) {node : Placed} :
    Passing context (indices inner node) := by
  refine .iterate fun node => .bind Idle.sees.passing fun seen => ?_
  split
  · refine .bind (fun base => ?_) fun indexed => .pure
    exact (indexed_encloses hs node base).mono fun _ _ h => h.passes
  · exact .pure

/-! ### Expressions without operators -/

/-- A name, and its arguments as a group in parentheses. -/
theorem identifierOrCall_passing (hs : PassingLevel context inner) :
    Passing context (identifierOrCall inner token) := by
  refine .bind .identifier fun callee base => ?_
  exact (accept_encloses rfl rfl (.separated hs.expression) (fun _ _ => .placeFrom) .pure base).mono
    fun _ _ => passes_of_encloses

/-- A type, and its operand as a group in parentheses. -/
theorem castExpression_passing (hs : PassingLevel context inner) :
    Passing context (castExpression inner token) := by
  refine .bind (type_passing hs) fun type base => ?_
  exact (expect_encloses rfl rfl hs.expression (fun _ _ _ => .placeFrom) base).mono
    fun _ _ h => h.passes

/-- What stands in a `durationof` need not be clear. -/
theorem durationOf_passes (hs : PassingLevel context inner)
    (hr : state.rest = token :: rest) (hk : token.kind = Keyword.kwDurationOf) :
    MayRead context (do
      advance
      let _ ← expect Symbol.leftParen
      let body ← block inner
      let _ ← expect Symbol.rightParen
      placeFrom token.span (.durationOf body)) state fun _ after => Passes state after := by
  apply Comes.advance hr
  intro named hnamed _
  apply Comes.expect (fun _ _ => trivial)
  intro left rest opened hr' _ hrest _
  apply (hs.block opened).bind
  rintro body middle ⟨read, hread⟩
  apply Comes.expect (fun _ _ => trivial)
  intro right rest' closed hr'' _ hrest' _
  apply Comes.placeFrom (fun _ => trivial)
  intro placed span after hafter _ _
  refine ⟨token :: left :: (read ++ [right]), ?_, .of_durationOf List.mem_cons_self hk⟩
  rw [hr, ← hnamed, hr', ← hrest, hread, hr'', hafter, hrest']
  simp

/-- All primaries are clear; a duration holds statements, but then its keyword is among the tokens.
-/
theorem primaryAt_passes (hs : PassingLevel context inner) (hr : state.rest = token :: rest) :
    MayRead context (primaryAt inner token) state fun _ after => Passes state after := by
  unfold primaryAt
  split
  · next hk => exact Passing.advance hr (hk ▸ by decide) number_passing
  · next hk => exact Passing.advance hr (hk ▸ by decide) number_passing
  · next hk => exact Passing.advance hr (hk ▸ by decide) number_passing
  · next hk => exact Passing.advance hr (hk ▸ by decide) .place
  · next hk => exact Passing.advance hr (hk ▸ by decide) .place
  · next hk => exact Passing.advance hr (hk ▸ by decide) .place
  · next hk => exact Passing.advance hr (hk ▸ by decide) .place
  · next hk => exact Passing.advance hr (hk ▸ by decide) .place
  · next hk => exact Passing.advance hr (hk ▸ by decide) .place
  · next hk => exact Passing.advance hr (hk ▸ by decide) hardwareQubit_idle.passing
  · exact identifierOrCall_passing hs state
  · next hk =>
    apply Comes.advance hr
    intro opened hopened _
    exact Comes.mono (opened_encloses (hopened ▸ hr) hk rfl rfl hs.expression fun _ _ => .placeFrom)
      fun _ _ h => h.passes
  · next hk => exact durationOf_passes hs hr hk
  · split
    · exact castExpression_passing hs state
    · exact MayRead.unexpected

/-- A primary, whatever it begins with. -/
theorem primary_passing (hs : PassingLevel context inner) : Passing context (primary inner) := by
  intro state
  refine Comes.current ?_
  split
  · next token htoken =>
    obtain ⟨rest, hr⟩ := List.head?_eq_some_iff.1 htoken
    exact primaryAt_passes hs hr
  · exact MayRead.unexpected

/-! ### Operators -/

/-- A base and an exponent. -/
theorem power_passing (hs : PassingLevel context inner) : Passing context (power inner) := by
  refine .bind (.bind (primary_passing hs) fun _ => indices_passing hs) fun base => ?_
  refine .bind (.accept (by decide)) fun seen => ?_
  split
  · exact .bind hs.unary fun exponent => .place
  · exact .pure

/-- A sign and its operand, or a power. -/
theorem unaryExpression_passing (hs : PassingLevel context inner) :
    Passing context (unaryExpression inner) := by
  intro state
  refine Comes.peek ?_
  split
  · next op hop =>
    obtain ⟨token, rest, hr, hkind⟩ := exists_of_operator hop
    apply Comes.currentSpan
    intro span
    refine Passing.advance hr (plain_of_unaryOp hkind) ?_
    exact .bind hs.unary fun operand => .placeFrom
  · exact power_passing hs state

/-- Operators are plain tokens, and the climbs between them are clear by induction. -/
theorem binaryFrom_passing (hs : PassingLevel context inner) (least : Nat) :
    Passing context (binaryFrom inner least) := by
  induction least using climb_induction with
  | _ least ih =>
    rw [binaryFrom_eq]
    refine .bind (unaryExpression_passing hs) fun first => .iterate fun left state => ?_
    refine Comes.peek ?_
    split
    · next op hop =>
      split
      · exact .refl state
      · next htight =>
        obtain ⟨token, rest, hr, hkind⟩ := exists_of_operator hop
        refine Passing.advance hr (plain_of_binaryOp hkind) ?_
        exact .bind (ih op (Nat.not_lt.1 htight)) fun right => .bind .place fun _ => .pure
    · exact .refl state

/-- What is read by the productions of all levels. -/
theorem level_passing (context : Context) (levels : Nat) :
    PassingLevel context (level levels) := by
  have hblock (levels : Nat) (state : State) : MayRead context (block (level levels)) state
      fun _ after => ∃ read, state.rest = read ++ after.rest := by
    have hcomposed : Composed (fun _ => True) block := block_composed trivial
    have hforward : Forward state (ending (block (level levels) context state)) :=
      hcomposed.forward levels state
    obtain ⟨read, hread, -⟩ := hforward.read
    refine mayRead_iff.2 fun node after hok => ⟨read, ?_⟩
    rwa [hok] at hread
  induction levels with
  | zero => exact ⟨fun _ => trivial, fun _ => trivial, fun _ => trivial, hblock 0⟩
  | succ levels ih =>
    exact ⟨.nested (binaryFrom_passing ih 1), .nested (unaryExpression_passing ih),
      .nested (scalarType_passing ih), hblock (levels + 1)⟩

end

end OpenQasm.Grammar
