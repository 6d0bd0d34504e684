import OpenQasm.Proofs.Grammar.Enclosing
import OpenQasm.Proofs.Grammar.Portions

/-!
# Statements foreseen

What a statement that begins with an identifier is taken to be by the tokens ahead, and what the
grammar reads there. Both go past the same groups in brackets, so both come to the same gate call or
assignment, unless a `durationof` stands in a group: the count of the brackets stops at the first
semicolon of its statements, and goes wrong where they do not nest. The declaration suggested for a
register of version 2 is told from a cast by the same count.
-/

namespace OpenQasm

namespace Grammar

section
variable {kind : TokenKind} {token : Token} {tokens more rest args duration : List Token}
  {portions : List (List Token)}

/-! ## Tokens ahead -/

/-- A token that starts an operand is no assignment operator. -/
theorem assignOp_eq_none (h : startsOperand token.kind = true) : assignOp? token.kind = none := by
  rcases Bool.or_eq_true_iff.1 h with hk | hk <;> rw [eq_of_beq hk] <;> rfl

/-- The token behind the groups that announces what a statement is. -/
def IdentifierStatement.announced : IdentifierStatement → TokenKind → Bool
  | .gateCall, kind => startsOperand kind
  | .assignment, kind => (assignOp? kind).isSome
  | .expression, _ => false

/-- A token that tells the statement is no bracket. -/
theorem leftBracket_ne_of_announced {choice : IdentifierStatement}
    (h : choice.announced kind = true) : kind ≠ Symbol.leftBracket := by
  rintro rfl
  cases choice <;> cases h

/-- The statement is told by the token behind the name, if it can be. -/
theorem identifierStatement_of_announced {choice : IdentifierStatement}
    (h : choice.announced token.kind = true) : identifierStatement (token :: rest) = choice := by
  cases choice with
  | gateCall => exact if_pos h
  | assignment =>
    have hno : startsOperand token.kind = false := by
      by_contra hoperand
      rw [IdentifierStatement.announced, assignOp_eq_none (Bool.not_eq_false _ ▸ hoperand)] at h
      cases h
    rw [identifierStatement, hno, if_neg Bool.false_ne_true]
    exact if_pos h
  | expression => cases h

/-- The tokens after a duration in square brackets, if there is one. -/
def afterDuration (tokens : List Token) : List Token :=
  if startsWith Symbol.leftBracket tokens then afterGroup 0 tokens else tokens

/-- Whether operands are ahead. -/
def operandsAhead (tokens : List Token) : Bool := tokens.head?.any (startsOperand ·.kind)

/-- A statement with parentheses behind its name. -/
theorem identifierStatement_leftParen_iff (h : startsWith Symbol.leftParen rest = true) :
    identifierStatement rest = .gateCall ↔
      operandsAhead (afterDuration (afterGroup 0 rest)) = true := by
  obtain ⟨token, more, rfl, hk⟩ := startsWith_iff.1 h
  have hchoice : identifierStatement (token :: more) =
      if operandsAhead (afterDuration (afterGroup 0 (token :: more))) then .gateCall
      else .expression := by
    simp only [identifierStatement, hk]
    rfl
  rw [hchoice]
  split
  · next hoperands => exact iff_of_true rfl hoperands
  · next hoperands => exact iff_of_false IdentifierStatement.noConfusion hoperands

/-- A statement with square brackets behind its name. -/
theorem identifierStatement_leftBracket (h : startsWith Symbol.leftBracket rest = true)
    (hb : afterIndices rest = token :: more) :
    identifierStatement rest =
      if (assignOp? token.kind).isSome then .assignment
      else if startsOperand token.kind then .gateCall
      else .expression := by
  obtain ⟨left, tokens, rfl, hk⟩ := startsWith_iff.1 h
  simp only [identifierStatement, hk, hb]
  rfl

/-- A bracketed group behind the name is passed over. -/
theorem afterIndices_bracketed (h : Bracketed Symbol.leftBracket tokens) :
    afterIndices (tokens ++ rest) = afterIndices (afterGroup 0 (tokens ++ rest)) := by
  obtain ⟨group, hk, rfl⟩ := h
  rw [Group.tokens, List.cons_append, afterIndices, if_pos hk, afterGroup_opening group.opening]

/-- Without a bracket nothing is passed over. -/
theorem afterIndices_of_ne (h : token.kind ≠ Symbol.leftBracket) :
    afterIndices (token :: rest) = token :: rest := by
  rw [afterIndices, if_neg h]

/-- The token behind all indices is found if no semicolon is among them. -/
theorem afterIndices_eq
    (h : ∀ portion ∈ portions, Bracketed Symbol.leftBracket portion ∧ Nests (within portion))
    (hs : Unbroken portions.flatten) (ht : token.kind ≠ Symbol.leftBracket) :
    afterIndices (portions.flatten ++ token :: more) = token :: more := by
  induction portions with
  | nil => exact afterIndices_of_ne ht
  | cons portion portions ih =>
    obtain ⟨⟨hbracketed, hnests⟩, htail⟩ := List.forall_mem_cons.1 h
    rw [List.flatten_cons] at hs ⊢
    obtain ⟨hportion, hrest⟩ := unbroken_append_iff.1 hs
    rw [List.append_assoc, afterIndices_bracketed hbracketed,
      hbracketed.afterGroup_eq hnests hportion, ih htail hrest]

/-- A group with a semicolon in it is passed over only up to there. -/
theorem afterIndices_stops
    (h : ∀ portion ∈ portions, Bracketed Symbol.leftBracket portion ∧ Nests (within portion))
    (hs : ¬Unbroken portions.flatten) :
    startsWith Symbol.semicolon (afterIndices (portions.flatten ++ rest)) = true := by
  induction portions with
  | nil => exact absurd unbroken_nil hs
  | cons portion portions ih =>
    obtain ⟨⟨hbracketed, hnests⟩, htail⟩ := List.forall_mem_cons.1 h
    rw [List.flatten_cons] at hs ⊢
    rw [List.append_assoc, afterIndices_bracketed hbracketed]
    by_cases hportion : Unbroken portion
    · rw [hbracketed.afterGroup_eq hnests hportion]
      exact ih htail fun hrest => hs (hportion.append hrest)
    · obtain ⟨semicolon, more, hmore, hk⟩ := startsWith_iff.1
        (hbracketed.afterGroup_stops hnests hportion)
      rw [hmore, afterIndices_of_ne (hk ▸ by decide)]
      exact startsWith_iff.2 ⟨semicolon, more, rfl, hk⟩

/-- With indices behind its name, a statement is what the token behind them says if no semicolon is
among them. -/
theorem identifierStatement_indices_iff {choice : IdentifierStatement}
    (h : ∀ portion ∈ portions, Bracketed Symbol.leftBracket portion ∧ Nests (within portion))
    (ht : choice.announced token.kind = true) :
    identifierStatement (portions.flatten ++ token :: more) = choice ↔
      Unbroken portions.flatten := by
  cases portions with
  | nil => exact iff_of_true (identifierStatement_of_announced ht) unbroken_nil
  | cons portion portions =>
    have hbracket : startsWith Symbol.leftBracket
        ((portion :: portions).flatten ++ token :: more) = true := by
      rw [List.flatten_cons, List.append_assoc]
      exact (h portion List.mem_cons_self).1.startsWith
    constructor
    · intro hchoice
      by_contra hs
      obtain ⟨semicolon, rest, hrest, hk⟩ := startsWith_iff.1 (afterIndices_stops h hs)
      rw [identifierStatement_leftBracket hbracket hrest, hk] at hchoice
      subst hchoice
      cases ht
    · intro hs
      rw [identifierStatement_leftBracket hbracket
        (afterIndices_eq h hs (leftBracket_ne_of_announced ht))]
      cases choice with
      | gateCall => rw [assignOp_eq_none ht]; simp [show startsOperand token.kind = true from ht]
      | assignment => exact if_pos ht
      | expression => cases ht

/-- At a semicolon no operand is ahead. -/
theorem not_operandsAhead_of_semicolon (h : startsWith Symbol.semicolon tokens = true) :
    ¬operandsAhead tokens = true := by
  obtain ⟨semicolon, more, rfl, hk⟩ := startsWith_iff.1 h
  simp [operandsAhead, startsOperand, hk]

/-- At a semicolon no duration is passed over. -/
theorem afterDuration_of_semicolon (h : startsWith Symbol.semicolon tokens = true) :
    afterDuration tokens = tokens := by
  obtain ⟨semicolon, more, rfl, hk⟩ := startsWith_iff.1 h
  simp [afterDuration, startsWith, hk]

/-- Operands are found behind a duration if no semicolon is in it. -/
theorem operandsAhead_duration_iff
    (hduration : duration = [] ∨ Bracketed Symbol.leftBracket duration)
    (hnests : Nests (within duration)) (ht : startsOperand token.kind = true) :
    operandsAhead (afterDuration (duration ++ token :: more)) = true ↔ Unbroken duration := by
  have hahead : operandsAhead (token :: more) = true := ht
  rcases hduration with rfl | hduration
  · have hannounced : IdentifierStatement.gateCall.announced token.kind = true := ht
    have hne : token.kind ≠ Symbol.leftBracket := leftBracket_ne_of_announced hannounced
    have hno : startsWith Symbol.leftBracket (token :: more) = false := by
      simp [startsWith, hne]
    rw [List.nil_append, afterDuration, hno]
    exact iff_of_true hahead unbroken_nil
  · rw [afterDuration, if_pos hduration.startsWith]
    by_cases hs : Unbroken duration
    · rw [hduration.afterGroup_eq hnests hs]
      exact iff_of_true hahead hs
    · exact iff_of_false
        (not_operandsAhead_of_semicolon (hduration.afterGroup_stops hnests hs)) hs

/-- With arguments and a duration behind its name, a statement is a gate call if no semicolon is
among them. -/
theorem identifierStatement_gateCall_iff
    (hargs : args = [] ∨ Bracketed Symbol.leftParen args) (hnests : Nests (within args))
    (hduration : duration = [] ∨ Bracketed Symbol.leftBracket duration)
    (hnests' : Nests (within duration)) (ht : startsOperand token.kind = true) :
    identifierStatement (args ++ (duration ++ token :: more)) = .gateCall ↔
      Unbroken (args ++ duration) := by
  rcases hargs with rfl | hargs
  · -- Without arguments the duration is taken for an index.
    rcases hduration with rfl | hduration
    · exact iff_of_true (identifierStatement_of_announced ht) unbroken_nil
    · have hindices : identifierStatement ([duration].flatten ++ token :: more) = .gateCall ↔
          Unbroken [duration].flatten :=
        identifierStatement_indices_iff (List.forall_mem_singleton.2 ⟨hduration, hnests'⟩) ht
      rwa [List.flatten_singleton] at hindices
  · rw [identifierStatement_leftParen_iff hargs.startsWith, unbroken_append_iff]
    by_cases hs : Unbroken args
    · rw [hargs.afterGroup_eq hnests hs, operandsAhead_duration_iff hduration hnests' ht]
      exact (and_iff_right hs).symm
    · refine iff_of_false ?_ fun h => hs h.1
      rw [afterDuration_of_semicolon (hargs.afterGroup_stops hnests hs)]
      exact not_operandsAhead_of_semicolon (hargs.afterGroup_stops hnests hs)

end

/-! ## Productions -/

section
variable {α : Type} {context : Context} {inner : Level} {state after : State} {node : Placed}
  {name token : Token} {rest : List Token}

/-- The production of a statement that begins with an identifier. -/
def IdentifierStatement.production (inner : Level) : IdentifierStatement → Parser Placed
  | .gateCall => Grammar.gateCall inner
  | .assignment => Grammar.assignment inner
  | .expression => expressionStatement inner

/-- What a node has been read as, if it is of a statement that begins with an identifier. -/
def identifierStatement? : NodeKind NodeId → Option IdentifierStatement
  | .gateCall .. => some .gateCall
  | .assignment .. => some .assignment
  | .exprStmt _ => some .expression
  | _ => none

/-- A node that is placed has the kind that was asked for. -/
theorem placeFrom_kind {kind : NodeKind Placed} {start : Span} (state : State) :
    MayRead context (placeFrom start kind) state fun node _ => node.kind = kind.map Placed.id := by
  apply MayRead.any.bind
  intro span middle _
  refine mayRead_iff.2 fun node after hok => ?_
  obtain ⟨id, builder, -, rfl, -⟩ := exists_of_place_ok hok
  rfl

/-- Each production yields nodes of its own kind. -/
theorem production_kind (choice : IdentifierStatement) (state : State) :
    MayRead context (choice.production inner) state fun node _ =>
      identifierStatement? node.kind = some choice := by
  have hplace {start : Span} {kind : NodeKind Placed}
      (hk : identifierStatement? (kind.map Placed.id) = some choice) (state : State) :
      MayRead context (placeFrom start kind) state fun node _ =>
        identifierStatement? node.kind = some choice :=
    (placeFrom_kind state).mono fun node _ h => h ▸ hk
  cases choice with
  | gateCall =>
    refine MayRead.any.bind fun _ _ _ => MayRead.any.bind fun _ _ _ => ?_
    refine MayRead.any.bind fun _ _ _ => MayRead.any.bind fun _ _ _ => ?_
    refine MayRead.any.bind fun _ _ _ => MayRead.any.bind fun _ _ _ => ?_
    exact MayRead.any.bind fun _ after _ => hplace rfl after
  | assignment =>
    refine MayRead.any.bind fun _ _ _ => MayRead.any.bind fun _ _ _ => ?_
    refine MayRead.any.bind fun next _ _ => ?_
    split
    · refine MayRead.any.bind fun _ _ _ => MayRead.any.bind fun _ _ _ => ?_
      exact MayRead.any.bind fun _ after _ => hplace rfl after
    · exact MayRead.unexpected
  | expression =>
    refine MayRead.any.bind fun _ _ _ => MayRead.any.bind fun _ _ _ => ?_
    exact MayRead.any.bind fun _ after _ => hplace rfl after

/-- A statement that starts with a name is the one chosen by what follows. -/
theorem statement_of_identifier (hr : state.rest = name :: rest) (hk : name.kind = .identifier) :
    statement inner context state =
      (identifierStatement rest).production inner context state := by
  have hcurrent : current context state = .ok (some name) state :=
    congrArg (fun next => EStateM.Result.ok next state) (congrArg List.head? hr)
  unfold statement
  rw [bind_of_ok hcurrent]
  simp only [hk]
  unfold identifierStart
  rw [get_bind, hr, List.drop_succ_cons, List.drop_zero]
  cases identifierStatement rest <;> rfl

/-- What one of the productions yields is what the statement yields if and only if the statement is
taken to be of that production. -/
theorem statement_eq_iff {choice : IdentifierStatement} (hr : state.rest = name :: rest)
    (hk : name.kind = .identifier) (h : choice.production inner context state = .ok node after) :
    statement inner context state = .ok node after ↔ identifierStatement rest = choice := by
  have hkind {choice : IdentifierStatement}
      (h : choice.production inner context state = .ok node after) :
      identifierStatement? node.kind = some choice :=
    mayRead_iff.1 (production_kind choice state) node after h
  rw [statement_of_identifier hr hk]
  constructor
  · exact fun hok => Option.some.inj ((hkind hok).symm.trans (hkind h))
  · rintro rfl
    exact h

end

/-! ## Agreement -/

/-- Parsers run one after another, and the tokens that each of them reads. -/
inductive Reads (context : Context) :
    List (Parser Unit) → State → List (List Token) → State → Prop
  | nil {state : State} : Reads context [] state [] state
  | cons {parser : Parser Unit} {parsers : List (Parser Unit)} {state middle after : State}
      {portion : List Token} {portions : List (List Token)} :
      parser context state = .ok () middle → state.rest = portion ++ middle.rest →
      Reads context parsers middle portions after →
      Reads context (parser :: parsers) state (portion :: portions) after

/-- How far a statement agrees with the parsers that read it up to the token that announces what it
is. Without a `durationof` it does. If the brackets nest within what each of them reads, it does if
and only if no semicolon is there. -/
def Foreseen (context : Context) (parsers : List (Parser Unit)) (announced : TokenKind → Bool)
    (state : State) (agrees : Prop) : Prop :=
  ∃ portions middle token more, Reads context parsers state portions middle ∧
    middle.rest = token :: more ∧ announced token.kind = true ∧
    ((∀ token ∈ portions.flatten, token.kind ≠ Keyword.kwDurationOf) → agrees) ∧
    ((∀ portion ∈ portions, Nests (within portion)) → (agrees ↔ Unbroken portions.flatten))

/-- Whether a node is a gate call with operands. -/
def takesOperands : NodeKind NodeId → Bool
  | .gateCall _ _ _ _ operands => !operands.isEmpty
  | _ => false

/-- No tokens, or a group whose inside is clear. -/
def Fits (left : TokenKind) (portion : List Token) : Prop :=
  (portion = [] ∨ Bracketed left portion) ∧ Clear (within portion)

section
variable {α : Type} {context : Context} {parser : Parser α} {inner : Level}
  {base state middle after : State} {value : α} {name : Token} {left : TokenKind}
  {rest portion : List Token} {parsers : List (Parser Unit)} {portions : List (List Token)}

/-- A parser whose answer is discarded ends as it does with it. -/
theorem discard_ok (h : parser context state = .ok value after) :
    discard parser context state = .ok () after := by
  rw [discard, map_const]
  exact (congrFun (congrFun (map_eq_pure_bind _ parser) context) state).trans (bind_of_ok h)

/-- One more portion is read behind the others. -/
theorem Reads.snoc {last : Parser Unit} (h : Reads context parsers state portions middle)
    (hlast : last context middle = .ok () after) (hr : middle.rest = portion ++ after.rest) :
    Reads context (parsers ++ [last]) state (portions ++ [portion]) after := by
  induction h with
  | nil => exact .cons hlast hr .nil
  | cons hok hread _ ih => exact .cons hok hread (ih hlast hr)

/-- The portions are what is read. -/
theorem Reads.split (h : Reads context parsers state portions after) :
    state.rest = portions.flatten ++ after.rest := by
  induction h with
  | nil => rfl
  | cons _ hread _ ih => rw [hread, ih, List.flatten_cons, List.append_assoc]

/-- Without a `durationof` ahead, a statement agrees. -/
theorem Foreseen.agrees {announced : TokenKind → Bool} {agrees : Prop}
    (h : Foreseen context parsers announced state agrees)
    (hno : ∀ token ∈ state.rest, token.kind ≠ Keyword.kwDurationOf) : agrees := by
  obtain ⟨portions, middle, token, more, hreads, -, -, hclear, -⟩ := h
  exact hclear fun token hm => hno token (hreads.split ▸ List.mem_append_left _ hm)

/-- What may be read is what the parser answers. -/
theorem MayRead.eq {post : α → State → Prop} (h : MayRead context parser state post) :
    MayRead context parser state fun value after =>
      parser context state = .ok value after ∧ post value after :=
  mayRead_iff.2 fun value after hok => ⟨hok, mayRead_iff.1 h value after hok⟩

/-- What is read between brackets is a bracketed portion without loose semicolons. -/
theorem Encloses.exists_portion (h : Encloses left base after) : ∃ portion,
    base.rest = portion ++ after.rest ∧ Bracketed left portion ∧ Clear (within portion) := by
  obtain ⟨group, hleft, hr, hclear⟩ := h
  exact ⟨group.tokens, hr, ⟨group, hleft, rfl⟩, group.within_tokens ▸ hclear⟩

/-- What is read, if anything, fits the bracket that it starts with. -/
theorem exists_fits (h : after.rest = base.rest ∨ Encloses left base after) :
    ∃ portion, base.rest = portion ++ after.rest ∧ Fits left portion := by
  rcases h with hr | h
  · exact ⟨[], hr.symm, .inl rfl, .nil⟩
  · obtain ⟨portion, hr, hbracketed, hclear⟩ := h.exists_portion
    exact ⟨portion, hr, .inr hbracketed, hclear⟩

/-- Without a `durationof`, a portion nests and holds no semicolon. -/
theorem Fits.nests_unbroken (h : Fits left portion)
    (hno : ∀ token ∈ portion, token.kind ≠ Keyword.kwDurationOf) :
    Nests (within portion) ∧ Unbroken portion := by
  obtain ⟨hbracketed, hclear⟩ := h
  obtain ⟨hnests, hunbroken⟩ := hclear fun token hm =>
    hno token (List.mem_of_mem_tail (List.dropLast_subset _ hm))
  refine ⟨hnests, ?_⟩
  rcases hbracketed with rfl | ⟨group, -, rfl⟩
  · exact hunbroken
  · rw [group.within_tokens] at hunbroken
    exact group.unbroken_tokens_iff.2 hunbroken

/-- What is known of the portions behind the name decides how far a statement is foreseen. -/
theorem foreseen_of {announced : TokenKind → Bool} {agrees : Prop} {token : Token}
    {more : List Token} (hk : name.kind = .identifier)
    (hreads : Reads context parsers state ([name] :: portions) middle)
    (hmiddle : middle.rest = token :: more) (ht : announced token.kind = true)
    (hfits : ∀ portion ∈ portions, ∃ left, Fits left portion)
    (hagrees : (∀ portion ∈ portions, Nests (within portion)) →
      (agrees ↔ Unbroken portions.flatten)) :
    Foreseen context parsers announced state agrees := by
  refine ⟨_, middle, token, more, hreads, hmiddle, ht, fun hno => ?_, fun hnests => ?_⟩
  · have hportion : ∀ portion ∈ portions, Nests (within portion) ∧ Unbroken portion := by
      intro portion hm
      obtain ⟨left, h⟩ := hfits portion hm
      exact h.nests_unbroken fun token ht =>
        hno token (List.mem_flatten.2 ⟨portion, List.mem_cons_of_mem _ hm, ht⟩)
    apply (hagrees fun portion hm => (hportion portion hm).1).2
    intro token hm
    obtain ⟨portion, hp, ht⟩ := List.mem_flatten.1 hm
    exact (hportion portion hp).2 token ht
  · have hname : Unbroken [name] := List.forall_mem_singleton.2 (hk ▸ by decide)
    rw [hagrees fun portion hm => hnests portion (List.mem_cons_of_mem _ hm), List.flatten_cons,
      unbroken_append_iff, and_iff_right hname]

/-! ### Gate calls -/

/-- An operand is read only where one is ahead. -/
theorem operand_ahead (state : State) :
    MayRead context (operand inner) state fun _ _ =>
      ∃ token more, state.rest = token :: more ∧ startsOperand token.kind = true := by
  refine Comes.current ?_
  split
  · next token htoken =>
    obtain ⟨more, hr⟩ := List.head?_eq_some_iff.1 htoken
    split
    · next hk => exact MayRead.any.mono fun _ _ _ => ⟨token, more, hr, hk ▸ rfl⟩
    · next hk => exact MayRead.any.mono fun _ _ _ => ⟨token, more, hr, hk ▸ rfl⟩
    · exact MayRead.unexpected
  · exact MayRead.unexpected

/-- So are operands, unless there are none. -/
theorem operands_ahead (state : State) :
    MayRead context (operands inner) state fun operands _ => operands ≠ [] →
      ∃ token more, state.rest = token :: more ∧ startsOperand token.kind = true := by
  refine Comes.sees (fun _ _ _ _ hne => absurd rfl hne) fun _ => ?_
  apply (operand_ahead state).bind
  intro _ _ hahead
  exact MayRead.any.mono fun _ _ _ _ => hahead

/-- There are no modifiers before an identifier. -/
theorem gateModifiers_eq (hr : state.rest = name :: rest) (hk : name.kind = .identifier) :
    gateModifiers inner context state = .ok [] state := by
  have hpeek : peek context state = .ok (some .identifier) state := by
    have hcurrent : current context state = .ok (some name) state :=
      congrArg (fun next => EStateM.Result.ok next state) (congrArg List.head? hr)
    unfold peek
    rw [bind_of_ok hcurrent, ← hk]
    rfl
  unfold gateModifiers iterate
  rw [get_bind, hr]
  exact (bind_of_ok (bind_of_ok hpeek)).trans rfl

/-- The name of a gate is one token. -/
theorem gateName_reads (hr : state.rest = name :: rest) :
    MayRead context gateName state fun _ after => after.rest = rest := by
  refine Comes.current ?_
  rw [hr]
  dsimp only [List.head?_cons]
  split
  · apply Comes.advance hr
    intro named hnamed _
    exact Comes.place (fun _ => trivial) fun _ _ _ hafter _ _ => hafter.trans hnamed
  · exact MayRead.unexpected

/-- What a gate call reads from its name to its operands. -/
theorem gateCall_reads (hs : PassingLevel context inner) (hr : state.rest = name :: rest)
    (hk : name.kind = .identifier) :
    MayRead context (gateCall inner) state fun call _ => takesOperands call.kind = true →
      ∃ args duration middle token more,
        Reads context
          [discard gateName, discard (gateArguments inner), discard (designator inner)] state
          [[name], args, duration] middle ∧
        middle.rest = token :: more ∧ startsOperand token.kind = true ∧
        rest = args ++ (duration ++ token :: more) ∧
        Fits Symbol.leftParen args ∧ Fits Symbol.leftBracket duration := by
  refine Comes.currentSpan fun span => Comes.of_ok (gateModifiers_eq hr hk) ?_
  refine (gateName_reads hr).eq.bind ?_
  rintro callee named ⟨hcallee, hnamed⟩
  refine (gateArguments_encloses hs named).eq.bind ?_
  rintro arguments argued ⟨harguments, hencloses⟩
  obtain ⟨args, hargs, hfits⟩ := exists_fits hencloses
  refine (designator_encloses hs argued).eq.bind ?_
  rintro size timed ⟨hsize, hencloses'⟩
  obtain ⟨duration, hduration, hfits'⟩ := exists_fits hencloses'
  apply (operands_ahead timed).bind
  intro operands _ hahead
  refine MayRead.any.bind fun _ closed _ => (placeFrom_kind closed).mono ?_
  intro call _ hcall hoperands
  obtain ⟨token, more, htimed, ht⟩ := hahead (by
    rintro rfl
    rw [hcall] at hoperands
    cases hoperands)
  refine ⟨args, duration, timed, token, more, ?_, htimed, ht, ?_, hfits, hfits'⟩
  · exact .cons (discard_ok hcallee) (by rw [hr, hnamed]; rfl)
      (.cons (discard_ok harguments) hargs (.cons (discard_ok hsize) hduration .nil))
  · rw [← hnamed, hargs, hduration, htimed]

/-- A gate call with operands is foreseen. -/
theorem gateCall_foreseen {call : Placed} (hs : PassingLevel context inner)
    (hr : state.rest = name :: rest) (hk : name.kind = .identifier)
    (hok : gateCall inner context state = .ok call after)
    (hoperands : takesOperands call.kind = true) :
    Foreseen context
      [discard gateName, discard (gateArguments inner), discard (designator inner)]
      startsOperand state (statement inner context state = .ok call after) := by
  obtain ⟨args, duration, middle, token, more, hreads, hmiddle, ht, hrest, ⟨hargs, hclear⟩,
    ⟨hduration, hclear'⟩⟩ := mayRead_iff.1 (gateCall_reads hs hr hk) call after hok hoperands
  have hagrees : statement inner context state = .ok call after ↔
      identifierStatement rest = .gateCall :=
    statement_eq_iff hr hk (show IdentifierStatement.gateCall.production inner context state = _
      from hok)
  refine foreseen_of hk hreads hmiddle ht ?_ fun hnests => ?_
  · simp only [List.mem_cons, List.not_mem_nil, or_false, forall_eq_or_imp, forall_eq]
    exact ⟨⟨_, hargs, hclear⟩, ⟨_, hduration, hclear'⟩⟩
  · obtain ⟨hnests, hnests', -⟩ := List.forall_mem_cons.1 hnests |>.imp_right List.forall_mem_cons.1
    rw [hagrees, hrest, identifierStatement_gateCall_iff hargs hnests hduration hnests' ht]
    simp

/-! ### Assignments -/

/-- What is read of the target of an assignment behind its name: indices. -/
structure Indexed (context : Context) (inner : Level) (name : Token) (rest : List Token)
    (base : State) (bases : List Placed) (portions : List (List Token)) (state : State) : Prop where
  reads : Reads context
    (discard identifier :: bases.map fun node => discard (indexed inner node)) base
    ([name] :: portions) state
  split : rest = portions.flatten ++ state.rest
  bracketed : ∀ portion ∈ portions, Bracketed Symbol.leftBracket portion ∧ Clear (within portion)

/-- The target of an assignment is a name with its indices. -/
theorem target_reads (hs : PassingLevel context inner) (hr : state.rest = name :: rest)
    (hk : name.kind = .identifier) :
    MayRead context (operand inner) state fun _ after =>
      ∃ bases portions, Indexed context inner name rest state bases portions after := by
  refine Comes.current ?_
  rw [hr]
  simp only [List.head?_cons, hk]
  have hidentifier : MayRead context identifier state fun _ after =>
      state.rest = name :: after.rest := by
    refine Comes.identifier (fun _ => trivial) (fun _ _ => trivial) ?_
    intro token _ after hr' _ _ _
    rw [hr, List.cons.injEq] at hr'
    rw [hr, hr'.2]
  refine hidentifier.eq.bind ?_
  rintro target named ⟨htarget, hnamed⟩
  have hrest : rest = named.rest := by
    rw [hr] at hnamed
    exact List.tail_eq_of_cons_eq hnamed
  refine Comes.loop (fun _ middle => ∃ bases portions,
    Indexed context inner name rest state bases portions middle) trivial ?_ ?_
  · rintro node middle ⟨bases, portions, hindexed⟩
    refine Comes.sees (fun _ _ _ _ => ?_) fun _ => ⟨bases, portions, hindexed⟩
    refine (indexed_encloses hs node middle).eq.bind ?_
    rintro next closed ⟨hnext, hencloses⟩
    obtain ⟨portion, hmiddle, hbracketed, hclear⟩ := hencloses.exists_portion
    refine ⟨bases ++ [node], portions ++ [portion], ?_, ?_, ?_⟩
    · rw [List.map_append, List.map_singleton]
      exact hindexed.reads.snoc (discard_ok hnext) hmiddle
    · rw [hindexed.split, hmiddle]
      simp
    · exact List.forall_mem_append.2
        ⟨hindexed.bracketed, List.forall_mem_singleton.2 ⟨hbracketed, hclear⟩⟩
  · refine ⟨[], [], .cons (discard_ok htarget) hnamed .nil, hrest, ?_⟩
    exact fun _ hm => absurd hm List.not_mem_nil

/-- An assignment is a target with an operator behind it. -/
theorem assignment_reads (hs : PassingLevel context inner) (hr : state.rest = name :: rest)
    (hk : name.kind = .identifier) :
    MayRead context (assignment inner) state fun _ _ =>
      ∃ bases portions middle token more,
        Indexed context inner name rest state bases portions middle ∧
        middle.rest = token :: more ∧ (assignOp? token.kind).isSome = true := by
  refine Comes.currentSpan fun span => (target_reads hs hr hk).bind ?_
  rintro target middle ⟨bases, portions, hindexed⟩
  refine Comes.peek ?_
  split
  · next op hop =>
    obtain ⟨token, more, hmiddle, hkind⟩ := exists_of_operator hop
    have hassign : (assignOp? token.kind).isSome = true := by
      rw [hkind]
      rfl
    exact MayRead.any.mono fun _ _ _ =>
      ⟨bases, portions, middle, token, more, hindexed, hmiddle, hassign⟩
  · exact MayRead.unexpected

/-- An assignment is foreseen. -/
theorem assignment_foreseen {node : Placed} (hs : PassingLevel context inner)
    (hr : state.rest = name :: rest) (hk : name.kind = .identifier)
    (hok : assignment inner context state = .ok node after) :
    ∃ bases : List Placed, Foreseen context
      (discard identifier :: bases.map fun base => discard (indexed inner base))
      (fun kind => (assignOp? kind).isSome) state
      (statement inner context state = .ok node after) := by
  obtain ⟨bases, portions, middle, token, more, hindexed, hmiddle, ht⟩ :=
    mayRead_iff.1 (assignment_reads hs hr hk) node after hok
  have hagrees : statement inner context state = .ok node after ↔
      identifierStatement rest = .assignment :=
    statement_eq_iff hr hk (show IdentifierStatement.assignment.production inner context state = _
      from hok)
  refine ⟨bases, foreseen_of hk hindexed.reads hmiddle ht ?_ fun hnests => ?_⟩
  · intro portion hm
    obtain ⟨hbracketed, hclear⟩ := hindexed.bracketed portion hm
    exact ⟨_, .inr hbracketed, hclear⟩
  · have hbracketed : ∀ portion ∈ portions,
        Bracketed Symbol.leftBracket portion ∧ Nests (within portion) := fun portion hm =>
      ⟨(hindexed.bracketed portion hm).1, hnests portion hm⟩
    rw [hagrees, hindexed.split, hmiddle]
    exact identifierStatement_indices_iff hbracketed ht

end

/-- What a statement that begins with an identifier is taken to be agrees with the grammar as far as
the count of the brackets does. Where a gate call with operands can be read, or an assignment, the
statement is that gate call or that assignment if no `durationof` stands between its name and the
operands or the operator. Where the brackets in between nest, group by group, it is so if and only
if no semicolon stands there. -/
theorem statement_foreseen {levels : Nat} {context : Context} {state : State} {name : Token}
    {rest : List Token} (hr : state.rest = name :: rest) (hk : name.kind = .identifier) :
    (∀ call after, gateCall (level levels) context state = .ok call after →
      takesOperands call.kind = true →
      Foreseen context [discard gateName, discard (gateArguments (level levels)),
          discard (designator (level levels))] startsOperand state
        (statement (level levels) context state = .ok call after)) ∧
    ∀ node after, assignment (level levels) context state = .ok node after →
      ∃ bases : List Placed, Foreseen context
        (discard identifier :: bases.map fun base => discard (indexed (level levels) base))
        (fun kind => (assignOp? kind).isSome) state
        (statement (level levels) context state = .ok node after) :=
  ⟨fun _ _ => gateCall_foreseen (level_passing context levels) hr hk,
    fun _ _ => assignment_foreseen (level_passing context levels) hr hk⟩

/-- Whether a parser has yielded a node of a kind. -/
def yields (kind : NodeKind NodeId → Bool) : EStateM.Result Stop State Placed → Bool
  | .ok node _ => kind node.kind
  | .error _ _ => false

/-- The gate call in `rx(0.5)[100ns] q;` is foreseen. -/
theorem statement_foreseen_rx : ∃ call after,
    gateCall (level 257) ⟨⟨0⟩, "rx(0.5)[100ns] q;".toList, {}⟩
      (startState ⟨0⟩ "rx(0.5)[100ns] q;".toList {}) = .ok call after ∧
    statement (level 257) ⟨⟨0⟩, "rx(0.5)[100ns] q;".toList, {}⟩
      (startState ⟨0⟩ "rx(0.5)[100ns] q;".toList {}) = .ok call after := by
  generalize htext : "rx(0.5)[100ns] q;".toList = text
  obtain ⟨rest, hrest⟩ : ∃ rest, (startState ⟨0⟩ text {}).rest =
      ⟨.identifier, ['r', 'x'], ⟨⟨0⟩, 0, 2⟩⟩ :: rest :=
    ⟨(startState ⟨0⟩ text {}).rest.tail, by subst htext; decide +kernel⟩
  have hno : ∀ token ∈ (startState ⟨0⟩ text {}).rest, token.kind ≠ Keyword.kwDurationOf := by
    subst htext
    decide +kernel
  have hcalls : yields takesOperands
      (gateCall (level 257) ⟨⟨0⟩, text, {}⟩ (startState ⟨0⟩ text {})) = true := by
    subst htext
    decide +kernel
  cases hcall : gateCall (level 257) ⟨⟨0⟩, text, {}⟩ (startState ⟨0⟩ text {}) with
  | error failure after =>
    rw [hcall] at hcalls
    cases hcalls
  | ok call after =>
    rw [hcall] at hcalls
    exact ⟨call, after, rfl, ((statement_foreseen hrest rfl).1 call after hcall hcalls).agrees hno⟩

/-- The gate call in `rx(durationof({x q;})) q;` is not: the count of the brackets stops at the
semicolon within, and the statement is taken to be an expression. -/
theorem not_statement_foreseen :
    ¬∀ levels context state name rest call after, state.rest = name :: rest →
      name.kind = .identifier → state.depth < context.options.maxDepth →
      gateCall (level levels) context state = .ok call after → takesOperands call.kind = true →
      statement (level levels) context state = .ok call after := by
  intro hall
  let text := "rx(durationof(\x7bx q;\x7d)) q;".toList
  obtain ⟨rest, hrest⟩ : ∃ rest, (startState ⟨0⟩ text {}).rest =
      ⟨.identifier, ['r', 'x'], ⟨⟨0⟩, 0, 2⟩⟩ :: rest :=
    ⟨(startState ⟨0⟩ text {}).rest.tail, by decide +kernel⟩
  have hcalls : yields takesOperands
      (gateCall (level 257) ⟨⟨0⟩, text, {}⟩ (startState ⟨0⟩ text {})) = true := by
    decide +kernel
  have hstops : yields (fun _ => true)
      (statement (level 257) ⟨⟨0⟩, text, {}⟩ (startState ⟨0⟩ text {})) = false := by
    decide +kernel
  cases hcall : gateCall (level 257) ⟨⟨0⟩, text, {}⟩ (startState ⟨0⟩ text {}) with
  | error failure after =>
    rw [hcall] at hcalls
    cases hcalls
  | ok call after =>
    rw [hcall] at hcalls
    rw [hall _ _ _ _ _ _ _ hrest rfl (by decide) hcall hcalls] at hstops
    cases hstops

end Grammar

/-! ## Declarations that are suggested -/

/-- The text with the replacement in place of what the fix spans. -/
def Fix.patch? (fix : Fix) (text : List Char) : Option (List Char) := do
  let front ← Text.slice? text 0 fix.span.start
  let back ← Text.slice? text fix.span.stop (Text.width text)
  return front ++ fix.replacement.toList ++ back

/-- The fixes that a parse suggests. -/
def ParseOutput.fixes (output : ParseOutput) : List Fix := output.diagnostics.filterMap (·.fix)

/-- What is passed over in the signature of a calibration need not nest, and then the suggestion for
a register may be taken for a cast. -/
theorem not_fix_clean :
    ¬∀ source text options output fix replaced, parse source text options = .ok output →
      output.hasErrors = false → fix ∈ output.fixes → fix.patch? text = some replaced →
      ∃ result, parse source replaced options = .ok result ∧ result.hasErrors = false := by
  intro hall
  let text := "creg c[durationof(\x7b defcal f ) ) ) ( \x7by\x7d \x7d)];".toList
  let replaced := "bit[durationof(\x7b defcal f ) ) ) ( \x7by\x7d \x7d)] c;".toList
  have hshape : (parse ⟨0⟩ text {}).toOption.map (fun output =>
      (output.hasErrors, output.fixes.map (·.patch? text))) = some (false, [some replaced]) := by
    decide +kernel
  have hfails : (parse ⟨0⟩ replaced {}).toOption.any ParseOutput.hasErrors = true := by
    decide +kernel
  cases hparse : parse ⟨0⟩ text {} with
  | error failure =>
    rw [hparse] at hshape
    cases hshape
  | ok output =>
    rw [hparse] at hshape
    obtain ⟨hclean, hfixes⟩ := Prod.mk.inj (Option.some.inj hshape)
    obtain ⟨fix, hm, hfix⟩ := List.mem_map.1 (hfixes ▸ List.mem_singleton_self (some replaced))
    obtain ⟨result, hresult, hnone⟩ := hall ⟨0⟩ text {} output fix replaced hparse hclean hm hfix
    rw [hresult] at hfails
    exact absurd hfails (Bool.eq_false_iff.1 hnone)

end OpenQasm
