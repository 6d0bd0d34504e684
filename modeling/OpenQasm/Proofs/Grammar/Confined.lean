import OpenQasm.Proofs.Grammar.Coming
import OpenQasm.Proofs.Grammar.Recovery
import OpenQasm.Proofs.Grammar.Staying

/-!
# Parsers within a flat statement

A flat statement has no braces, and none of its tokens starts a statement. However a parser ends
that begins among them, be the statement well formed or not, the semicolon is still ahead; and the
recovery goes on behind it.
-/

namespace OpenQasm.Grammar

open Reading

/-- A token that neither ends a statement nor starts one, and is no brace. -/
def IsFlat (kind : TokenKind) : Prop :=
  kind ≠ Symbol.semicolon ∧ kind ≠ Symbol.leftBrace ∧ kind ≠ Symbol.rightBrace ∧
    kind.startsStatement = false

instance : DecidablePred IsFlat := fun _ => inferInstanceAs (Decidable (_ ∧ _ ∧ _ ∧ _))

/-- The words of a statement up to its semicolon, if it has no blocks. -/
def Flat (words : List Token) : Prop := ∀ word ∈ words, IsFlat word.kind

instance : DecidablePred Flat := fun words =>
  inferInstanceAs (Decidable (∀ word ∈ words, IsFlat word.kind))

/-- At the top level, within a flat statement: its semicolon and what stands behind it are ahead. -/
structure Within (stop : Token) (behind : List Token) (state : State) : Prop where
  ends : stop.kind = Symbol.semicolon
  rest : ∃ words, state.rest = words ++ stop :: behind ∧ Flat words
  openBlocks : state.openBlocks = 0
  unwinding : state.unwinding.getD 0 = 0

section
variable {stop token : Token} {words behind rest : List Token} {state after : State}

/-- What follows the first word of a flat statement is flat. -/
theorem Flat.tail {word : Token} (h : Flat (word :: words)) : Flat words :=
  fun other hm => h other (List.mem_cons_of_mem _ hm)

/-! ## The recovery -/

/-- The recovery goes past the semicolon. -/
theorem skipLength_flat (h : Flat words) (hs : stop.kind = Symbol.semicolon) :
    skipLength 0 (words ++ stop :: behind) = words.length + 1 := by
  induction words with
  | nil =>
    have hl : stop.kind ≠ Symbol.leftBrace := by rw [hs]; decide
    have hr : stop.kind ≠ Symbol.rightBrace := by rw [hs]; decide
    simp only [List.nil_append, skipLength, if_neg hl, if_neg hr, if_pos hs, if_true,
      List.length_nil]
  | cons word words ih =>
    obtain ⟨hs', hl, hr, hstart⟩ := h word List.mem_cons_self
    simp only [List.cons_append, skipLength, if_neg hl, if_neg hr, if_neg hs', hstart, if_true,
      Bool.false_eq_true, if_false, ih h.tail, List.length_cons]

/-- It does so too if no token of the statement was read. -/
theorem skipStatementLength_flat (h : Flat words) (hs : stop.kind = Symbol.semicolon) :
    skipStatementLength 0 (words ++ stop :: behind) = words.length + 1 := by
  cases words with
  | nil => simp only [List.nil_append, skipStatementLength, hs, and_self, if_true, List.length_nil]
  | cons word words =>
    obtain ⟨hs', hl, -, -⟩ := h word List.mem_cons_self
    simp only [List.cons_append, skipStatementLength, hs', false_and, if_false, if_neg hl,
      skipLength_flat h.tail hs, List.length_cons]

/-- What the recovery leaves ahead is what stands behind the semicolon. -/
theorem Within.resumed {base failed : State} (h : Within stop behind failed) :
    (resumed base failed).rest = behind := by
  obtain ⟨words, hr, hflat⟩ := h.rest
  have hskipped : skipped base failed = (words ++ [stop]).length := by
    rw [skipped, h.unwinding, hr, skipStatementLength_flat hflat h.ends,
      skipLength_flat hflat h.ends, ite_self, List.length_append, List.length_singleton]
  show failed.rest.drop (skipped base failed) = behind
  rw [hskipped, hr, List.append_cons words stop behind, List.drop_left]

/-! ## States -/

/-- A state that differs in none of the three fields looked at is within the statement too. -/
theorem Within.same (h : Within stop behind state) (hr : after.rest = state.rest)
    (ho : after.openBlocks = state.openBlocks) (hu : after.unwinding = state.unwinding) :
    Within stop behind after where
  ends := h.ends
  rest := hr ▸ h.rest
  openBlocks := ho.trans h.openBlocks
  unwinding := hu ▸ h.unwinding

/-- The next token is the semicolon, with what stands behind it, or it is flat. -/
theorem Within.head (h : Within stop behind state) (hr : state.rest = token :: rest) :
    (token = stop ∧ rest = behind) ∨
      IsFlat token.kind ∧ ∃ words, rest = words ++ stop :: behind ∧ Flat words := by
  obtain ⟨words, hwords, hflat⟩ := h.rest
  cases words with
  | nil =>
    obtain ⟨rfl, rfl⟩ := List.cons.inj (hr.symm.trans hwords)
    exact .inl ⟨rfl, rfl⟩
  | cons word words =>
    obtain ⟨rfl, rfl⟩ := List.cons.inj (hr.symm.trans hwords)
    exact .inr ⟨hflat _ List.mem_cons_self, words, rfl, hflat.tail⟩

/-- A token that is read within the statement is another one than its semicolon. -/
theorem Within.pass (h : Within stop behind state) (hr : state.rest = token :: rest)
    (hk : token.kind ≠ Symbol.semicolon) : Within stop behind (State.pass 1 state) := by
  rw [State.pass, hr]
  rcases h.head hr with ⟨rfl, -⟩ | ⟨-, hwords⟩
  · exact absurd h.ends hk
  · exact ⟨h.ends, hwords, h.openBlocks, h.unwinding⟩

/-- No brace is ahead. -/
theorem Within.ne_leftBrace (h : Within stop behind state) (hr : state.rest = token :: rest) :
    token.kind ≠ Symbol.leftBrace := by
  rcases h.head hr with ⟨rfl, -⟩ | ⟨hflat, -⟩
  · rw [h.ends]
    decide
  · exact hflat.2.1

end

/-! ## Parsers -/

section
variable {α β : Type} {stop token : Token} {behind rest : List Token} {context : Context}
  {parser : Parser α} {next : α → Parser β} {kind : TokenKind} {state : State}

/-- However the parser ends, the state is within the statement. -/
def Remains (stop : Token) (behind : List Token) (context : Context) (parser : Parser α)
    (state : State) : Prop :=
  Within stop behind (ending (parser context state))

/-- However the parser ends, it has not left the statement. -/
def Confined (stop : Token) (behind : List Token) (context : Context) (parser : Parser α) : Prop :=
  ∀ state, Within stop behind state → Remains stop behind context parser state

namespace Remains

/-- What remains within the statement at one state does so when it goes on with parsers that do. -/
theorem bindAt (h : Remains stop behind context parser state)
    (hn : ∀ value middle, parser context state = .ok value middle → Within stop behind middle →
      Remains stop behind context (next value) middle) :
    Remains stop behind context (parser >>= next) state := by
  unfold Remains at h ⊢
  cases hresult : parser context state with
  | ok value middle =>
    rw [hresult] at h
    rw [bind_of_ok hresult]
    exact hn value middle hresult h
  | error failure middle =>
    rw [hresult] at h
    rw [bind_of_error hresult]
    exact h

/-- A first step that is known. -/
theorem of_ok {value : α} {middle : State} (h : parser context state = .ok value middle)
    (hn : Remains stop behind context (next value) middle) :
    Remains stop behind context (parser >>= next) state := by
  rwa [Remains, bind_of_ok h]

/-- A token other than the semicolon is read without leaving the statement. -/
theorem advance {next : Unit → Parser β} (hw : Within stop behind state)
    (hr : state.rest = token :: rest) (hk : token.kind ≠ Symbol.semicolon)
    (h : Confined stop behind context (next ())) :
    Remains stop behind context (Grammar.advance >>= next) state :=
  h _ (hw.pass hr hk)

/-- A choice by the kind of the next token. -/
theorem sees {yes no : Parser β}
    (hyes : ∀ token rest, state.rest = token :: rest → token.kind = kind →
      Remains stop behind context yes state)
    (hno : Remains stop behind context no state) :
    Remains stop behind context
      (Grammar.sees kind >>= fun seen => if seen = true then yes else no) state := by
  show Remains stop behind context (if startsWith kind state.rest = true then yes else no) state
  split
  · next hs =>
    obtain ⟨token, rest, hr, hk⟩ := startsWith_iff.1 hs
    exact hyes token rest hr hk
  · exact hno

end Remains

namespace Confined

/-- Two confined parsers in sequence are confined. -/
theorem bind (h : Confined stop behind context parser)
    (hn : ∀ value, Confined stop behind context (next value)) :
    Confined stop behind context (parser >>= next) := fun state hw =>
  .bindAt (h state hw) fun value middle _ hm => hn value middle hm

/-- A parser that only answers is confined. -/
theorem pure {value : α} : Confined stop behind context (pure value : Parser α) := fun _ hw => hw

/-- A confined parser stays so when its answer is changed. -/
theorem map {f : α → β} (h : Confined stop behind context parser) :
    Confined stop behind context (f <$> parser) := by
  rw [map_eq_pure_bind]
  exact h.bind fun _ => .pure

/-- A parser that only fails is confined: whatever it has read is within the statement. -/
theorem throw {failure : Stop} : Confined stop behind context (throw failure : Parser α) :=
  fun _ hw => hw

/-- The state is read without leaving the statement. -/
theorem get : Confined stop behind context (get : Parser State) := fun _ hw => hw

/-- A look at the next kind does not leave the statement. -/
theorem peek : Confined stop behind context peek := fun _ hw => hw

/-- The test of the next kind does not leave the statement. -/
theorem sees : Confined stop behind context (sees kind) := fun _ hw => hw

/-- The span of the next token is read without leaving the statement. -/
theorem currentSpan : Confined stop behind context currentSpan := fun state hw => by
  rwa [Remains, currentSpan_eq]

/-- A report does not move the parser. -/
theorem report {code : Code} {span : Span} {message : String} :
    Confined stop behind context (report code span message) := fun _ hw =>
  hw.same rfl rfl rfl

/-- A note about the version does not move the parser. -/
theorem requireVersion3 {span : Span} {feature : String} :
    Confined stop behind context (requireVersion3 span feature) := by
  refine .bind .get fun state => ?_
  dsimp only
  split
  · exact .report
  · exact .pure

/-- A node is placed without leaving the statement. -/
theorem place {node : NodeKind Placed} {span : Span} :
    Confined stop behind context (place node span) := by
  intro state hw
  unfold Grammar.place
  rw [Remains, get_bind]
  cases hpush : state.builder.push (node.map Placed.id) span with
  | ok pushed => exact hw.same rfl rfl rfl
  | error fault => exact hw

/-- A node that began earlier is placed without leaving the statement. -/
theorem placeFrom {node : NodeKind Placed} {start : Span} :
    Confined stop behind context (placeFrom start node) := fun state hw => place state hw

/-- The type of an angle is changed without leaving the statement. -/
theorem retagAngle {node : Placed} : Confined stop behind context (retagAngle node) := by
  unfold Grammar.retagAngle
  split
  · exact .bind (fun _ hw => hw.same rfl rfl rfl) fun _ => .pure
  · exact .pure

/-- The report of an unexpected token does not move the parser. -/
theorem unexpected {expected : String} :
    Confined stop behind context (unexpected expected : Parser α) := by
  intro state hw
  refine .of_ok (current_eq context state) ?_
  refine bind (fun state hw => ?_) (fun _ => .throw) state hw
  rcases isSuppressed_cases context state with ⟨suppressed, hs⟩ | hcrash
  · rw [Remains, reportSyntax_of_suppressed hs]
    show Within stop behind (ite _ _ _)
    split
    · exact hw
    · exact hw.same rfl rfl rfl
  · rwa [Remains, reportSyntax_of_crash hcrash]

/-! ### Tokens -/

/-- A token that has to be there is not the semicolon, or it is not there. -/
theorem expectAt (hw : Within stop behind state)
    (hk : ∀ token rest, state.rest = token :: rest → token.kind = kind →
      kind ≠ Symbol.semicolon) :
    Remains stop behind context (Grammar.expect kind) state := by
  refine .of_ok (current_eq context state) ?_
  cases hr : state.rest with
  | nil => exact unexpected state hw
  | cons token rest =>
    dsimp only [List.head?_cons]
    split
    · next heq => exact Remains.advance hw hr (heq ▸ hk token rest hr heq) .pure
    · exact unexpected state hw

/-- A token that is asked for and is not the semicolon does not lead out of the statement. -/
theorem expect (hk : kind ≠ Symbol.semicolon) : Confined stop behind context (expect kind) :=
  fun _ hw => expectAt hw fun _ _ _ _ => hk

/-- What an opening brace begins does not come about. -/
theorem expectBrace {next : Token → Parser β} :
    Confined stop behind context (Grammar.expect Symbol.leftBrace >>= next) := by
  intro state hw
  refine .bindAt (expect (by decide) state hw) fun token middle hok _ => ?_
  obtain ⟨rest, hr, hk, -⟩ := expect_ok_iff.1 hok
  exact absurd hk (hw.ne_leftBrace hr)

/-- A token that may stand there and is not the semicolon does not lead out of the statement. -/
theorem accept (hk : kind ≠ Symbol.semicolon) : Confined stop behind context (accept kind) := by
  intro state hw
  refine .sees (fun token rest hr heq => ?_) hw
  exact Remains.advance hw hr (heq ▸ hk) .pure

/-- A loop of confined rounds is confined. -/
theorem iterate {round : α → Parser (Turn α β)} {value : α}
    (h : ∀ value, Confined stop behind context (round value)) :
    Confined stop behind context (iterate round value) := by
  refine .bind .get fun start => ?_
  generalize start.rest = tokens
  induction tokens generalizing value with
  | nil =>
    refine .bind (h value) fun turn => ?_
    cases turn with
    | done result => exact .pure
    | again value => exact .throw
  | cons token tokens ih =>
    refine .bind (h value) fun turn => ?_
    cases turn with
    | done result => exact .pure
    | again value => exact ih

/-- One level further in, a confined parser is confined. -/
theorem nested (h : Confined stop behind context parser) :
    Confined stop behind context (nested parser) := by
  intro state hw
  by_cases hle : context.options.maxDepth ≤ state.depth
  · rw [Remains, nested_of_le hle, overflow_eq]
    show Within stop behind (ite _ _ _)
    split
    · exact ⟨hw.ends, hw.rest, hw.openBlocks, hw.openBlocks⟩
    · exact hw
  · rw [Remains, nested_of_lt (Nat.lt_of_not_le hle)]
    have hinside := h { state with depth := state.depth + 1 } (hw.same rfl rfl rfl)
    unfold Grammar.deeper Grammar.around
    cases hresult : parser context { state with depth := state.depth + 1 } with
    | ok value after | error failure after =>
      rw [Remains, hresult] at hinside
      exact hinside.same rfl rfl rfl

/-- An identifier does not lead out of the statement. -/
theorem identifier : Confined stop behind context identifier :=
  .bind (.expect (by decide)) fun _ => .place

/-- A list with commas does not lead out of the statement if its elements do not. -/
theorem separated {close : Symbol} (h : Confined stop behind context parser) :
    Confined stop behind context (separated close parser) := by
  refine .iterate fun items => .bind .sees fun seen => ?_
  split
  · exact .pure
  · refine .bind h fun item => .bind (.accept (by decide)) fun seen => ?_
    split <;> exact .pure

/-- A row with separators does not lead out of the statement if its elements do not. -/
theorem joined {separator : Symbol} (hk : separator ≠ .semicolon)
    (h : Confined stop behind context parser) :
    Confined stop behind context (joined separator parser) := by
  have hkind : TokenKind.symbol separator ≠ Symbol.semicolon := fun heq => hk (by injection heq)
  refine .bind h fun first => .iterate fun items => .bind (.accept hkind) fun seen => ?_
  split
  · exact .bind h fun item => .pure
  · exact .pure

end Confined

end

/-- A token that is read as an operator is no semicolon, if a semicolon is none. -/
theorem ne_semicolon_of_operator {α : Type} {operator? : TokenKind → Option α} {kind : TokenKind}
    {op : α} (h : operator? kind = some op) (hn : operator? Symbol.semicolon = none) :
    kind ≠ Symbol.semicolon := fun heq => by
  rw [heq, hn] at h
  cases h

/-! ## Productions -/

/-- The productions of a level do not leave the statement. -/
structure ConfinedLevel (stop : Token) (behind : List Token) (context : Context)
    (inner : Level) : Prop where
  expression : Confined stop behind context (inner .expression)
  unary : Confined stop behind context (inner .unary)
  scalarType : Confined stop behind context (inner .scalarType)

section
variable {stop token : Token} {behind rest : List Token} {context : Context} {inner : Level}
  {state : State} {span : Span}

/-- A designator is confined if the levels below it are. -/
theorem designator_confined (hs : ConfinedLevel stop behind context inner) :
    Confined stop behind context (designator inner) := by
  refine .bind (.accept (by decide)) fun seen => ?_
  split
  · exact .bind hs.expression fun inside => .bind (.expect (by decide)) fun _ => .pure
  · exact .pure

/-! ### Types -/

/-- A complex type is confined, read where its keyword stands. -/
theorem complexType_confined (hs : ConfinedLevel stop behind context inner)
    (hw : Within stop behind state) (hr : state.rest = token :: rest)
    (hk : token.kind ≠ Symbol.semicolon) :
    Remains stop behind context (complexType inner) state := by
  refine .of_ok (currentSpan_eq context state) (Remains.advance hw hr hk ?_)
  refine .bind (.accept (by decide)) fun seen => ?_
  split
  · refine .bind hs.scalarType fun component => .bind (.expect (by decide)) fun _ => ?_
    exact .bind .pure fun component => .placeFrom
  · exact .bind .pure fun component => .placeFrom

/-- A scalar type is confined. -/
theorem scalarType_confined (hs : ConfinedLevel stop behind context inner) :
    Confined stop behind context (scalarType inner) := by
  intro state hw
  refine .of_ok (currentSpan_eq context state) (.of_ok rfl ?_)
  split
  · next scalar hscalar =>
    obtain ⟨token, rest, hr, hkind⟩ := exists_of_operator hscalar
    refine Remains.advance hw hr (ne_semicolon_of_operator hkind rfl) ?_
    exact .bind (designator_confined hs) fun _ => .placeFrom
  · refine .sees (fun token rest hr hk => ?_) (Confined.unexpected state hw)
    exact complexType_confined hs hw hr (hk ▸ by decide)

/-- An array type is confined, read where its keyword stands. -/
theorem arrayType_confined (hs : ConfinedLevel stop behind context inner)
    (hw : Within stop behind state) (hr : state.rest = token :: rest)
    (hk : token.kind ≠ Symbol.semicolon) :
    Remains stop behind context (arrayType inner) state := by
  refine .of_ok (currentSpan_eq context state) (Remains.advance hw hr hk ?_)
  have helement : Confined stop behind context (elementType inner) :=
    .bind (.expect (by decide)) fun _ => .bind (scalarType_confined hs) fun element =>
      .bind (.expect (by decide)) fun _ => .pure
  refine .bind helement fun element => .bind (.separated hs.expression) fun dims => ?_
  have hclose : Confined stop behind context (do
      let _ ← expect Symbol.rightBracket
      placeFrom (nextSpan context state.rest) (.arrayType element dims)) :=
    .bind (.expect (by decide)) fun _ => .placeFrom
  split
  · exact .bind .unexpected fun _ => hclose
  · exact hclose

/-- A qubit type is confined, read where its keyword stands. -/
theorem qubitType_confined (hs : ConfinedLevel stop behind context inner)
    (hw : Within stop behind state) (hr : state.rest = token :: rest)
    (hk : token.kind ≠ Symbol.semicolon) :
    Remains stop behind context (qubitType inner) state := by
  refine .of_ok (currentSpan_eq context state) (Remains.advance hw hr hk ?_)
  exact .bind (designator_confined hs) fun _ => .placeFrom

/-- A type of any kind is confined. -/
theorem type_confined (hs : ConfinedLevel stop behind context inner) :
    Confined stop behind context (type inner) := by
  intro state hw
  refine .of_ok rfl ?_
  split
  · next h =>
    obtain ⟨token, rest, hr, hk⟩ := exists_of_peek h
    exact complexType_confined hs hw hr (hk ▸ by decide)
  · next h =>
    obtain ⟨token, rest, hr, hk⟩ := exists_of_peek h
    exact arrayType_confined hs hw hr (hk ▸ by decide)
  · next h =>
    obtain ⟨token, rest, hr, hk⟩ := exists_of_peek h
    exact qubitType_confined hs hw hr (hk ▸ by decide)
  · exact scalarType_confined hs state hw

/-! ### Literals -/

/-- A literal is confined, whether its value can be read or not. -/
theorem literal_confined {text : List Char} {kind : LiteralKind} :
    Confined stop behind context (literal text span kind) := by
  unfold literal
  split
  · exact .place
  · exact .throw
  · exact .bind .report fun _ => .place

/-- A hardware qubit is confined, whether its number can be read or not. -/
theorem hardwareQubit_confined : Confined stop behind context (hardwareQubit token) := by
  unfold hardwareQubit
  split
  · exact .place
  · exact .bind .report fun _ => .place

/-- A number is confined, with the unit or the `im` behind it. -/
theorem number_confined : Confined stop behind context (number token) := by
  intro state hw
  refine .of_ok (current_eq context state) ?_
  have hsingle : Confined stop behind context (number.single token) := literal_confined
  split
  · next unit hunit =>
    split
    · next hm =>
      obtain ⟨rest, hr⟩ := List.head?_eq_some_iff.1 hunit
      have hk : unit.kind = Keyword.kwIm := eq_of_beq (Bool.and_eq_true_iff.1 hm).2
      refine Remains.advance hw hr (hk ▸ by decide) fun state hw => ?_
      exact literal_confined state hw
    · exact hsingle state hw
  · exact hsingle state hw

/-! ### Brackets -/

/-- One bound of a range is confined. -/
theorem rangePart_confined (hs : ConfinedLevel stop behind context inner) :
    Confined stop behind context (rangePart inner) := by
  refine .bind .peek fun next => ?_
  split
  case h_5 => exact .bind hs.expression fun _ => .pure
  all_goals exact .pure

/-- What follows the first bound of a range is confined. -/
theorem rangeAfter_confined (hs : ConfinedLevel stop behind context inner)
    {start : Option Placed} : Confined stop behind context (rangeAfter inner span start) := by
  refine .bind (.expect (by decide)) fun _ => .bind (rangePart_confined hs) fun second => ?_
  refine .bind (.accept (by decide)) fun seen => ?_
  split
  · exact .bind (rangePart_confined hs) fun third => .placeFrom
  · exact .placeFrom

/-- The index between two brackets is confined. -/
theorem rangeOrExpression_confined (hs : ConfinedLevel stop behind context inner) :
    Confined stop behind context (rangeOrExpression inner) := by
  refine .bind .currentSpan fun span => .bind .sees fun seen => ?_
  split
  · exact rangeAfter_confined hs
  · refine .bind hs.expression fun first => .bind .sees fun seen => ?_
    split
    · exact rangeAfter_confined hs
    · exact .pure

/-- A row of index operators is confined. -/
theorem indices_confined (hs : ConfinedLevel stop behind context inner) {node : Placed} :
    Confined stop behind context (indices inner node) := by
  have hitem : Confined stop behind context (indexItem inner) := by
    refine .bind .sees fun seen => ?_
    split
    · exact .expectBrace
    · exact rangeOrExpression_confined hs
  refine .iterate fun node => .bind .sees fun seen => ?_
  split
  · refine .bind ?_ fun indexed => .pure
    exact .bind (.expect (by decide)) fun _ => .bind (.joined (by decide) hitem) fun items =>
      .bind (.expect (by decide)) fun _ => .placeFrom
  · exact .pure

/-! ### Expressions without operators -/

/-- A name is confined, with the arguments of a call. -/
theorem identifierOrCall_confined (hs : ConfinedLevel stop behind context inner) :
    Confined stop behind context (identifierOrCall inner token) := by
  refine .bind .identifier fun callee => .bind (.accept (by decide)) fun seen => ?_
  split
  · exact .bind (.separated hs.expression) fun args => .bind (.expect (by decide)) fun _ =>
      .placeFrom
  · exact .pure

/-- A cast is confined. -/
theorem castExpression_confined (hs : ConfinedLevel stop behind context inner) :
    Confined stop behind context (castExpression inner token) :=
  .bind (type_confined hs) fun type => .bind (.expect (by decide)) fun _ =>
    .bind hs.expression fun operand => .bind (.expect (by decide)) fun _ => .placeFrom

/-- A primary expression is confined, whatever token it starts with. -/
theorem primaryAt_confined (hs : ConfinedLevel stop behind context inner)
    (hw : Within stop behind state) (hr : state.rest = token :: rest) :
    Remains stop behind context (primaryAt inner token) state := by
  unfold primaryAt
  split
  · next hk => exact Remains.advance hw hr (hk ▸ by decide) number_confined
  · next hk => exact Remains.advance hw hr (hk ▸ by decide) number_confined
  · next hk => exact Remains.advance hw hr (hk ▸ by decide) number_confined
  · next hk => exact Remains.advance hw hr (hk ▸ by decide) .place
  · next hk => exact Remains.advance hw hr (hk ▸ by decide) .place
  · next hk => exact Remains.advance hw hr (hk ▸ by decide) .place
  · next hk => exact Remains.advance hw hr (hk ▸ by decide) .place
  · next hk => exact Remains.advance hw hr (hk ▸ by decide) .place
  · next hk => exact Remains.advance hw hr (hk ▸ by decide) .place
  · next hk => exact Remains.advance hw hr (hk ▸ by decide) hardwareQubit_confined
  · exact identifierOrCall_confined hs state hw
  · next hk =>
    refine Remains.advance hw hr (hk ▸ by decide) ?_
    exact .bind hs.expression fun inside => .bind (.expect (by decide)) fun _ => .placeFrom
  · next hk =>
    refine Remains.advance hw hr (hk ▸ by decide) (.bind (.expect (by decide)) fun _ => ?_)
    exact .bind .expectBrace fun body => .bind (.expect (by decide)) fun _ => .placeFrom
  · split
    · exact castExpression_confined hs state hw
    · exact Confined.unexpected state hw

/-- A primary expression is confined, also where no token is left. -/
theorem primary_confined (hs : ConfinedLevel stop behind context inner) :
    Confined stop behind context (primary inner) := by
  intro state hw
  refine .of_ok (current_eq context state) ?_
  split
  · next token htoken =>
    obtain ⟨rest, hr⟩ := List.head?_eq_some_iff.1 htoken
    exact primaryAt_confined hs hw hr
  · exact Confined.unexpected state hw

/-! ### Operators -/

/-- A power is confined. -/
theorem power_confined (hs : ConfinedLevel stop behind context inner) :
    Confined stop behind context (power inner) := by
  refine .bind (.bind (primary_confined hs) fun _ => indices_confined hs) fun base => ?_
  refine .bind (.accept (by decide)) fun seen => ?_
  split
  · exact .bind hs.unary fun exponent => .place
  · exact .pure

/-- A unary expression is confined. -/
theorem unaryExpression_confined (hs : ConfinedLevel stop behind context inner) :
    Confined stop behind context (unaryExpression inner) := by
  intro state hw
  refine .of_ok rfl ?_
  split
  · next op hop =>
    obtain ⟨token, rest, hr, hkind⟩ := exists_of_operator hop
    refine .of_ok (currentSpan_eq context state) ?_
    refine Remains.advance hw hr (ne_semicolon_of_operator hkind rfl) ?_
    exact .bind hs.unary fun operand => .placeFrom
  · exact power_confined hs state hw

/-- A binary expression from any precedence on is confined: its operators are no semicolons. -/
theorem binaryFrom_confined (hs : ConfinedLevel stop behind context inner) (least : Nat) :
    Confined stop behind context (binaryFrom inner least) := by
  induction least using climb_induction with
  | _ least ih =>
    rw [binaryFrom_eq]
    refine .bind (unaryExpression_confined hs) fun first =>
      .iterate fun left state hw => .of_ok rfl ?_
    split
    · next op hop =>
      split
      · exact hw
      · next htight =>
        obtain ⟨token, rest, hr, hkind⟩ := exists_of_operator hop
        refine Remains.advance hw hr (ne_semicolon_of_operator hkind rfl) ?_
        exact .bind (ih op (Nat.not_lt.1 htight)) fun right => .bind .place fun _ => .pure
    · exact hw

/-- The productions of all levels do not leave the statement. -/
theorem level_confined (stop : Token) (behind : List Token) (context : Context) (levels : Nat) :
    ConfinedLevel stop behind context (level levels) := by
  induction levels with
  | zero => exact ⟨.throw, .throw, .throw⟩
  | succ levels ih =>
    exact ⟨.nested (binaryFrom_confined ih 1), .nested (unaryExpression_confined ih),
      .nested (scalarType_confined ih)⟩

/-! ### Values -/

/-- A gate operand is confined. -/
theorem operand_confined (hs : ConfinedLevel stop behind context inner) :
    Confined stop behind context (operand inner) := by
  intro state hw
  refine .of_ok (current_eq context state) ?_
  split
  · next token htoken =>
    obtain ⟨rest, hr⟩ := List.head?_eq_some_iff.1 htoken
    split
    · next hk => exact Remains.advance hw hr (hk ▸ by decide) hardwareQubit_confined
    · exact Confined.bind .identifier (fun _ => indices_confined hs) state hw
    · exact Confined.unexpected state hw
  · exact Confined.unexpected state hw

/-- A list of gate operands is confined. -/
theorem operands_confined (hs : ConfinedLevel stop behind context inner) :
    Confined stop behind context (operands inner) := by
  refine .bind .sees fun seen => ?_
  split
  · exact .pure
  · exact .joined (by decide) (operand_confined hs)

/-- A measurement is confined. -/
theorem measurement_confined (hs : ConfinedLevel stop behind context inner) :
    Confined stop behind context (measurement inner) :=
  .bind (.expect (by decide)) fun _ => .bind (operand_confined hs) fun _ => .placeFrom

/-- The value of an assignment is confined. -/
theorem value_confined (hs : ConfinedLevel stop behind context inner) :
    Confined stop behind context (value inner) := by
  refine .bind .sees fun seen => ?_
  split
  · exact measurement_confined hs
  · exact hs.expression

/-- The initializer of a declaration is confined. -/
theorem initializer_confined (hs : ConfinedLevel stop behind context inner) {type : Placed} :
    Confined stop behind context (initializer inner type) := by
  refine .bind .sees fun seen => ?_
  dsimp only
  split
  · refine .bind .expectBrace fun _ => ?_
    split
    · exact .retagAngle
    · exact .pure
  · refine .bind (value_confined hs) fun _ => ?_
    split
    · exact .retagAngle
    · exact .pure

/-! ### Gates -/

/-- A row of gate modifiers is confined. -/
theorem gateModifiers_confined (hs : ConfinedLevel stop behind context inner) :
    Confined stop behind context (gateModifiers inner) := by
  refine .iterate fun modifiers state hw => .of_ok rfl ?_
  split
  · next modifier hmodifier =>
    obtain ⟨token, rest, hr, hkind⟩ := exists_of_operator hmodifier
    refine .bindAt (.of_ok (currentSpan_eq context state) ?_) fun _ _ _ hm => hm
    refine Remains.advance hw hr (ne_semicolon_of_operator hkind rfl) ?_
    have hend {arg : Option Placed} : Confined stop behind context (do
        let _ ← expect Symbol.atSign
        placeFrom (nextSpan context state.rest) (.gateModifier modifier arg)) :=
      .bind (.expect (by decide)) fun _ => .placeFrom
    refine .bind (.accept (by decide)) fun seen => ?_
    split
    · refine .bind hs.expression fun arg => .bind (.expect (by decide)) fun _ => ?_
      exact .bind .pure fun _ => hend
    · exact .bind .pure fun _ => hend
  · exact hw

/-- The name of a gate is confined. -/
theorem gateName_confined : Confined stop behind context gateName := by
  intro state hw
  refine .of_ok (current_eq context state) ?_
  split
  · next token htoken =>
    obtain ⟨rest, hr⟩ := List.head?_eq_some_iff.1 htoken
    split
    · next hk =>
      refine Remains.advance hw hr ?_ .place
      rcases hk with hk | hk <;> exact hk ▸ by decide
    · exact Confined.unexpected state hw
  · exact Confined.unexpected state hw

/-- The arguments of a gate are confined. -/
theorem gateArguments_confined (hs : ConfinedLevel stop behind context inner) :
    Confined stop behind context (gateArguments inner) := by
  refine .bind (.accept (by decide)) fun seen => ?_
  split
  · exact .bind (.separated hs.expression) fun args => .bind (.expect (by decide)) fun _ => .pure
  · exact .pure

end

end OpenQasm.Grammar
