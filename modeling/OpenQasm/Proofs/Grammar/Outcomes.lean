import OpenQasm.Proofs.Grammar.Rules

/-!
# Outcomes of the moves that look at the options

Where the next token stands, and what comes of a syntax error and of nesting that is too deep: these
are the only moves of a parser that the window of suppressed errors and the limit of the depth
decide about.
-/

namespace OpenQasm.Grammar

/-- The state with other reports. -/
def State.reporting (state : State) (reports : Diagnostics) : State :=
  { state with diagnostics := reports }

/-- The span of the next token, empty at the end of the text. -/
def nextSpan (context : Context) : List Token → Span
  | [] => .point context.source (min (Text.width context.text) maxOffset)
  | token :: _ => token.span

/-- The span at hand is that of the next token, or of the end. -/
theorem currentSpan_eq (context : Context) (state : State) :
    currentSpan context state = .ok (nextSpan context state.rest) state := by
  have hcurrent : current context state = .ok state.rest.head? state := rfl
  unfold currentSpan
  rw [bind_of_ok hcurrent]
  cases state.rest <;> rfl

/-! ## Places among the tokens -/

/-- What a parse knows of its place among the tokens. -/
structure Abreast (tokens : List Token) (state : State) : Prop where
  position : state.position ≤ tokens.length
  rest : state.rest = tokens.drop state.position
  resync : ∀ start ∈ state.resync, start ≤ state.position

/-- The count of tokens does not depend on what else is in the state. -/
theorem Abreast.same {tokens : List Token} {state other : State} (h : Abreast tokens state)
    (hp : other.position = state.position) (hr : other.rest = state.rest)
    (hs : other.resync = state.resync) : Abreast tokens other where
  position := hp ▸ h.position
  rest := by rw [hr, hp, h.rest]
  resync := by rw [hs, hp]; exact h.resync

/-- It goes on with the tokens that are passed. -/
theorem Abreast.pass {tokens : List Token} {state : State} (h : Abreast tokens state) (n : Nat) :
    Abreast tokens (State.pass n state) := by
  induction n generalizing state with
  | zero => exact h
  | succ n ih =>
    rw [State.pass]
    split
    · exact h
    · next token rest hr =>
      have hdrop : tokens.drop state.position = token :: rest := h.rest.symm.trans hr
      have hlt : state.position < tokens.length := by
        refine Nat.lt_of_not_le fun hle => ?_
        rw [List.drop_eq_nil_of_le hle] at hdrop
        cases hdrop
      have hrest : rest = tokens.drop (state.position + 1) := by
        rw [← List.drop_drop, hdrop, List.drop_one, List.tail_cons]
      exact ih ⟨hlt, hrest, fun start hs => Nat.le_succ_of_le (h.resync start hs)⟩

/-! ## Syntax errors -/

/-- What is reported about a syntax error at the next token. -/
def syntaxReport (context : Context) (tokens : List Token) (message : String) : Diagnostic where
  code := .syntaxError
  span := nextSpan context tokens
  message := message

/-- Whether the next token is within so many tokens of the last recovery. -/
def State.withinWindow (state : State) (window : Nat) : Bool :=
  state.resync.any fun resync => decide (state.position < resync + window)

/-- A token is within the window if not as many were read since the recovery. -/
theorem State.withinWindow_iff {state : State} {window : Nat} :
    state.withinWindow window = true ↔ ∃ start ∈ state.resync, state.position < start + window := by
  unfold State.withinWindow
  cases state.resync <;> simp

section
variable {context : Context} {state : State} {message : String}

/-- Whether a syntax error is suppressed is told without a change of the state. -/
theorem isSuppressed_cases (context : Context) (state : State) :
    (∃ suppressed, isSuppressed context state = .ok suppressed state) ∨
      isSuppressed context state = .error (.crash .countOverflow) state := by
  unfold isSuppressed
  rw [get_bind, read_bind]
  cases state.resync with
  | none => exact .inl ⟨_, rfl⟩
  | some resync =>
    dsimp only
    split
    · exact .inl ⟨_, rfl⟩
    · split
      · exact .inl ⟨_, rfl⟩
      · exact .inr rfl

/-- A syntax error is reported unless it is suppressed or the token is an error itself. -/
theorem reportSyntax_of_suppressed {suppressed : Bool}
    (h : isSuppressed context state = .ok suppressed state) :
    reportSyntax message context state = .ok ()
      (if suppressed || startsWith .error state.rest then state
      else state.reporting (state.diagnostics.push (syntaxReport context state.rest message))) := by
  have hsees : sees .error context state = .ok (startsWith .error state.rest) state := rfl
  unfold reportSyntax
  rw [bind_of_ok h, bind_of_ok hsees]
  split
  · rfl
  · show (currentSpan >>= fun span => report .syntaxError span message) context state = _
    rw [bind_of_ok (currentSpan_eq context state)]
    rfl

/-- Where the test of the window crashes the report does. -/
theorem reportSyntax_of_crash {failure : Stop}
    (h : isSuppressed context state = .error failure state) :
    reportSyntax message context state = .error failure state := bind_of_error h

/-- Syntax errors near the last recovery are suppressed. -/
theorem reportSyntax_eq (h : ∀ resync, state.resync = some resync → resync ≤ state.position ∧
      resync + context.options.suppressionWindow < Text.wordBound) :
    reportSyntax message context state = .ok ()
      (if state.withinWindow context.options.suppressionWindow || startsWith .error state.rest then
        state
      else state.reporting (state.diagnostics.push (syntaxReport context state.rest message))) := by
  refine reportSyntax_of_suppressed ?_
  unfold isSuppressed State.withinWindow
  rw [get_bind, read_bind]
  cases hr : state.resync with
  | none => rfl
  | some resync =>
    obtain ⟨hle, hlt⟩ := h resync hr
    simp only [Nat.not_lt.2 hle, if_false, hlt, if_true, Option.any_some]
    rfl

/-- The sum of a position and the window may be beyond the machine numbers. -/
theorem reportSyntax_overflow {resync : Nat} (hr : state.resync = some resync)
    (hle : resync ≤ state.position)
    (ho : Text.wordBound ≤ resync + context.options.suppressionWindow) :
    reportSyntax message context state = .error (.crash .countOverflow) state := by
  refine reportSyntax_of_crash ?_
  unfold isSuppressed
  rw [get_bind, read_bind, hr]
  simp only [Nat.not_lt.2 hle, if_false, Nat.not_lt.2 ho]
  rfl

/-- The limit of the depth does not matter to syntax errors. -/
theorem isSuppressed_maxDepth (source : SourceId) (text : List Char) (options : ParseOptions)
    (limit : Nat) (state : State) :
    isSuppressed ⟨source, text, { options with maxDepth := limit }⟩ state =
      isSuppressed ⟨source, text, options⟩ state := by
  unfold isSuppressed
  rw [get_bind, get_bind, read_bind, read_bind]
  cases state.resync with
  | none => rfl
  | some resync =>
    dsimp only
    split
    · rfl
    · split <;> rfl

end

/-! ## Nesting -/

/-- What is reported about nesting that is too deep at the next token. -/
def overflowReport (context : Context) (tokens : List Token) : Diagnostic where
  code := .maxDepthExceeded
  span := nextSpan context tokens
  message := s!"nesting exceeds the maximum depth of {context.options.maxDepth}"

/-- The state in which an overflow of the depth begins to unwind. -/
def State.overflown (context : Context) (state : State) : State :=
  { state with
    diagnostics := state.diagnostics.push (overflowReport context state.rest)
    unwinding := some state.openBlocks }

section
variable {α : Type} {parser : Parser α} {context : Context} {state : State}

/-- An overflow stops, and is reported once. -/
theorem overflow_eq : (overflow : Parser α) context state =
    .error .recovered (if state.unwinding.isNone then state.overflown context else state) := by
  unfold overflow
  rw [get_bind, read_bind]
  cases hu : state.unwinding with
  | some blocks => rfl
  | none =>
    show (currentSpan >>= _) context state = _
    rw [bind_of_ok (currentSpan_eq context state)]
    rfl

/-- At the limit of the depth nothing is nested. -/
theorem nested_of_le (h : context.options.maxDepth ≤ state.depth) :
    nested parser context state = (overflow : Parser α) context state := by
  unfold nested
  rw [read_bind, get_bind]
  exact congrFun (congrFun (if_pos h) context) state

/-- Below it a parser runs one level further in. -/
theorem nested_of_lt (h : state.depth < context.options.maxDepth) :
    nested parser context state = deeper parser context state := by
  unfold nested
  rw [read_bind, get_bind]
  exact congrFun (congrFun (if_neg (Nat.not_le.2 h)) context) state

/-- What is read one level deeper. -/
theorem Reading.WhenOk.nested {reading : Reading} {post : α → State → Prop}
    (h : state.depth < reading.context.options.maxDepth →
      reading.WhenOk parser { state with depth := state.depth + 1 } fun value after =>
        post value { after with depth := after.depth - 1 }) :
    reading.WhenOk (nested parser) state post := by
  intro value after hok
  by_cases hlt : state.depth < reading.context.options.maxDepth
  · rw [nested_of_lt hlt] at hok
    exact WhenOk.around (h hlt) value after hok
  · rw [nested_of_le (Nat.not_lt.1 hlt), overflow_eq] at hok
    cases hok

end

/-! ## Tokens that have to be there -/

section
variable {α : Type} {context : Context} {state after : State}

/-- Failing gives no answer. -/
theorem failSyntax_ne_ok {message : String} {value : α} :
    failSyntax message context state ≠ .ok value after := by
  intro h
  unfold failSyntax at h
  cases hreport : reportSyntax message context state with
  | ok _ middle =>
    rw [bind_of_ok hreport] at h
    cases h
  | error failure middle =>
    rw [bind_of_error hreport] at h
    cases h

/-- The token at hand is the first one ahead. -/
theorem current_eq (context : Context) (state : State) :
    current context state = .ok state.rest.head? state := rfl

/-- An unexpected token gives no answer. -/
theorem unexpected_ne_ok {expected : String} {value : α} :
    unexpected expected context state ≠ .ok value after := by
  unfold unexpected
  rw [bind_of_ok (current_eq context state)]
  exact failSyntax_ne_ok

/-- A token that has to be there is read if it is there, and only then. -/
theorem expect_ok_iff {kind : TokenKind} {token : Token} :
    expect kind context state = .ok token after ↔
      ∃ rest, state.rest = token :: rest ∧ token.kind = kind ∧ after = State.pass 1 state := by
  unfold expect
  rw [bind_of_ok (current_eq context state)]
  cases hr : state.rest with
  | nil => simpa using unexpected_ne_ok
  | cons next rest =>
    dsimp only [List.head?_cons]
    by_cases hk : next.kind = kind
    · rw [if_pos hk]
      constructor
      · intro h
        obtain ⟨rfl, rfl⟩ := EStateM.Result.ok.inj h
        exact ⟨rest, rfl, hk, rfl⟩
      · rintro ⟨_, heq, -, rfl⟩
        obtain ⟨rfl, -⟩ := List.cons.inj heq
        rfl
    · rw [if_neg hk]
      constructor
      · exact fun h => absurd h unexpected_ne_ok
      · rintro ⟨_, heq, hk', -⟩
        exact absurd ((List.cons.inj heq).1 ▸ hk') hk

end

end OpenQasm.Grammar
