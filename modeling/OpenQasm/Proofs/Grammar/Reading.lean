import OpenQasm.Literal.Reader
import OpenQasm.Proofs.Grammar.Braces
import OpenQasm.Proofs.Grammar.Forest

/-!
# Readings

What a production does to the state, told by the tokens it has read. A production starts in a
`Ready` state; while it goes on, the state is `Held` against the one it started in; if it stops, the
state is `Dropped`: nothing but the tokens read, the nodes pushed and the reports tells it from the
one before. `Runs` says what a parser comes to, and each piece of the grammar has one rule for it.
-/

namespace OpenQasm

/-- Whether a report is about a text, not about what it includes. -/
def Code.isOfText : Code → Bool
  | .includeNotFound | .includeCycle => false
  | _ => true

namespace Grammar

/-- What a number is read as, when some tokens stand behind it: the text of the literal, its span,
its kind, and the number of tokens that it takes. -/
inductive ReadAs (context : Context) (token : Token) (rest : List Token) :
    List Char → Span → LiteralKind → Nat → Prop
  | merged {im : Token} : token.kind = .integer ∨ token.kind = .float → rest.head? = some im →
      im.kind = Keyword.kwIm →
      ReadAs context token rest
        ((Text.slice? context.text token.span.start im.span.stop).getD [])
        ⟨token.span.source, token.span.start, im.span.stop⟩ .imaginary 2
  | single {kind : LiteralKind} :
      (token.kind = .integer ∧ kind = .integer ∨ token.kind = .float ∧ kind = .float) →
      (∀ im ∈ rest.head?, im.kind ≠ Keyword.kwIm) →
      ReadAs context token rest token.text token.span kind 1
  | suffixed : token.kind = .suffixed →
      ReadAs context token rest token.text token.span (Literal.suffixKind token.text) 1

/-- A number without `im` behind it is read by itself. -/
theorem ReadAs.alone {context : Context} {token : Token} {rest : List Token}
    (hk : token.kind = .integer ∨ token.kind = .float ∨ token.kind = .suffixed)
    (him : token.kind = .integer ∨ token.kind = .float →
      ∀ im ∈ rest.head?, im.kind ≠ Keyword.kwIm) :
    ReadAs context token rest token.text token.span
      (match token.kind with
        | .integer => .integer
        | .float => .float
        | _ => Literal.suffixKind token.text) 1 := by
  rcases hk with hk | hk | hk <;> rw [hk]
  · exact .single (.inl ⟨hk, rfl⟩) (him (.inl hk))
  · exact .single (.inr ⟨hk, rfl⟩) (him (.inr hk))
  · exact .suffixed hk

/-- Where the machine numbers do not suffice to read tokens: their number and the window are beyond
the range, or one of them is a number whose exponent has no size. -/
inductive Overflows (context : Context) (tokens : List Token) : Crash → Prop
  | count : Text.wordBound ≤ tokens.length + context.options.suppressionWindow →
      Overflows context tokens .countOverflow
  | exponent {front rest : List Token} {token : Token} {text : List Char} {span : Span}
      {kind : LiteralKind} {n : Nat} : tokens = front ++ token :: rest →
      ReadAs context token rest text span kind n → Literal.read text kind = .error .overflow →
      Overflows context tokens .exponentOverflow

/-- Either counts overflow or an exponent does. -/
theorem Overflows.kind {context : Context} {tokens : List Token} {failure : Crash}
    (h : Overflows context tokens failure) :
    failure = .countOverflow ∨ failure = .exponentOverflow := by
  cases h with
  | count => exact .inl rfl
  | exponent => exact .inr rfl

/-- The machine numbers suffice for few tokens with no number among them. -/
theorem not_overflows {context : Context} {tokens : List Token} {failure : Crash}
    (hfew : tokens.length + context.options.suppressionWindow < Text.wordBound)
    (hplain : ∀ token ∈ tokens,
      token.kind ≠ .integer ∧ token.kind ≠ .float ∧ token.kind ≠ .suffixed) :
    ¬Overflows context tokens failure := by
  rintro (hmany | ⟨rfl, hread, -⟩)
  · exact absurd hmany (Nat.not_le.2 hfew)
  · obtain ⟨hinteger, hfloat, hsuffixed⟩ := hplain _ (List.mem_append_right _ List.mem_cons_self)
    cases hread with
    | merged hk _ _ => exact hk.elim hinteger hfloat
    | single hk _ => exact hk.elim (fun h => hinteger h.1) fun h => hfloat h.1
    | suffixed hk => exact hsuffixed hk

/-- Whether the exponent of a number has a size does not depend on the options. -/
theorem Overflows.exponent_congr {context other : Context} {tokens : List Token}
    (h : Overflows context tokens .exponentOverflow) (ht : other.text = context.text) :
    Overflows other tokens .exponentOverflow := by
  cases h with
  | @exponent front rest token text span kind n htokens hread hnumber =>
    have hother : ReadAs other token rest text span kind n := by
      cases hread with
      | merged hk him hkim => exact ht ▸ .merged hk him hkim
      | single hk him => exact .single hk him
      | suffixed hk => exact .suffixed hk
    exact .exponent htokens hother hnumber

/-- A text being read: its tokens, the ways in which a parse of it may crash, and whether the
statements in it are taken to keep braces balanced. Only a calibration body, or an error at the end,
takes several lines. -/
structure Reading where
  context : Context
  tokens : List Token
  row : Span.InRow context.source 0 (min (Text.width context.text) maxOffset)
    (tokens.map Token.span)
  halts : Crash → Prop
  halts_overflow : ∀ failure, Overflows context tokens failure → halts failure
  fair : Prop
  signatures : fair → SignaturesBalanced tokens
  lines : ∀ front token back, tokens = front ++ token :: back → '\n' ∈ token.text →
    token.kind = .calibrationBody ∨ token.kind = .error ∧ back = []

/-- The end of the last token of a list, or the offset before it. -/
def endAfter (offset : Nat) (tokens : List Token) : Nat :=
  tokens.foldl (fun _ token => token.span.stop) offset

/-- Behind no tokens the end is where it was. -/
@[simp] theorem endAfter_nil (offset : Nat) : endAfter offset [] = offset := rfl

/-- The end is that of the last token. -/
@[simp] theorem endAfter_append (offset : Nat) (tokens more : List Token) :
    endAfter offset (tokens ++ more) = endAfter (endAfter offset tokens) more :=
  List.foldl_append

/-- Behind one token it is that of this one. -/
@[simp] theorem endAfter_singleton (offset : Nat) (token : Token) :
    endAfter offset [token] = token.span.stop := rfl

namespace Reading

variable (reading : Reading)

/-- The end of the text. -/
def limit : Nat := min (Text.width reading.context.text) maxOffset

/-- Where the text ahead begins. -/
def nextStart : List Token → Nat
  | [] => reading.limit
  | token :: _ => token.span.start

section
variable {α β : Type}

/-- What a parser comes to from a state: a value with a state, a state in which it stops, or a
crash. -/
def Runs (parser : Parser α) (state : State) (post : α → State → Prop) (stop : State → Prop) :
    Prop :=
  match parser reading.context state with
  | .ok value after => post value after
  | .error .recovered after => stop after
  | .error (.crash crash) _ => reading.halts crash

end

/-! ## States -/

/-- States in which a production with `levels` levels below it may start. -/
structure Ready (levels : Nat) (state : State) : Prop where
  rest : state.rest = reading.tokens.drop state.position
  position : state.position ≤ reading.tokens.length
  row : Span.InRow reading.context.source state.previousEnd reading.limit
    (state.rest.map Token.span)
  previousEnd : state.previousEnd ≤ reading.limit
  sized : Sized state.builder
  unwinding : state.unwinding = none
  resync : ∀ position, state.resync = some position → position ≤ state.position
  reports : ∀ diagnostic ∈ state.diagnostics.items, diagnostic.code.isOfText
  depth : state.depth ≤ reading.context.options.maxDepth
  levels : state.depth + levels = reading.context.options.maxDepth + 1

/-- The state after `read`, with the nodes of `roots` pushed and so many braces open, as seen from
the one before. -/
structure Held (levels : Nat) (base : State) (read ahead : List Token) (roots : List Placed)
    (braces : Nat) (state : State) : Prop where
  start : reading.Ready levels base
  split : base.rest = read ++ ahead
  rest : state.rest = ahead
  position : state.position = base.position + read.length
  previousEnd : state.previousEnd = endAfter base.previousEnd read
  depth : state.depth = base.depth
  openBlocks : state.openBlocks = base.openBlocks
  scopes : state.scopes = base.scopes
  version : state.version = base.version
  unwinding : state.unwinding = none
  resync : ∀ position, state.resync = some position → position ≤ state.position
  reports : ∀ diagnostic ∈ state.diagnostics.items, diagnostic.code.isOfText
  grown : Grown reading.context.source base.builder roots state.builder
  row : Span.InRow reading.context.source (reading.nextStart base.rest) state.previousEnd
    (roots.map Placed.span)
  braces : reading.fair → ahead ≠ [] → braceLevel? 0 read = some braces

/-- The state in which a production stops, as seen from the one before it. -/
structure Dropped (base : State) (state : State) : Prop where
  depth : state.depth = base.depth
  openBlocks : state.openBlocks = base.openBlocks
  scopes : state.scopes = base.scopes
  version : state.version = base.version
  read : ∃ read, base.rest = read ++ state.rest ∧
    state.position = base.position + read.length ∧
    state.previousEnd = endAfter base.previousEnd read ∧
    (reading.fair → state.rest ≠ [] → ∃ braces, braceLevel? 0 read = some braces)
  grown : ∃ roots, Grown reading.context.source base.builder roots state.builder
  resync : ∀ position, state.resync = some position → position ≤ state.position
  reports : ∀ diagnostic ∈ state.diagnostics.items, diagnostic.code.isOfText
  unwinding : ∀ blocks, state.unwinding = some blocks → base.openBlocks ≤ blocks

section
variable {reading} {levels : Nat} {base state after : State} {read more ahead : List Token}
  {roots roots' : List Placed} {braces : Nat}

/-- Tokens ahead begin where the last token read ends, or later. -/
theorem Ready.le_nextStart (h : reading.Ready levels base) :
    base.previousEnd ≤ reading.nextStart base.rest := by
  cases hr : base.rest with
  | nil => exact h.previousEnd
  | cons token rest =>
    have := h.row
    rw [hr] at this
    exact this.2.1

/-- A token ahead that takes several lines is a calibration body, or an error at the end. -/
theorem Ready.line (h : reading.Ready levels base) (front : List Token) {token : Token}
    {back : List Token} (hs : base.rest = front ++ token :: back) (hm : '\n' ∈ token.text) :
    token.kind = .calibrationBody ∨ token.kind = .error ∧ back = [] := by
  refine reading.lines (reading.tokens.take base.position ++ front) token back ?_ hm
  rw [List.append_assoc, ← hs, h.rest, List.take_append_drop]

/-- The next token stands on one line if it is no calibration body and no error. -/
theorem Ready.oneLine (h : reading.Ready levels base) {token : Token} {rest : List Token}
    (hs : base.rest = token :: rest) (hk : token.kind ≠ .calibrationBody)
    (he : token.kind ≠ .error) : '\n' ∉ token.text := by
  intro hm
  rcases h.line [] hs hm with hbody | ⟨herror, -⟩
  · exact hk hbody
  · exact he herror

/-- A number that has just been read may overflow. -/
theorem Held.overflows {token : Token}
    (h : reading.Held levels base ([] ++ [token]) ahead roots braces state) {text : List Char}
    {span : Span} {kind : LiteralKind} {n : Nat}
    (hr : ReadAs reading.context token ahead text span kind n)
    (ho : Literal.read text kind = .error .overflow) : reading.halts .exponentOverflow := by
  have htokens : reading.tokens = reading.tokens.take base.position ++ token :: ahead := by
    have hrest : token :: ahead = base.rest := h.split.symm
    rw [hrest, h.start.rest, List.take_append_drop]
  exact reading.halts_overflow _ (.exponent htokens hr ho)

/-- Nothing has been read yet. -/
theorem Held.refl (h : reading.Ready levels base) :
    reading.Held levels base [] base.rest [] 0 base where
  start := h
  split := rfl
  rest := rfl
  position := rfl
  previousEnd := rfl
  depth := rfl
  openBlocks := rfl
  scopes := rfl
  version := rfl
  unwinding := h.unwinding
  resync := h.resync
  reports := h.reports
  grown := .refl _ _
  row := Span.inRow_nil
  braces := fun _ _ => rfl

/-- The end is found along the spans. -/
theorem endAfter_eq_foldl (offset : Nat) (tokens : List Token) :
    endAfter offset tokens = (tokens.map Token.span).foldl (fun _ span => span.stop) offset := by
  rw [endAfter, List.foldl_map]

/-- The tokens ahead of a held state stand in a row from the end of those read. -/
theorem Held.row_ahead (h : reading.Held levels base read ahead roots braces state) :
    Span.InRow reading.context.source state.previousEnd reading.limit
      (ahead.map Token.span) := by
  have := h.start.row
  rw [h.split, List.map_append] at this
  rw [h.previousEnd, endAfter_eq_foldl]
  exact this.of_append_right

/-- A held state lies no further back than its base, and within the text. -/
theorem Held.previousEnd_le (h : reading.Held levels base read ahead roots braces state) :
    base.previousEnd ≤ state.previousEnd ∧ state.previousEnd ≤ reading.limit := by
  have := h.start.row
  rw [h.split, List.map_append] at this
  rw [h.previousEnd, endAfter_eq_foldl]
  exact this.of_append_left.foldl_stop h.start.previousEnd

/-- A production may start in a held state. -/
theorem Held.ready (h : reading.Held levels base read ahead roots braces state) :
    reading.Ready levels state where
  rest := by
    have := h.start.rest
    rw [h.split] at this
    rw [h.rest, h.position, ← List.drop_drop, ← this, List.drop_left]
  position := by
    have := congrArg List.length h.start.rest
    rw [h.split, List.length_append, List.length_drop] at this
    have := h.start.position
    rw [h.position]
    omega
  row := h.rest ▸ h.row_ahead
  previousEnd := h.previousEnd_le.2
  sized := h.grown.sized h.start.sized
  unwinding := h.unwinding
  resync := h.resync
  reports := h.reports
  depth := h.depth ▸ h.start.depth
  levels := h.depth ▸ h.start.levels

/-- What is read ends after it begins, if it is anything. -/
theorem Ready.nextStart_le_endAfter (h : reading.Ready levels base) (hs : base.rest = read ++ ahead)
    (hr : read ≠ []) : reading.nextStart base.rest ≤ endAfter base.previousEnd read := by
  obtain ⟨token, read, rfl⟩ := List.exists_cons_of_ne_nil hr
  have hrow := h.row
  rw [hs, List.map_append] at hrow
  obtain ⟨-, -, h1, h2, h3⟩ := hrow.of_append_left
  have h4 := (h3.foldl_stop h2).1
  rw [← endAfter_eq_foldl] at h4
  rw [hs]
  exact Nat.le_trans h1 h4

/-- What was read starts before it ends. -/
theorem Held.nextStart_le_previousEnd (h : reading.Held levels base read ahead roots braces state)
    (hr : read ≠ []) : reading.nextStart base.rest ≤ state.previousEnd :=
  h.previousEnd ▸ h.start.nextStart_le_endAfter h.split hr

/-- Once a token was read the position is not the first. -/
theorem Held.position_pos (h : reading.Held levels base read ahead roots braces state)
    (hr : read ≠ []) : 0 < state.position := by
  have := List.length_pos_iff.2 hr
  rw [h.position]
  omega

/-- What is read after something read begins after it. -/
theorem Held.nextStart_le (h : reading.Held levels base read ahead roots braces state) :
    reading.nextStart base.rest ≤ reading.nextStart ahead := by
  by_cases hr : read = []
  · rw [h.split, hr]
    exact Nat.le_refl _
  · have h1 := h.nextStart_le_previousEnd hr
    have h2 := h.ready.le_nextStart
    rw [h.rest] at h2
    exact Nat.le_trans h1 h2

/-- One held state after another. -/
theorem Held.trans (h : reading.Held levels base read ahead roots braces state)
    {rest : List Token} (h' : reading.Held levels state more rest roots' 0 after) :
    reading.Held levels base (read ++ more) rest (roots ++ roots') braces after where
  start := h.start
  split := by rw [h.split, ← h.rest, h'.split, List.append_assoc]
  rest := h'.rest
  position := by rw [h'.position, h.position, List.length_append]; omega
  previousEnd := by rw [h'.previousEnd, h.previousEnd, endAfter_append]
  depth := h'.depth.trans h.depth
  openBlocks := h'.openBlocks.trans h.openBlocks
  scopes := h'.scopes.trans h.scopes
  version := h'.version.trans h.version
  unwinding := h'.unwinding
  resync := h'.resync
  reports := h'.reports
  grown := h.grown.trans h'.grown
  row := by
    have hend := h'.start.le_nextStart
    have hrow := h'.row
    rw [h.rest] at hend hrow
    rw [List.map_append]
    exact h.row.follow hrow h.nextStart_le hend h'.previousEnd_le.1
  braces := fun hf hne => by
    have h1 := h.braces hf (by rw [← h.rest, h'.split]; simp [hne])
    have h2 : Balanced more := h'.braces hf hne
    rw [braceLevel?_append, h1, Option.bind_some, h2.braceLevel?]

end

end Reading

end Grammar

end OpenQasm
