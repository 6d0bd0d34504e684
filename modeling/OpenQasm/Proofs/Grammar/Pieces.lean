import OpenQasm.Proofs.Grammar.Rules

/-!
# Rules for the pieces

The rules for tokens, reports, lists, nodes, nesting and names: what each of them does to a held
state.
-/

namespace OpenQasm.Grammar

/-- The tokens that begin with one of the given kind. -/
theorem startsWith_iff {kind : TokenKind} {tokens : List Token} :
    startsWith kind tokens = true ↔
      ∃ token rest, tokens = token :: rest ∧ token.kind = kind := by
  cases tokens <;> simp [startsWith]

/-- A kind that is seen ahead is that of a token. -/
theorem exists_of_peek {kind : TokenKind} {tokens : List Token}
    (h : tokens.head?.map Token.kind = some kind) :
    ∃ token rest, tokens = token :: rest ∧ token.kind = kind := by
  cases tokens with
  | nil => cases h
  | cons token rest => exact ⟨token, rest, rfl, Option.some.inj h⟩

/-- Passing over tokens leads to the state behind them. -/
theorem pass_append (state : State) (tokens rest : List Token)
    (h : state.rest = tokens ++ rest) :
    State.pass tokens.length state =
      { state with
        rest
        position := state.position + tokens.length
        previousEnd := endAfter state.previousEnd tokens } := by
  induction tokens generalizing state with
  | nil => rw [List.nil_append] at h; simp [State.pass, ← h]
  | cons token tokens ih =>
    rw [List.length_cons, State.pass, h]
    dsimp only [List.cons_append]
    rw [ih _ rfl]
    simp only [endAfter, List.foldl_cons, Nat.add_assoc, Nat.add_comm 1]

/-- Passing over tokens changes nothing else. -/
theorem pass_eq (n : Nat) (state : State) : State.pass n state =
    { state with
      rest := (State.pass n state).rest
      position := (State.pass n state).position
      previousEnd := (State.pass n state).previousEnd } := by
  induction n generalizing state with
  | zero => rfl
  | succ n ih =>
    rw [State.pass]
    split
    · rfl
    · exact ih _

namespace Reading

section
variable {reading : Reading} {α β : Type} {levels : Nat} {base state : State}
  {read ahead : List Token} {roots : List Placed} {braces : Nat} {next : α → Parser β}
  {post : β → State → Prop} {stop : State → Prop}

/-! ## Tokens -/

/-- The state after some tokens more. -/
theorem Held.pass {more rest : List Token} {braces' : Nat}
    (h : reading.Held levels base read ahead roots braces state) (ha : ahead = more ++ rest)
    (hb : reading.fair → rest ≠ [] → braceLevel? braces more = some braces') :
    reading.Held levels base (read ++ more) rest roots braces'
      (State.pass more.length state) := by
  rw [pass_append state more rest (h.rest.trans ha)]
  have hrow := h.row_ahead
  rw [ha, List.map_append] at hrow
  have hle := (hrow.of_append_left.foldl_stop h.previousEnd_le.2).1
  rw [← endAfter_eq_foldl] at hle
  exact
    { start := h.start
      split := by rw [h.split, ha, List.append_assoc]
      rest := rfl
      position := by simp only [h.position, List.length_append, Nat.add_assoc]
      previousEnd := by simp only [h.previousEnd, endAfter_append]
      depth := h.depth
      openBlocks := h.openBlocks
      scopes := h.scopes
      version := h.version
      unwinding := h.unwinding
      resync := fun position hp => by
        have := h.resync position hp
        dsimp only
        omega
      reports := h.reports
      grown := h.grown
      row := h.row.mono (Nat.le_refl _) hle
      braces := fun hf hne => by
        have h1 := h.braces hf (by rw [ha]; simp [hne])
        rw [braceLevel?_append, h1, Option.bind_some, hb hf hne] }

/-- One token more that is no brace. -/
theorem Held.advance {token : Token} {rest : List Token} {next : Unit → Parser β}
    (h : reading.Held levels base read (token :: rest) roots braces state)
    (hb : isBrace token.kind = false)
    (hn : ∀ after, reading.Held levels base (read ++ [token]) rest roots braces after →
      reading.Runs (next ()) after post stop) :
    reading.Runs (advance >>= next) state post stop :=
  Runs.modify (hn _ (h.pass rfl fun _ _ => by rw [braceLevel?_plain hb]; rfl))

/-- The next kind is that of the first token ahead. -/
theorem Held.peek {next : Option TokenKind → Parser β}
    (h : reading.Held levels base read ahead roots braces state)
    (hn : reading.Runs (next (ahead.head?.map Token.kind)) state post stop) :
    reading.Runs (peek >>= next) state post stop := by
  rw [← h.rest] at hn
  exact hn

/-- The token at hand is the first one ahead. -/
theorem Held.current {next : Option Token → Parser β}
    (h : reading.Held levels base read ahead roots braces state)
    (hn : reading.Runs (next ahead.head?) state post stop) :
    reading.Runs (current >>= next) state post stop := by
  rw [← h.rest] at hn
  exact hn

/-- A choice by the kind of the next token. -/
theorem Held.sees {kind : TokenKind} {yes no : Parser β}
    (h : reading.Held levels base read ahead roots braces state)
    (hyes : ∀ token rest, ahead = token :: rest → token.kind = kind →
      reading.Runs yes state post stop)
    (hno : reading.Runs no state post stop) :
    reading.Runs (sees kind >>= fun seen => if seen = true then yes else no) state post stop := by
  refine Runs.assoc (Runs.get (Runs.pure_bind (Runs.ite (fun hs => ?_) fun _ => hno)))
  rw [h.rest] at hs
  obtain ⟨token, rest, hsplit, hk⟩ := startsWith_iff.1 hs
  exact hyes token rest hsplit hk

/-- A choice by whether the next token is of a kind, which is then read and is no brace. -/
theorem Held.accept {kind : TokenKind} {yes no : Parser β}
    (h : reading.Held levels base read ahead roots braces state) (hb : isBrace kind = false)
    (hyes : ∀ token rest after, ahead = token :: rest → token.kind = kind →
      reading.Held levels base (read ++ [token]) rest roots braces after →
      reading.Runs yes after post stop)
    (hno : reading.Runs no state post stop) :
    reading.Runs (accept kind >>= fun seen => if seen = true then yes else no) state post
      stop := by
  refine Runs.assoc (Runs.assoc (Runs.get (Runs.pure_bind (Runs.ite_bind (fun hs => ?_)
    fun _ => hno))))
  rw [h.rest] at hs
  obtain ⟨token, rest, rfl, hk⟩ := startsWith_iff.1 hs
  exact Runs.assoc (h.advance (hk ▸ hb) fun after hafter => hyes token rest after rfl hk hafter)

/-- The span of the next token begins where the text ahead begins. -/
theorem Held.currentSpan {next : Span → Parser β}
    (h : reading.Held levels base read ahead roots braces state)
    (hn : ∀ span : Span, span.start = reading.nextStart ahead →
      reading.Runs (next span) state post stop) :
    reading.Runs (currentSpan >>= next) state post stop := by
  refine Runs.assoc (h.current ?_)
  cases ahead with
  | nil => exact hn _ rfl
  | cons token rest => exact hn token.span rfl

/-! ## Reports -/

/-- A report changes nothing else. -/
theorem Held.reported {diagnostic : Diagnostic}
    (h : reading.Held levels base read ahead roots braces state)
    (hc : diagnostic.code.isOfText = true) :
    reading.Held levels base read ahead roots braces
      { state with diagnostics := state.diagnostics.push diagnostic } :=
  { h with
    reports := fun other ho => by
      rcases List.mem_append.1 ho with ho | ho
      · exact h.reports other ho
      · exact List.mem_singleton.1 ho ▸ hc }

/-- A diagnostic about the text leaves the state held. -/
theorem Held.push {diagnostic : Diagnostic} {next : Unit → Parser β}
    (h : reading.Held levels base read ahead roots braces state)
    (hc : diagnostic.code.isOfText = true)
    (hn : ∀ after, reading.Held levels base read ahead roots braces after →
      reading.Runs (next ()) after post stop) :
    reading.Runs (push diagnostic >>= next) state post stop :=
  hn _ (h.reported hc)

/-- So does a report about the text. -/
theorem Held.report {code : Code} {span : Span} {message : String} {next : Unit → Parser β}
    (h : reading.Held levels base read ahead roots braces state) (hc : code.isOfText = true)
    (hn : ∀ after, reading.Held levels base read ahead roots braces after →
      reading.Runs (next ()) after post stop) :
    reading.Runs (report code span message >>= next) state post stop :=
  h.push hc hn

/-- A report that is made or not. -/
theorem Held.report_if {c : Prop} [Decidable c] {code : Code} {span : Span} {message : String}
    {next : Unit → Parser β}
    (h : reading.Held levels base read ahead roots braces state) (hc : code.isOfText = true)
    (hn : ∀ after, reading.Held levels base read ahead roots braces after →
      reading.Runs (next ()) after post stop) :
    reading.Runs (if c then Grammar.report code span message >>= next else next ()) state post
      stop :=
  Runs.ite (fun _ => h.report hc hn) fun _ => hn state h

/-- A report that is made under a condition leaves the state held. -/
theorem Held.report_unless {c : Prop} [Decidable c] {code : Code} {span : Span}
    {message : String} {next : Unit → Parser β}
    (h : reading.Held levels base read ahead roots braces state) (hc : code.isOfText = true)
    (hn : ∀ after, reading.Held levels base read ahead roots braces after →
      reading.Runs (next ()) after post stop) :
    reading.Runs (if c then next () else Grammar.report code span message >>= next) state post
      stop :=
  Runs.ite (fun _ => hn state h) fun _ => h.report hc hn

/-- So does a note about the version. -/
theorem Held.requireVersion3 {span : Span} {feature : String} {next : Unit → Parser β}
    (h : reading.Held levels base read ahead roots braces state)
    (hn : ∀ after, reading.Held levels base read ahead roots braces after →
      reading.Runs (next ()) after post stop) :
    reading.Runs (requireVersion3 span feature >>= next) state post stop := by
  refine Runs.assoc (Runs.get (Runs.bind (p := fun _ after =>
    reading.Held levels base read ahead roots braces after) ?_ fun _ => hn))
  exact Runs.ite (fun _ => h.reported rfl) fun _ => h

/-- So does a warning about a deprecated form. -/
theorem Held.deprecated {span : Span} {feature : String} {fix : Option Fix}
    {next : Unit → Parser β}
    (h : reading.Held levels base read ahead roots braces state)
    (hn : ∀ after, reading.Held levels base read ahead roots braces after →
      reading.Runs (next ()) after post stop) :
    reading.Runs (deprecated span feature fix >>= next) state post stop := by
  refine Runs.assoc (Runs.get (Runs.bind (p := fun _ after =>
    reading.Held levels base read ahead roots braces after) ?_ fun _ => hn))
  exact Runs.ite (fun _ => h) fun _ => h.reported rfl

/-! ## Failures -/

/-- The sum with the window is beyond the machine numbers only if the tokens allow it. -/
theorem Held.isSuppressed {next : Bool → Parser β}
    (h : reading.Held levels base read ahead roots braces state)
    (hn : ∀ suppressed, reading.Runs (next suppressed) state post stop) :
    reading.Runs (isSuppressed >>= next) state post stop := by
  refine Runs.assoc (Runs.get (Runs.assoc (Runs.read ?_)))
  cases hr : state.resync with
  | none => exact hn false
  | some resync =>
    refine Runs.bind (p := fun _ after => after = state) (Runs.ite (fun _ => rfl) fun _ =>
      Runs.ite (fun _ => rfl) fun hover => ?_) fun suppressed _ hs => hs ▸ hn suppressed
    have h1 := h.resync resync hr
    have h2 := h.ready.position
    exact reading.halts_overflow _ (.count (by omega))

/-- A syntax error leaves the state held, shown or suppressed. -/
theorem Held.reportSyntax {message : String} {next : Unit → Parser β}
    (h : reading.Held levels base read ahead roots braces state)
    (hn : ∀ after, reading.Held levels base read ahead roots braces after →
      reading.Runs (next ()) after post stop) :
    reading.Runs (reportSyntax message >>= next) state post stop := by
  refine Runs.assoc (h.isSuppressed fun suppressed => ?_)
  refine Runs.bind (p := fun _ after =>
    reading.Held levels base read ahead roots braces after) ?_ fun _ => hn
  refine Runs.assoc (Runs.get (Runs.pure_bind (Runs.ite (fun _ => h) fun _ => ?_)))
  exact h.currentSpan fun _ _ => h.reported rfl

/-- Failing with a syntax error drops what was read. -/
theorem Held.failSyntax {message : String} {post : α → State → Prop}
    (h : reading.Held levels base read ahead roots braces state) :
    reading.Runs (failSyntax message) state post (reading.Dropped base) :=
  h.reportSyntax fun _ hafter => hafter.drop

/-- So does an unexpected token. -/
theorem Held.unexpected {expected : String} {post : α → State → Prop}
    (h : reading.Held levels base read ahead roots braces state) :
    reading.Runs (unexpected expected) state post (reading.Dropped base) :=
  h.current h.failSyntax

/-- A failure before something else. -/
theorem Held.unexpected_bind {expected : String}
    (h : reading.Held levels base read ahead roots braces state) :
    reading.Runs (Grammar.unexpected expected >>= next) state post (reading.Dropped base) :=
  Runs.bind (p := fun _ _ => False) h.unexpected fun _ _ hv => hv.elim

/-- A token that has to be there, and what it does to the level of braces. -/
theorem Held.expectAt {kind : TokenKind} {next : Token → Parser β} {braces' : Nat}
    (h : reading.Held levels base read ahead roots braces state)
    (hb : ∀ token : Token, token.kind = kind → braceLevel? braces [token] = some braces')
    (hstop : ∀ after, reading.Dropped base after → stop after)
    (hn : ∀ token rest after, ahead = token :: rest → token.kind = kind →
      reading.Held levels base (read ++ [token]) rest roots braces' after →
      reading.Runs (next token) after post stop) :
    reading.Runs (expect kind >>= next) state post stop := by
  refine Runs.assoc (h.current ?_)
  cases ahead with
  | nil => exact h.unexpected_bind.conseq (fun _ _ hv => hv) hstop
  | cons token rest =>
    refine Runs.ite_bind (fun hk => ?_) fun _ =>
      h.unexpected_bind.conseq (fun _ _ hv => hv) hstop
    exact Runs.assoc (Runs.modify (hn token rest _ rfl hk (h.pass rfl fun _ _ => hb token hk)))

/-- A token that has to be there and is no brace. -/
theorem Held.expect {kind : TokenKind} {next : Token → Parser β}
    (h : reading.Held levels base read ahead roots braces state) (hb : isBrace kind = false)
    (hn : ∀ token rest after, ahead = token :: rest → token.kind = kind →
      reading.Held levels base (read ++ [token]) rest roots braces after →
      reading.Runs (next token) after post (reading.Dropped base)) :
    reading.Runs (Grammar.expect kind >>= next) state post (reading.Dropped base) :=
  h.expectAt (fun _ hk => braceLevel?_plain (hk ▸ hb)) (fun _ hs => hs) hn

/-- An opening brace that has to be there. -/
theorem Held.expect_left {next : Token → Parser β}
    (h : reading.Held levels base read ahead roots braces state)
    (hn : ∀ token rest after, ahead = token :: rest → token.kind = Symbol.leftBrace →
      reading.Held levels base (read ++ [token]) rest roots (braces + 1) after →
      reading.Runs (next token) after post (reading.Dropped base)) :
    reading.Runs (Grammar.expect Symbol.leftBrace >>= next) state post (reading.Dropped base) :=
  h.expectAt (fun _ hk => braceLevel?_left hk) (fun _ hs => hs) hn

/-- A closing brace that has to be there, after an opening one. -/
theorem Held.expect_right {next : Token → Parser β}
    (h : reading.Held levels base read ahead roots (braces + 1) state)
    (hn : ∀ token rest after, ahead = token :: rest → token.kind = Symbol.rightBrace →
      reading.Held levels base (read ++ [token]) rest roots braces after →
      reading.Runs (next token) after post (reading.Dropped base)) :
    reading.Runs (Grammar.expect Symbol.rightBrace >>= next) state post (reading.Dropped base) :=
  h.expectAt (fun _ hk => braceLevel?_right hk) (fun _ hs => hs) hn

/-! ## Nodes -/

/-- The span from the first token read to the last one. -/
theorem Held.spanFrom {start : Span} {next : Span → Parser β}
    (h : reading.Held levels base read ahead roots braces state) (hne : read ≠ [])
    (hs : start.start = reading.nextStart base.rest)
    (hn : reading.Runs (next ⟨reading.context.source, reading.nextStart base.rest,
      endAfter base.previousEnd read⟩) state post stop) :
    reading.Runs (spanFrom start >>= next) state post stop := by
  refine Runs.assoc (Runs.read (Runs.assoc (Runs.get ?_)))
  have hle := h.nextStart_le_previousEnd hne
  rw [h.previousEnd] at hle
  rw [hs, h.previousEnd, Nat.max_eq_left hle]
  exact hn

/-- A node over all roots. -/
theorem Held.place {kind : NodeKind Placed} {span : Span} {post : Placed → State → Prop}
    (h : reading.Held levels base read ahead roots braces state) (hne : read ≠ [])
    (hroots : kind.children = roots)
    (hfit : kind.slots.all fun place => place.1.accepts place.2.kind) (hfresh : kind.isFresh)
    (hspan : span = ⟨reading.context.source, reading.nextStart base.rest,
      endAfter base.previousEnd read⟩)
    (hpost : ∀ node after, node.kind = kind.map Placed.id → node.span = span →
      reading.Held levels base read ahead [node] braces after → post node after) :
    reading.Runs (place kind span) state post stop := by
  subst hroots
  have hle := h.nextStart_le_previousEnd hne
  have hrow := h.row
  rw [h.previousEnd] at hle hrow
  obtain ⟨pushed, hpush, hgrown⟩ := h.grown.push kind span h.start.sized
    (List.all_eq_true.1 hfit) hfresh
    (by rw [hspan]) (by rw [hspan]; exact hle) (by rw [hspan]; exact hrow)
  refine Runs.get ?_
  dsimp only
  rw [hpush]
  refine hpost _ _ rfl rfl { h with grown := hgrown, row := ?_ }
  rw [h.previousEnd, List.map_singleton, Span.inRow_singleton, hspan]
  exact ⟨rfl, Nat.le_refl _, hle, Nat.le_refl _⟩

/-- A node that takes its place and spans what was read is what a production yields. -/
theorem Held.yielded {node : Placed} {declares : Prop} {slot : Slot} {before : State}
    (h : reading.Held levels base read ahead [node] 0 state) (hr : Revised declares before base)
    (hne : read ≠ []) (hslot : slot.accepts node.kind)
    (hspan : node.span = ⟨reading.context.source, reading.nextStart base.rest,
      endAfter base.previousEnd read⟩) :
    reading.Yields declares slot levels before node state := by
  refine ⟨base, read, ahead, hr, hne, h, hslot, ?_⟩
  rw [hspan, h.previousEnd, show base.rest = before.rest by rw [hr.state]]

/-- A production that ends by placing a node over all roots yields it. -/
theorem Held.place_yields {kind : NodeKind Placed} {span : Span} {declares : Prop} {slot : Slot}
    {before : State} (h : reading.Held levels base read ahead roots 0 state)
    (hr : Revised declares before base) (hne : read ≠ []) (hroots : kind.children = roots)
    (hfit : kind.slots.all fun place => place.1.accepts place.2.kind) (hfresh : kind.isFresh)
    (hspan : span = ⟨reading.context.source, reading.nextStart before.rest,
      endAfter before.previousEnd read⟩)
    (hslot : slot.accepts kind) :
    reading.Runs (Grammar.place kind span) state
      (fun node after => reading.Yields declares slot levels before node after ∧
        after.rest = ahead) stop := by
  have hspan' : span = ⟨reading.context.source, reading.nextStart base.rest,
      endAfter base.previousEnd read⟩ := by rw [hspan, hr.state]
  exact h.place hne hroots hfit hfresh hspan' fun node after hk hs hafter =>
    ⟨hafter.yielded hr hne (by rw [hk, NodeKind.accepts_map]; exact hslot) (hs.trans hspan'),
      hafter.rest⟩

/-- The same for a node that spans from the first token read to the last one. -/
theorem Held.placeFrom_yields {kind : NodeKind Placed} {start : Span} {declares : Prop}
    {slot : Slot} {before : State} (h : reading.Held levels base read ahead roots 0 state)
    (hr : Revised declares before base) (hne : read ≠ [])
    (hstart : start.start = reading.nextStart before.rest) (hroots : kind.children = roots)
    (hfit : kind.slots.all fun place => place.1.accepts place.2.kind) (hfresh : kind.isFresh)
    (hslot : slot.accepts kind) :
    reading.Runs (placeFrom start kind) state
      (fun node after => reading.Yields declares slot levels before node after ∧
        after.rest = ahead) stop :=
  h.spanFrom hne (by rw [hstart, hr.state])
    (h.place_yields hr hne hroots hfit hfresh (by rw [hr.state]) hslot)

/-- A production that ends by placing a node over all roots. -/
theorem Held.ends {kind : NodeKind Placed} {span : Span} {declares : Prop} {slot : Slot}
    {before : State} (h : reading.Held levels base read ahead roots 0 state)
    (hr : Revised declares before base) (hne : read ≠ []) (hroots : kind.children = roots)
    (hfit : kind.slots.all fun place => place.1.accepts place.2.kind) (hfresh : kind.isFresh)
    (hspan : span = ⟨reading.context.source, reading.nextStart before.rest,
      endAfter before.previousEnd read⟩)
    (hslot : slot.accepts kind) :
    reading.Runs (Grammar.place kind span) state (reading.Yields declares slot levels before)
      stop :=
  (h.place_yields hr hne hroots hfit hfresh hspan hslot).conseq (fun _ _ hv => hv.1)
    fun _ hs => hs

/-- A production that ends by placing a node from the first token read to the last one. -/
theorem Held.endsFrom {kind : NodeKind Placed} {start : Span} {declares : Prop} {slot : Slot}
    {before : State} (h : reading.Held levels base read ahead roots 0 state)
    (hr : Revised declares before base) (hne : read ≠ [])
    (hstart : start.start = reading.nextStart before.rest) (hroots : kind.children = roots)
    (hfit : kind.slots.all fun place => place.1.accepts place.2.kind) (hfresh : kind.isFresh)
    (hslot : slot.accepts kind) :
    reading.Runs (placeFrom start kind) state (reading.Yields declares slot levels before) stop :=
  h.spanFrom hne (by rw [hstart, hr.state])
    (h.ends hr hne hroots hfit hfresh (by rw [hr.state]) hslot)

/-- A literal that becomes an angle stays where it is. -/
theorem Yields.retagAngle {node : Placed} {slot : Slot}
    (h : reading.Yields False slot levels base node state) :
    reading.Runs (retagAngle node) state (reading.Yields False slot levels base) stop := by
  obtain ⟨base', read, ahead, hr, hne, hheld, hslot, hspan⟩ := id h
  obtain rfl := hr.fixed.resolve_left id
  unfold Grammar.retagAngle
  split
  · next value hk =>
    have hgrown : Grown reading.context.source base'.builder ([] ++ [node]) state.builder :=
      hheld.grown
    have hlast : reading.Held levels base' read ahead [{ node with kind := .literal value.toAngle }]
        0 { state with builder := state.builder.setKind node.id (.literal value.toAngle) } :=
      { hheld with grown := hgrown.setLiteral value.toAngle hk }
    rw [hk] at hslot
    exact Runs.modify ⟨base', read, ahead, .refl _, hne, hlast,
      by cases slot <;> exact hslot, hspan⟩
  · exact h

/-! ## Nesting -/

/-- Counters may be set alike before and after. -/
theorem Held.reframe {levels' : Nat} (h : reading.Held levels base read ahead roots braces state)
    {depth openBlocks : Nat} (hb : reading.Ready levels' { base with depth, openBlocks }) :
    reading.Held levels' { base with depth, openBlocks } read ahead roots braces
      { state with depth, openBlocks } :=
  { h with start := hb, depth := rfl, openBlocks := rfl }

/-- A revision does not look at the depth or the open braces. -/
theorem Revised.reframe {declares : Prop} {after : State} (h : Revised declares base after)
    (depth openBlocks : Nat) :
    Revised declares { base with depth, openBlocks } { after with depth, openBlocks } where
  state := by rw [h.state]
  outer := h.outer
  count := h.count
  version := h.version
  fixed := h.fixed.imp_right fun hb => by rw [hb]

/-- Declaring names does not matter to where a production may start. -/
theorem Revised.ready {declares : Prop} {after : State} (h : Revised declares base after)
    (hb : reading.Ready levels base) : reading.Ready levels after := by
  rw [h.state]
  exact { hb with }

/-- The nodes that are given do not depend on the depth or the open braces. -/
theorem Gives.reframe {levels' : Nat} {declares : Prop} {nodes : List Placed}
    (h : reading.Gives declares levels base nodes state) {depth openBlocks : Nat}
    (hb : reading.Ready levels' { base with depth, openBlocks }) :
    reading.Gives declares levels' { base with depth, openBlocks } nodes
      { state with depth, openBlocks } := by
  obtain ⟨base', read, ahead, hr, hheld⟩ := h
  have hr' := hr.reframe depth openBlocks
  exact ⟨_, read, ahead, hr', hheld.reframe (hr'.ready hb)⟩

/-- Nor does the node that is yielded. -/
theorem Yields.reframe {levels' : Nat} {declares : Prop} {slot : Slot} {node : Placed}
    (h : reading.Yields declares slot levels base node state) {depth openBlocks : Nat}
    (hb : reading.Ready levels' { base with depth, openBlocks }) :
    reading.Yields declares slot levels' { base with depth, openBlocks } node
      { state with depth, openBlocks } := by
  obtain ⟨base', read, ahead, hr, hne, hheld, hslot, hspan⟩ := h
  have hr' := hr.reframe depth openBlocks
  exact ⟨_, read, ahead, hr', hne, hheld.reframe (hr'.ready hb), hslot, hspan⟩

/-- Counters may be set alike before and after a stop, if blocks are not closed by it. -/
theorem Dropped.reframe (h : reading.Dropped base state) {depth openBlocks : Nat}
    (hb : openBlocks ≤ base.openBlocks) :
    reading.Dropped { base with depth, openBlocks } { state with depth, openBlocks } :=
  { h with
    depth := rfl
    openBlocks := rfl
    unwinding := fun blocks hs => Nat.le_trans hb (h.unwinding blocks hs) }

/-- The state within one level of nesting more. -/
def inner (state : State) : State := { state with depth := state.depth + 1 }

/-- The report that nesting is too deep stops a production. -/
theorem overflow_runs {post : α → State → Prop} (h : reading.Ready levels base) :
    reading.Runs overflow base post (reading.Dropped base) := by
  have hnone : base.unwinding.isNone = true := by rw [h.unwinding]; rfl
  refine Runs.get (Runs.read ?_)
  refine Runs.ite (fun _ => ?_) fun hsome => absurd hnone hsome
  refine (Held.refl h).currentSpan fun span _ => (Held.refl h).report rfl fun after hafter => ?_
  refine Runs.modify { hafter.drop with unwinding := fun blocks hb => ?_ }
  exact Nat.le_of_eq (hafter.openBlocks.symm.trans (Option.some.inj hb))

/-- One level further in, a state is ready for one level fewer. -/
theorem Ready.inner (h : reading.Ready (levels + 1) base)
    (hlt : base.depth < reading.context.options.maxDepth) :
    reading.Ready levels (Reading.inner base) :=
  { h with
    depth := by simp only [Reading.inner]; omega
    levels := by have := h.levels; simp only [Reading.inner]; omega }

/-- A production one level deeper. -/
theorem nested_runs {parser : Parser α} {mid post : α → State → Prop}
    (h : reading.Ready (levels + 1) base)
    (hp : reading.Ready levels (inner base) →
      reading.Runs parser (inner base) mid (reading.Dropped (inner base)))
    (hm : ∀ value after, mid value after →
      after.depth = base.depth + 1 ∧ after.openBlocks = base.openBlocks ∧
        post value { after with depth := base.depth, openBlocks := base.openBlocks }) :
    reading.Runs (nested parser) base post (reading.Dropped base) := by
  refine Runs.read (Runs.get (Runs.ite (fun _ => overflow_runs h) fun hle => Runs.around ?_))
  have hready := h.inner (Nat.lt_of_not_le hle)
  refine (hp hready).conseq (fun value after hv => ?_) fun after hd => ?_
  · obtain ⟨h1, h2, h3⟩ := hm value after hv
    rw [h1, Nat.add_sub_cancel]
    rwa [← h2] at h3
  · have h1 : after.depth = base.depth + 1 := hd.depth
    have h2 : after.openBlocks = base.openBlocks := hd.openBlocks
    have h3 : reading.Dropped base
        { after with depth := base.depth, openBlocks := base.openBlocks } :=
      hd.reframe (Nat.le_refl _)
    rw [h1, Nat.add_sub_cancel]
    rwa [← h2] at h3

/-- A production between braces. -/
theorem Held.blockOpen {next : α → Parser β} {parser : Parser α} {p : α → Prop}
    (h : reading.Held levels base read ahead roots braces state) (nodes : α → List Placed)
    (hp : ∀ base', reading.Ready levels base' → 0 < base'.openBlocks →
      base'.position = state.position →
      reading.Runs parser base'
        (fun value after => reading.Gives False levels base' (nodes value) after ∧ p value)
        (reading.Dropped base'))
    (hn : ∀ value more rest after, ahead = more ++ rest → p value →
      reading.Held levels base (read ++ more) rest (roots ++ nodes value) braces after →
      reading.Runs (next value) after post (reading.Dropped base)) :
    reading.Runs (blockOpen parser >>= next) state post (reading.Dropped base) := by
  refine h.gives nodes (Runs.around ?_) hn
  have hready : reading.Ready levels { state with openBlocks := state.openBlocks + 1 } :=
    { h.ready with }
  refine (hp _ hready (Nat.succ_pos _) rfl).conseq ?_ ?_
  · rintro value after ⟨⟨base', more, rest, hr, hheld⟩, hgood⟩
    obtain rfl := hr.fixed.resolve_left id
    refine ⟨⟨state, more, rest, .refl _, ?_⟩, hgood⟩
    exact { hheld with start := h.ready, openBlocks := by rw [hheld.openBlocks]; rfl }
  · intro after hd
    exact
      { hd with
        openBlocks := by rw [hd.openBlocks]; rfl
        unwinding := fun blocks hb => Nat.le_of_succ_le (hd.unwinding blocks hb) }

/-! ## Scopes -/

/-- The state within a scope of its own. -/
def ownScope (state : State) : State := { state with scopes := [] :: state.scopes }

/-- Where a scope is left, nothing tells that names were declared in it. -/
theorem Revised.scopes_eq {after : State} (h : Revised True (ownScope base) after)
    (hpos : 0 < base.position) :
    ∃ scope, after = { base with scopes := scope :: base.scopes } := by
  have houter : after.scopes.tail = base.scopes := h.outer
  have hversion : after.version = base.version := h.version (.inl hpos)
  cases hs : after.scopes with
  | nil =>
    have := h.count
    rw [hs] at this
    cases this
  | cons scope outer =>
    refine ⟨scope, ?_⟩
    rw [hs] at houter
    rw [h.state, hs, hversion, show outer = base.scopes from houter]
    rfl

/-- A production in a scope of its own, which is gone with its names at the end. -/
theorem inScope_runs {parser : Parser α} (nodes : α → List Placed) {p : α → Prop}
    (h : reading.Ready levels base) (hpos : 0 < base.position)
    (hp : reading.Ready levels (ownScope base) → reading.Runs parser (ownScope base)
      (fun value after =>
        reading.Gives True levels (ownScope base) (nodes value) after ∧ p value)
      fun after => ∃ base', Revised True (ownScope base) base' ∧ reading.Dropped base' after) :
    reading.Runs (inScope parser) base
      (fun value after => reading.Gives False levels base (nodes value) after ∧ p value)
      (reading.Dropped base) := by
  refine Runs.around ((hp { h with }).conseq ?_ ?_)
  · rintro value after ⟨⟨base', read, ahead, hr, hheld⟩, hgood⟩
    obtain ⟨scope, rfl⟩ := hr.scopes_eq hpos
    refine ⟨⟨base, read, ahead, .refl _, ?_⟩, hgood⟩
    exact { hheld with start := h, scopes := by rw [hheld.scopes]; rfl }
  · rintro after ⟨base', hr, hd⟩
    obtain ⟨scope, rfl⟩ := hr.scopes_eq hpos
    exact { hd with scopes := by rw [hd.scopes]; rfl }

/-- Declaring a name changes the innermost scope at most. -/
theorem Held.declare {identifier : Placed} {next : Unit → Parser β}
    (h : reading.Held levels base read ahead roots braces state)
    (hn : ∀ base' after, Revised True base base' →
      reading.Held levels base' read ahead roots braces after →
      reading.Runs (next ()) after post stop) :
    reading.Runs (declare identifier >>= next) state post stop := by
  refine Runs.assoc (Runs.get ?_)
  split
  · next name scope outer _ hs =>
    have hb : base.scopes = scope :: outer := h.scopes.symm.trans hs
    split
    · exact h.push rfl fun after => hn base after (.refl _)
    · refine Runs.modify (hn { base with scopes := ((name, identifier.span) :: scope) :: outer } _
        ?_ { h with start := { h.start with }, scopes := rfl })
      exact
        { state := rfl
          outer := by rw [hb]; rfl
          count := by rw [hb]; rfl
          version := fun _ => rfl
          fixed := .inl trivial }
  · exact hn base state (.refl _) h

/-- Declaring names changes the innermost scope at most. -/
theorem Held.declare_all {identifiers : List Placed} {next : Unit → Parser β}
    (h : reading.Held levels base read ahead roots braces state)
    (hn : ∀ base' after, Revised True base base' →
      reading.Held levels base' read ahead roots braces after →
      reading.Runs (next ()) after post stop) :
    reading.Runs (identifiers.forM Grammar.declare >>= next) state post stop := by
  induction identifiers generalizing base state with
  | nil => exact hn base state (.refl _) h
  | cons identifier identifiers ih =>
    refine Runs.assoc (h.declare fun base' after hr hafter => ?_)
    exact ih hafter fun base'' after' hr' hafter' => hn base'' after' (hr.trans hr') hafter'

/-- Setting the version at the start of the text. -/
theorem Held.setVersion {version : Option Version} {next : Unit → Parser β}
    (h : reading.Held levels base read ahead roots braces state)
    (hunsettled : ¬VersionSettled base)
    (hn : ∀ base' after, Revised True base base' →
      reading.Held levels base' read ahead roots braces after →
      reading.Runs (next ()) after post stop) :
    reading.Runs ((modify fun state => { state with version }) >>= next) state post stop := by
  refine Runs.modify (hn { base with version } _ ?_
    { h with start := { h.start with }, version := rfl })
  exact
    { state := rfl
      outer := rfl
      count := rfl
      version := fun hp => absurd hp hunsettled
      fixed := .inl trivial }

/-! ## Lists -/

/-- What was held before names were declared is held against the state with these names. -/
theorem Held.revise {declares : Prop} {state' : State}
    (h : reading.Held levels base read ahead roots braces state)
    (hr : Revised declares state state') :
    ∃ base', Revised declares base base' ∧
      reading.Held levels base' read ahead roots braces state' := by
  have hsettled : VersionSettled base → VersionSettled state := by
    intro hs
    cases read with
    | nil =>
      have hrest : state.rest = base.rest := by rw [h.rest, h.split, List.nil_append]
      have hposition : state.position = base.position := h.position
      rwa [VersionSettled, hrest, hposition]
    | cons token read => exact .inl (h.position_pos (List.cons_ne_nil _ _))
  refine ⟨{ base with scopes := state'.scopes, version := state'.version }, ?_, ?_⟩
  · exact
      { state := rfl
        outer := hr.outer.trans (congrArg List.tail h.scopes)
        count := hr.count.trans (congrArg List.length h.scopes)
        version := fun hp => (hr.version (hsettled hp)).trans h.version
        fixed := hr.fixed.imp_right fun hs => by rw [hs, h.scopes, h.version] }
  · rw [hr.state]
    exact { h with start := { h.start with }, scopes := rfl, version := rfl }

/-- What a production gives, after what was held before it. -/
theorem Held.follow {declares : Prop} {nodes : List Placed} {after : State}
    (h : reading.Held levels base read ahead roots braces state)
    (h' : reading.Gives declares levels state nodes after) :
    ∃ base' more rest, Revised declares base base' ∧ ahead = more ++ rest ∧
      reading.Held levels base' (read ++ more) rest (roots ++ nodes) braces after := by
  obtain ⟨state', more, rest, hr, hheld⟩ := h'
  obtain ⟨base', hr', hbase⟩ := h.revise hr
  refine ⟨base', more, rest, hr', ?_, hbase.trans hheld⟩
  rw [← hbase.rest, hheld.split]

/-- A stop within a scope, in a production within another one. -/
theorem Held.dropped_within {declares : Prop} {after : State}
    (h : reading.Held levels base read ahead roots braces state)
    (hd : ∃ state', Revised declares state state' ∧ reading.Dropped state' after) :
    ∃ base', Revised declares base base' ∧ reading.Dropped base' after := by
  obtain ⟨state', hr, hd⟩ := hd
  obtain ⟨base', hr', h'⟩ := h.revise hr
  exact ⟨base', hr', h'.dropped hd⟩

/-- A node that is yielded is given. -/
theorem Yields.gives {declares : Prop} {slot : Slot} {node : Placed}
    (h : reading.Yields declares slot levels base node state) :
    reading.Gives declares levels base [node] state := by
  obtain ⟨base', read, ahead, hr, -, hheld, -⟩ := h
  exact ⟨base', read, ahead, hr, hheld⟩

/-- It is given by itself, in its slot. -/
theorem Yields.single {declares : Prop} {slot : Slot} {node : Placed}
    (h : reading.Yields declares slot levels base node state) :
    reading.Gives declares levels base [node] state ∧ slot.accepts node.kind := by
  refine ⟨h.gives, ?_⟩
  obtain ⟨-, -, -, -, -, -, hslot, -⟩ := h
  exact hslot

/-- A production that yields a node reads a token. -/
theorem Yields.length_rest_lt {declares : Prop} {slot : Slot} {node : Placed}
    (h : reading.Yields declares slot levels base node state) :
    state.rest.length < base.rest.length := by
  obtain ⟨base', read, ahead, hr, hne, hheld, -⟩ := h
  have hrest : base'.rest = base.rest := by rw [hr.state]
  have := List.length_pos_iff.2 hne
  rw [hheld.rest, ← hrest, hheld.split, List.length_append]
  omega

/-- One item more. -/
theorem YieldsAll.snoc {declares : Prop} {slot : Slot} {items : List Placed} {item : Placed}
    {after : State} (h : reading.YieldsAll declares slot levels base items state)
    (h' : reading.Yields declares slot levels state item after) :
    reading.YieldsAll declares slot levels base (items ++ [item]) after := by
  obtain ⟨⟨base', read, ahead, hr, hheld⟩, hitems⟩ := h
  obtain ⟨base'', more, rest, hr', -, hheld'⟩ := hheld.follow h'.gives
  obtain ⟨-, -, -, -, -, -, hslot, -⟩ := h'
  refine ⟨⟨base'', _, _, hr.trans hr', hheld'⟩, fun node hn => ?_⟩
  rcases List.mem_append.1 hn with hn | hn
  · exact hitems node hn
  · exact List.mem_singleton.1 hn ▸ hslot

/-- Behind a list the state is ready. -/
theorem YieldsAll.ready {declares : Prop} {slot : Slot} {items : List Placed}
    (h : reading.YieldsAll declares slot levels base items state) :
    reading.Ready levels state := by
  obtain ⟨⟨base', read, ahead, hr, hheld⟩, -⟩ := h
  exact hheld.ready

/-- A stop after some items. -/
theorem YieldsAll.dropped {declares : Prop} {slot : Slot} {items : List Placed} {after : State}
    (h : reading.YieldsAll declares slot levels base items state)
    (h' : reading.Dropped state after) :
    ∃ base', Revised declares base base' ∧ reading.Dropped base' after := by
  obtain ⟨⟨base', read, ahead, hr, hheld⟩, -⟩ := h
  exact ⟨base', hr, hheld.dropped h'⟩

/-- An empty list is yielded by reading nothing. -/
theorem YieldsAll.nil {declares : Prop} {slot : Slot} (h : reading.Ready levels base) :
    reading.YieldsAll declares slot levels base [] base :=
  ⟨⟨base, _, _, .refl _, .refl h⟩, fun _ hn => nomatch hn⟩

/-- A list with commas yields what its items do. -/
theorem separated_runs {declares : Prop} {slot : Slot} {close : Symbol} {item : Parser Placed}
    (h : reading.Ready levels base)
    (hitem : ∀ state, reading.Ready levels state → reading.Runs item state
      (reading.Yields declares slot levels state) (reading.Dropped state)) :
    reading.Runs (separated close item) base
      (reading.YieldsAll declares slot levels base)
      fun after => ∃ base', Revised declares base base' ∧ reading.Dropped base' after := by
  refine Runs.iterate (reading.YieldsAll declares slot levels base) (fun items state hs => ?_)
    (YieldsAll.nil h)
  obtain ⟨⟨base', read, ahead, hr, hheld⟩, hitems⟩ := id hs
  refine hheld.sees (fun _ _ _ _ => hs) ?_
  refine Runs.bind ((hitem state hs.ready).conseq (fun _ _ hv => hv) fun _ => hs.dropped)
    fun node after hnode => ?_
  have hafter := hs.snoc hnode
  have hlt := hnode.length_rest_lt
  obtain ⟨⟨base'', read', ahead', hr', hheld'⟩, hitems'⟩ := id hafter
  refine hheld'.accept rfl (fun token rest last hsplit _ hlast => ?_) ?_
  · refine ⟨⟨⟨base'', _, _, hr', hlast⟩, hitems'⟩, ?_⟩
    rw [hheld'.rest, hsplit, List.length_cons] at hlt
    rw [hlast.rest]
    omega
  · exact hafter

/-- Items that declare nothing. -/
theorem separated_runs_fixed {slot : Slot} {close : Symbol} {item : Parser Placed}
    (h : reading.Ready levels base)
    (hitem : ∀ state, reading.Ready levels state → reading.Runs item state
      (reading.Yields False slot levels state) (reading.Dropped state)) :
    reading.Runs (separated close item) base (reading.YieldsAll False slot levels base)
      (reading.Dropped base) := by
  refine (separated_runs h hitem).conseq (fun _ _ hv => hv) ?_
  rintro after ⟨base', hr, hd⟩
  obtain rfl := hr.fixed.resolve_left id
  exact hd

/-- A row with separators yields what its items do. -/
theorem joined_runs {slot : Slot} {separator : Symbol} {item : Parser Placed}
    (h : reading.Ready levels base) (hb : isBrace separator = false)
    (hitem : ∀ state, reading.Ready levels state → reading.Runs item state
      (reading.Yields False slot levels state) (reading.Dropped state)) :
    reading.Runs (joined separator item) base (reading.YieldsAll False slot levels base)
      (reading.Dropped base) := by
  refine Runs.bind (hitem base h) fun first after hfirst => ?_
  refine Runs.iterate (reading.YieldsAll False slot levels base) (fun items state hs => ?_)
    ((YieldsAll.nil h).snoc hfirst)
  obtain ⟨⟨base', read, ahead, hr, hheld⟩, hitems⟩ := id hs
  obtain rfl := hr.fixed.resolve_left id
  refine hheld.accept hb (fun token rest middle hsplit _ hmiddle => ?_) hs
  have hm : reading.YieldsAll False slot levels base' items middle :=
    ⟨⟨base', _, _, .refl _, hmiddle⟩, hitems⟩
  refine Runs.bind ((hitem middle hmiddle.ready).conseq (fun _ _ hv => hv)
    fun _ => hmiddle.dropped) fun node last hnode => ⟨hm.snoc hnode, ?_⟩
  have hlt := hnode.length_rest_lt
  rw [hmiddle.rest] at hlt
  rw [hheld.rest, hsplit, List.length_cons]
  omega

/-- A node behind a token that may be there. -/
theorem optional_runs {kind : TokenKind} {slot : Slot} {item : Parser Placed}
    (h : reading.Ready levels base) (hb : isBrace kind = false)
    (hitem : ∀ state, reading.Ready levels state → reading.Runs item state
      (reading.Yields False slot levels state) (reading.Dropped state)) :
    reading.Runs (accept kind >>= fun found => if found = true then some <$> item else pure none)
      base (fun node => reading.YieldsAll False slot levels base node.toList)
      (reading.Dropped base) := by
  refine (Held.refl h).accept hb (fun token rest after _ _ hafter => Runs.map ?_) (YieldsAll.nil h)
  refine ((hitem after hafter.ready).conseq (fun _ _ hv => hv) fun _ => hafter.dropped).conseq
    (fun node last hnode => ?_) fun _ hs => hs
  have hnone : reading.YieldsAll False slot levels base [] after :=
    ⟨⟨base, _, _, .refl _, hafter⟩, fun _ hn => nomatch hn⟩
  exact hnone.snoc hnode

end

end Reading

end OpenQasm.Grammar
