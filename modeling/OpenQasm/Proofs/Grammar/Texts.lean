import OpenQasm.Proofs.Diagnostic.Buffer
import OpenQasm.Proofs.Grammar.Readers
import OpenQasm.Proofs.Token.Lines

/-!
# Readings of whole texts

A program goes through the statements of a text and passes over closing braces that belong to no
block. Statements never stop at the top level, so a program is always read to the end of the text.
-/

namespace OpenQasm

namespace Grammar

/-- The state in which the parse of a text starts. -/
def startState (source : SourceId) (text : List Char) (options : ParseOptions) : State where
  rest := (tokenize source text).1.filter (!·.kind.isTrivia)
  builder := { comments := ((tokenize source text).1.filter (·.kind.isTrivia)).map Token.span }
  version := options.defaultVersion

/-- What a program takes off the text ahead at once: a closing brace that belongs to no block, or
the tokens of a statement or of an error in its place. -/
inductive Portion where
  | stray (token : Token)
  | item (node : Placed) (read : List Token)

def Portion.tokens : Portion → List Token
  | stray token => [token]
  | item _ read => read

def Portion.stray? : Portion → Option Token
  | stray token => some token
  | item _ _ => none

def Portion.item? : Portion → Option Placed
  | stray _ => none
  | item node _ => some node

/-- A stray is a closing brace, and an item spans the tokens that were read for it. -/
def Portion.Fits (source : SourceId) : Portion → Prop
  | stray token => token.kind = Symbol.rightBrace
  | item node read =>
    ∃ first ∈ read.head?, node.span = ⟨source, first.span.start, endAfter 0 read⟩

/-- How a program takes a portion, if its statements are read by `item`. -/
inductive Takes (item : Parser Placed) (context : Context) (state : State) : Portion → State → Prop
  | stray {token : Token} {rest : List Token} {reported : State} :
      state.rest = token :: rest → token.kind = Symbol.rightBrace →
      reportSyntax "unexpected `\x7d`" context state = .ok () reported →
      Takes item context state (.stray token) (State.pass 1 reported)
  | item {token : Token} {rest : List Token} {node : Placed} {after : State} :
      state.rest = token :: rest → token.kind ≠ Symbol.rightBrace →
      item context state = .ok node after →
      Takes item context state (.item node (Reading.readBy state after)) after

/-- No token that a parse reads takes several lines, but for calibration bodies and for an error at
the end. -/
theorem startState_line (source : SourceId) (text : List Char) (options : ParseOptions)
    (front : List Token) (token : Token) (back : List Token)
    (h : (startState source text options).rest = front ++ token :: back)
    (hm : '\n' ∈ token.text) : token.kind = .calibrationBody ∨ token.kind = .error ∧ back = [] := by
  obtain ⟨before, behind, htokens, -, hbehind⟩ := List.filter_eq_append_iff.1 h
  obtain ⟨trivia, after, hsplit, -, hread, rfl⟩ := List.filter_eq_cons_iff.1 hbehind
  have htext : (tokenize source text).1 = (before ++ trivia) ++ token :: after := by
    rw [htokens, hsplit, List.append_assoc]
  rcases tokenize_line htext hm with hkind | hkind | ⟨hkind, rfl⟩
  · rw [hkind] at hread
    cases hread
  · exact .inl hkind
  · exact .inr ⟨hkind, rfl⟩

namespace Reading

/-- The reading of a text. It crashes only where the machine numbers do not suffice. -/
def ofText (source : SourceId) (text : List Char) (options : ParseOptions) : Reading where
  context := ⟨source, text, options⟩
  tokens := (startState source text options).rest
  row := (tokenize_inRow source text).sublist (List.filter_sublist.map _)
  halts := Overflows ⟨source, text, options⟩ (startState source text options).rest
  halts_overflow _ h := h
  fair := False
  signatures := False.elim
  lines := startState_line source text options

/-- Before the first token the parser is ready. -/
theorem ready_startState (source : SourceId) (text : List Char) (options : ParseOptions) :
    (ofText source text options).Ready (options.maxDepth + 1) (startState source text options) where
  rest := rfl
  position := Nat.zero_le _
  row := (ofText source text options).row
  previousEnd := Nat.zero_le _
  sized := rfl
  unwinding := rfl
  resync := fun _ h => nomatch h
  reports := fun _ h => nomatch h
  depth := Nat.zero_le _
  levels := Nat.zero_add _

section
variable {reading : Reading} {levels : Nat} {start state after : State} {reader : Reader}
  {item : Parser Placed} {items : List Placed} {token : Token} {rest : List Token}

/-- The same reading with no regard to braces. -/
def unfair (reading : Reading) : Reading := { reading with fair := False, signatures := False.elim }

/-- Between the statements of a program. -/
structure Listed (reading : Reading) (levels : Nat) (start : State) (items : List Placed)
    (state : State) : Prop where
  ready : reading.Ready levels state
  openBlocks : state.openBlocks = 0
  fits : ∀ item ∈ items, Slot.statement.accepts item.kind
  grown : Grown reading.context.source start.builder items state.builder
  row : Span.InRow reading.context.source 0 state.previousEnd (items.map Placed.span)

/-- No items are listed at first. -/
theorem Listed.nil (h : reading.Ready levels start) (hb : start.openBlocks = 0) :
    reading.Listed levels start [] start where
  ready := h
  openBlocks := hb
  fits := fun _ hm => nomatch hm
  grown := .refl _ _
  row := trivial

/-- A state that is ready is so with no regard to braces. -/
theorem Ready.unfair (h : reading.Ready levels state) : reading.unfair.Ready levels state :=
  { h with }

/-- What runs with no regard to braces runs. -/
theorem Runs.unfair {α : Type} {parser : Parser α} {post : α → State → Prop}
    {stop : State → Prop} (h : reading.unfair.Runs parser state post stop) :
    reading.Runs parser state post stop := h

/-- What is held after the statements before it. -/
theorem Listed.follow {read ahead : List Token} {roots : List Placed} {braces : Nat}
    (h : reading.Listed levels start items state)
    (h' : reading.unfair.Held levels state read ahead roots braces after)
    (hfits : ∀ root ∈ roots, Slot.statement.accepts root.kind) :
    reading.Listed levels start (items ++ roots) after where
  ready := { h'.ready with }
  openBlocks := h'.openBlocks.trans h.openBlocks
  fits := fun item hm => (List.mem_append.1 hm).elim (h.fits item) (hfits item)
  grown := h.grown.trans h'.grown
  row := by
    rw [List.map_append]
    exact h.row.follow h'.row (Nat.zero_le _) h'.start.le_nextStart h'.previousEnd_le.1

/-- One statement more. -/
theorem Listed.snoc {node : Placed} (h : reading.Listed levels start items state)
    (hnode : reading.Yields True .statement levels state node after) :
    reading.Listed levels start (items ++ [node]) after := by
  obtain ⟨state', read, ahead, hr, -, hheld, hslot, -⟩ := hnode
  have h' : reading.Listed levels start items state' := by
    rw [hr.state]
    exact { h with ready := { h.ready with } }
  have hheld' : reading.unfair.Held levels state' read ahead [node] 0 after :=
    { hheld with start := hheld.start.unfair, braces := fun hf => hf.elim }
  exact h'.follow hheld' fun root hm => List.mem_singleton.1 hm ▸ hslot

/-- A brace without a block is reported, or not, and nothing else. -/
theorem stray_runs (hs : reading.Listed levels start items state)
    (hr : state.rest = token :: rest) :
    reading.unfair.Runs (reportSyntax "unexpected `\x7d`") state
      (fun _ after => reading.unfair.Held levels state [] (token :: rest) [] 0 after)
      fun _ => False := by
  have h0 := Held.refl hs.ready.unfair
  rw [hr] at h0
  have hreport : reading.unfair.Runs (reportSyntax "unexpected `\x7d`" >>= pure) state
      (fun _ after => reading.unfair.Held levels state [] (token :: rest) [] 0 after)
      fun _ => False := h0.reportSyntax fun after h1 => Runs.pure h1
  rwa [bind_pure] at hreport

/-- What is taken is at the head of the tokens, and a statement more is listed, if it is one. -/
theorem Listed.takes {portion : Portion} (hs : reading.Listed levels start items state)
    (ht : Takes item reading.context state portion after)
    (hitem : ∀ token rest, state.rest = token :: rest → token.kind ≠ Symbol.rightBrace →
      reading.Runs item state (reading.Yields True .statement levels state)
        fun after => reading.Dropped state after ∧ 0 < state.openBlocks) :
    reading.Listed levels start (items ++ portion.item?.toList) after ∧
      state.rest = portion.tokens ++ after.rest ∧ portion.Fits reading.context.source := by
  cases ht with
  | @stray token rest reported hr hk hok =>
    have hheld := stray_runs hs hr
    unfold Runs at hheld
    rw [show reading.unfair.context = reading.context from rfl, hok] at hheld
    have hpassed : reading.unfair.Held levels state ([] ++ [token]) rest [] 0
        (State.pass 1 reported) := hheld.pass rfl fun hf => hf.elim
    refine ⟨hs.follow hpassed (fun _ hm => by cases hm), ?_, hk⟩
    rw [hpassed.rest, hr]
    rfl
  | @item token rest node after hr hk hok =>
    have hnode := hitem token rest hr hk
    unfold Runs at hnode
    rw [hok] at hnode
    refine ⟨hs.snoc hnode, ?_⟩
    obtain ⟨state', read, ahead, hrev, hne, hheld, -, hspan⟩ := hnode
    have hsplit : state.rest = read ++ after.rest := by
      rw [hheld.rest, ← hheld.split, hrev.state]
    have hposition : after.position = state.position + read.length := by
      rw [hheld.position, hrev.state]
    have hread : readBy state after = read := readBy_eq hsplit hposition
    obtain ⟨first, more, rfl⟩ := List.exists_cons_of_ne_nil hne
    refine ⟨?_, first, ?_, ?_⟩
    · rw [Portion.tokens, hread, hsplit]
    · rw [hread]
      rfl
    · rw [hspan, hsplit, hread, hheld.previousEnd]
      rfl

/-- Each round of a program takes a portion, and the last one comes at the end of the text. -/
theorem programRound_runs (hs : reading.Listed levels start items state)
    (hitem : ∀ token rest, state.rest = token :: rest → token.kind ≠ Symbol.rightBrace →
      reading.Runs item state (reading.Yields True .statement levels state)
        fun after => reading.Dropped state after ∧ 0 < state.openBlocks) :
    reading.Runs (programRound item items) state
      (fun turn after =>
        match turn with
        | .again items' => ∃ portion, Takes item reading.context state portion after ∧
            items' = items ++ portion.item?.toList ∧ reading.Listed levels start items' after ∧
            after.rest.length < state.rest.length
        | .done result => state.rest = [] ∧ after = state ∧ result = items)
      fun _ => False := by
  refine (Held.refl hs.ready).peek ?_
  split
  · next hk => exact ⟨by simpa using hk, rfl, rfl⟩
  · next hk =>
    obtain ⟨token, rest, hr, hkind⟩ := exists_of_peek hk
    refine Runs.unfair (Runs.bind (stray_runs hs hr).eq fun _ after hreport => Runs.modify ?_)
    have htakes : Takes item reading.context state (.stray token) (State.pass 1 after) :=
      .stray hr hkind hreport.1
    obtain ⟨hlisted, hsplit, -⟩ := hs.takes htakes hitem
    refine ⟨.stray token, htakes, (List.append_nil _).symm, ?_, ?_⟩
    · rwa [show (Portion.stray token).item?.toList = [] from rfl, List.append_nil] at hlisted
    · rw [hsplit]
      exact Nat.lt_succ_self _
  · next kind hk hnext =>
    obtain ⟨token, rest, hr, rfl⟩ := exists_of_peek hnext
    have hne : token.kind ≠ Symbol.rightBrace := fun heq => hk (by rw [heq])
    refine Runs.bind (Runs.attempt (p := fun node after => ∃ item', node = some item' ∧
      item reading.context state = .ok item' after ∧
      reading.Yields True .statement levels state item' after) ?_) ?_
    · refine (hitem token rest hr hne).eq.conseq (fun node _ hv => ⟨node, rfl, hv⟩)
        fun after hd => ?_
      have := hs.openBlocks
      omega
    · rintro _ after ⟨node, rfl, hok, hnode⟩
      have htakes : Takes item reading.context state (.item node (readBy state after)) after :=
        .item hr hne hok
      exact ⟨_, htakes, rfl, (hs.takes htakes hitem).1, hnode.length_rest_lt⟩

/-- The items of a program run if each does. -/
theorem programItemsWith_runs (h : reading.Ready levels start) (hb : start.openBlocks = 0)
    (hitem : ∀ state token rest, reading.Ready levels state → state.rest = token :: rest →
      token.kind ≠ Symbol.rightBrace →
      reading.Runs item state (reading.Yields True .statement levels state)
        fun after => reading.Dropped state after ∧ 0 < state.openBlocks) :
    reading.Runs (programItemsWith item) start (reading.Listed levels start) fun _ => False := by
  refine Runs.iterate (reading.Listed levels start) (fun items state hs => ?_) (Listed.nil h hb)
  refine (programRound_runs hs fun token rest => hitem state token rest hs.ready).conseq
    (fun turn after hturn => ?_) fun _ hf => hf
  cases turn with
  | again items' =>
    obtain ⟨portion, -, -, hlisted, hlt⟩ := hturn
    exact ⟨hlisted, hlt⟩
  | done result =>
    obtain ⟨-, rfl, rfl⟩ := hturn
    exact hs

/-- At the end of the text: a forest of statements with a program over it. -/
def Completed (reading : Reading) (start : State) (root : Placed) (state : State) : Prop :=
  ∃ items nodes parents,
    Forest reading.context.source start.builder.size nodes parents items ∧
    Span.InRow reading.context.source 0 reading.limit (items.map Placed.span) ∧
    root = ⟨⟨start.builder.size + nodes.length⟩, .program (items.map Placed.id),
      ⟨reading.context.source, 0, reading.limit⟩⟩ ∧
    state.builder.nodes = start.builder.nodes ++ (nodes ++ [Node.mk root.kind root.span]).toArray ∧
    (∀ diagnostic ∈ state.diagnostics.items, diagnostic.code.isOfText) ∧
    ∀ place ∈ (NodeKind.program items).slots, place.1.accepts place.2.kind

/-- A program is read to the end, whatever reads its statements, or the parse crashes. -/
theorem programWith_runs (hreader : reading.Reads reader)
    (h : reading.Ready (reading.context.options.maxDepth + 1) start) (hb : start.openBlocks = 0) :
    reading.Runs (programWith reader) start (reading.Completed start) fun _ => False := by
  refine Runs.read (Runs.bind (programItemsWith_runs h hb
    (hreader _ (levelWith_spec hreader))) fun items state hs => ?_)
  obtain ⟨nodes, parents, hforest, hbuilder⟩ := hs.grown
  have hchildren := NodeKind.children_program items
  have hfit : ∀ place ∈ (NodeKind.program items).slots, place.1.accepts place.2.kind :=
    List.all_eq_true.1 (by simpa [NodeKind.slots] using hs.fits)
  rw [← hchildren] at hforest
  have hpush := hforest.push h.sized ⟨reading.context.source, 0, reading.limit⟩ hfit
  refine Runs.get ?_
  dsimp only
  rw [hbuilder]
  unfold limit at hpush
  rw [hpush]
  refine ⟨items, nodes, parents, hchildren ▸ hforest, ?_, rfl, rfl, hs.ready.reports, hfit⟩
  exact hs.row.mono (Nat.le_refl _) hs.ready.previousEnd

/-- The reader of statements reads them. -/
theorem plainReader_reads (hf : ¬reading.fair) : reading.Reads plainReader :=
  fun _ hi _ _ _ h hr hk => statementOrError_runs hi h hr hk fun hf' => absurd hf' hf

end

end Reading

/-! ## Parses -/

/-- A parse is the program read from the start. -/
theorem parse_eq (source : SourceId) (text : List Char) (options : ParseOptions) :
    parse source text options =
      match program ⟨source, text, options⟩ (startState source text options) with
      | .ok root state =>
        match state.builder.finish root.id with
        | .ok tree =>
          let reported : Diagnostics := ⟨(tokenize source text).2 ++ state.diagnostics.items⟩
          .ok { tree, diagnostics := reported.sorted }
        | .error fault => .error (.fault fault)
      | .error (.crash crash) _ => .error crash
      | .error .recovered _ => .error .stalled := rfl

/-- The parse of a text ends where the machine numbers do not suffice. -/
def Crashes (source : SourceId) (text : List Char) (options : ParseOptions) : Prop :=
  ∃ failure, parse source text options = .error failure ∧
    Overflows ⟨source, text, options⟩ (startState source text options).rest failure

/-- A parse that comes to a tree does not crash. -/
theorem not_crashes {source : SourceId} {text : List Char} {options : ParseOptions}
    (h : (parse source text options).toBool = true) : ¬Crashes source text options := by
  rintro ⟨failure, herror, -⟩
  rw [herror] at h
  cases h

/-- Where the machine numbers do not suffice for a parse, they do not for its program. -/
theorem exists_of_parse_error {source : SourceId} {text : List Char} {options : ParseOptions}
    {failure : Crash} (h : parse source text options = .error failure)
    (ho : Overflows ⟨source, text, options⟩ (startState source text options).rest failure) :
    ∃ state, program ⟨source, text, options⟩ (startState source text options) =
      .error (.crash failure) state := by
  rw [parse_eq] at h
  split at h
  · next root state hprogram =>
    split at h
    · cases h
    · cases h
      cases ho
  · next crash state hprogram =>
    cases h
    exact ⟨state, hprogram⟩
  · cases h
    cases ho

/-- Where the program crashes the parse fails so. -/
theorem parse_of_crash {source : SourceId} {text : List Char} {options : ParseOptions}
    {failure : Crash} {state : State}
    (h : program ⟨source, text, options⟩ (startState source text options) =
      .error (.crash failure) state) : parse source text options = .error failure := by
  rw [parse_eq, h]

/-- Parses whose programs come to the same node with the same nodes pushed yield the same tree. -/
theorem parse_of_program {source : SourceId} {text : List Char} {options options' : ParseOptions}
    {root : Placed} {state state' : State} {output : ParseOutput}
    (h : program ⟨source, text, options⟩ (startState source text options) = .ok root state)
    (h' : program ⟨source, text, options'⟩ (startState source text options') = .ok root state')
    (hb : state'.builder = state.builder) (hp : parse source text options = .ok output) :
    output.diagnostics = Diagnostics.sorted ⟨(tokenize source text).2 ++ state.diagnostics.items⟩ ∧
      parse source text options' = .ok
        { tree := output.tree
          diagnostics :=
            Diagnostics.sorted ⟨(tokenize source text).2 ++ state'.diagnostics.items⟩ } := by
  rw [parse_eq, h] at hp
  rw [parse_eq, h']
  dsimp only at hp ⊢
  rw [hb]
  cases hfinish : state.builder.finish root.id with
  | error fault =>
    rw [hfinish] at hp
    cases hp
  | ok tree =>
    rw [hfinish] at hp
    obtain rfl := Except.ok.inj hp
    exact ⟨rfl, rfl⟩

/-- A parse yields a tree over a forest of statements, and its reports are about the text, or it
crashes where the machine numbers do not suffice. -/
theorem parse_completes (source : SourceId) (text : List Char) (options : ParseOptions) :
    (∃ root state output, (Reading.ofText source text options).Completed
        (startState source text options) root state ∧
      parse source text options = .ok output ∧ output.tree.nodes = state.builder.nodes ∧
      output.tree.root = root.id ∧
      ∀ diagnostic ∈ output.diagnostics, diagnostic.code.isOfText) ∨
    Crashes source text options := by
  have hruns := Reading.programWith_runs
    (show (Reading.ofText source text options).Reads plainReader from Reading.plainReader_reads id)
    (Reading.ready_startState source text options) rfl
  rw [programWith_plain] at hruns
  unfold Reading.Runs at hruns
  rw [show (Reading.ofText source text options).context = ⟨source, text, options⟩ from rfl] at hruns
  rw [Crashes, parse_eq]
  cases hresult : program ⟨source, text, options⟩ (startState source text options) with
  | ok root state =>
    rw [hresult] at hruns
    have ⟨items, nodes, _, _, _, hroot, hnodes, hreports, _⟩ := hruns
    have hnode : state.builder.node? root.id = some ⟨root.kind, root.span⟩ := by
      rw [Builder.node?, hnodes, hroot]
      simp [Builder.size]
    have hkind : root.kind = .program (items.map Placed.id) := by rw [hroot]
    have hfinish : state.builder.finish root.id = .ok
        { nodes := state.builder.nodes, root := root.id, comments := state.builder.comments } := by
      rw [Builder.finish, hnode, hkind]
    dsimp only
    rw [hfinish]
    refine .inl ⟨root, state, _, hruns, rfl, rfl, rfl, fun diagnostic hd => ?_⟩
    rcases List.mem_append.1 (Diagnostics.mem_of_mem_sorted hd) with hd | hd
    · rw [tokenize_reports source text diagnostic hd]
      rfl
    · exact hreports diagnostic hd
  | error failure state =>
    rw [hresult] at hruns
    cases failure with
    | recovered => exact hruns.elim
    | crash failure => exact .inr ⟨failure, rfl, hruns⟩

/-- The nodes of a parsed tree are a forest of statements and the program over them, and its reports
are about the text. -/
theorem parse_forest (source : SourceId) (text : List Char) (options : ParseOptions) :
    (∃ output items nodes parents, parse source text options = .ok output ∧
      Forest source 0 nodes parents items ∧
      (∀ place ∈ (NodeKind.program items).slots, place.1.accepts place.2.kind) ∧
      output.tree.nodes.toList = nodes ++
        [⟨.program (items.map Placed.id), source, 0, min (Text.width text) maxOffset⟩] ∧
      output.tree.root = ⟨nodes.length⟩ ∧
      ∀ diagnostic ∈ output.diagnostics, diagnostic.code.isOfText) ∨
    Crashes source text options := by
  refine (parse_completes source text options).imp_left ?_
  rintro ⟨root, state, output, ⟨items, nodes, parents, hforest, -, rfl, hnodes, -, hfit⟩, hparse,
    htree, hid, hreports⟩
  refine ⟨output, items, nodes, parents, hparse, hforest, hfit, ?_, ?_, hreports⟩
  · rw [htree, hnodes]
    simp [startState, Reading.limit, Reading.ofText]
  · rw [hid]
    simp [startState, Builder.size]

end Grammar

end OpenQasm
