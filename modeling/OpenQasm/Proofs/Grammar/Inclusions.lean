import OpenQasm.Proofs.Grammar.Outcomes
import OpenQasm.Proofs.Grammar.Portions
import OpenQasm.Proofs.Grammar.Staying

/-!
# Includes within other statements

An include is read anywhere and belongs to the top level. Within a block it is reported, and so are
all includes of a block when it ends. The one way down that no block is open on is that through the
bodies without braces of conditions and loops: an include at its end is not reported.
-/

namespace OpenQasm

/-- The statements that a condition or a loop governs. -/
def NodeKind.bodies {ι : Type} : NodeKind ι → List ι
  | ifStmt _ thenBranch elseBranch => thenBranch :: elseBranch.toList
  | forStmt _ _ _ body => [body]
  | whileStmt _ body => [body]
  | _ => []

/-- A statement below another one or at its place, with only conditions and loops in between. -/
inductive Governs (nodes : Array Node) : NodeId → NodeId → Prop
  | refl (id : NodeId) : Governs nodes id id
  | body {id inside below : NodeId} {node : Node} : nodes[id.index]? = some node →
      inside ∈ node.kind.bodies → Governs nodes inside below → Governs nodes id below

/-- The report of an include within a block. -/
def Misplaced (span : Span) (diagnostic : Diagnostic) : Prop :=
  diagnostic.code = .syntaxError ∧
    diagnostic.message = "`include` is only allowed at the top level" ∧
    diagnostic.span.source = span.source ∧ diagnostic.span.start = span.start

/-- The bodies of a control statement are mapped with its children. -/
theorem NodeKind.bodies_map {ι κ : Type} (f : ι → κ) (kind : NodeKind ι) :
    (kind.map f).bodies = kind.bodies.map f := by
  cases kind <;> simp [NodeKind.map, NodeKind.bodies]
  case ifStmt condition thenBranch elseBranch => cases elseBranch <;> rfl

/-- Nodes that are pushed later change nothing. -/
theorem Governs.append {nodes more : Array Node} {id below : NodeId} (h : Governs nodes id below) :
    Governs (nodes ++ more) id below := by
  induction h with
  | refl id => exact .refl id
  | body hn hm _ ih =>
    have hlt := (Array.getElem?_eq_some_iff.1 hn).1
    exact .body (by rw [Array.getElem?_append_left hlt, hn]) hm ih

namespace Grammar

/-! ## Includes that are not reported -/

/-- An include that has been pushed and not been reported. -/
def Silent (state : State) (index : Nat) : Prop :=
  ∃ path items span, state.builder.nodes[index]? = some ⟨.includeFile path items, span⟩ ∧
    ∀ diagnostic ∈ state.diagnostics.items, ¬Misplaced span diagnostic

/-- As many blocks are open as before, and all includes pushed in between are reported. -/
structure Disclosed (before after : State) : Prop where
  openBlocks : after.openBlocks = before.openBlocks
  rest : after.rest <:+ before.rest
  silent : ∀ index, Silent after index → Silent before index

/-- All includes pushed in between are reported, provided that a block is open if one is needed. -/
def Discloses (context : Context) (need : Prop) (before after : State) : Prop :=
  (need → 0 < before.openBlocks) → (∀ token ∈ before.rest, token.span.source = context.source) →
  Disclosed before after

/-- What is reported in two stretches is reported in both together. -/
theorem Disclosed.trans {before middle after : State} (h : Disclosed before middle)
    (h' : Disclosed middle after) : Disclosed before after where
  openBlocks := h'.openBlocks.trans h.openBlocks
  rest := h'.rest.trans h.rest
  silent index hs := h.silent index (h'.silent index hs)

/-- Passing over tokens does nothing else. -/
theorem pass_discloses (n : Nat) (state : State) : Disclosed state (State.pass n state) := by
  induction n generalizing state with
  | zero => exact ⟨rfl, List.suffix_refl _, fun _ hs => hs⟩
  | succ n ih =>
    rw [State.pass]
    split
    · exact ⟨rfl, List.suffix_refl _, fun _ hs => hs⟩
    · next token rest hr =>
      have hstep := ih { state with
        rest, position := state.position + 1, previousEnd := token.span.stop }
      exact ⟨hstep.openBlocks, hstep.rest.trans (hr ▸ List.suffix_cons token rest), hstep.silent⟩

/-- A node more that is no include hides none. -/
theorem silent_of_push {before after : State} {node : Node} {index : Nat}
    (hn : after.builder.nodes = before.builder.nodes.push node)
    (hk : ∀ path items, node.kind ≠ .includeFile path items)
    (hd : after.diagnostics = before.diagnostics) (h : Silent after index) :
    Silent before index := by
  obtain ⟨path, items, span, hnode, hsilent⟩ := h
  rw [hn, Array.getElem?_push] at hnode
  split at hnode
  · exact absurd (congrArg Node.kind (Option.some.inj hnode)) (hk path items)
  · exact ⟨path, items, span, hnode, hd ▸ hsilent⟩

/-- Reports hide no include. -/
theorem silent_of_reported {before after : State} {index : Nat}
    (hr : Reported before after) (hn : after.builder = before.builder) (h : Silent after index) :
    Silent before index := by
  obtain ⟨path, items, span, hnode, hsilent⟩ := h
  exact ⟨path, items, span, hn ▸ hnode, fun diagnostic hm => hsilent diagnostic (hr.mem hm)⟩

/-- A node that may be placed where includes may not is no include. -/
theorem map_ne_includeFile {has : Feature → Prop} (hno : ¬has .inclusion) {kind : NodeKind Placed}
    (h : kind = .error ∨ Placeable has kind) (path : String) (items : List NodeId) :
    kind.map Placed.id ≠ .includeFile path items := by
  rcases h with rfl | h
  · nofun
  · cases kind <;> first | exact absurd h hno | nofun

/-- What places no include discloses all of them. -/
theorem stable_discloses {has : Feature → Prop} (hno : ¬has .inclusion) (context : Context)
    (need : Prop) : Stable has (Discloses context need) where
  same hr ho hb hd := fun _ _ =>
    ⟨ho, hr ▸ List.suffix_refl _, fun _ ⟨path, items, span, hnode, hs⟩ =>
      ⟨path, items, span, hb ▸ hnode, hd ▸ hs⟩⟩
  trans h h' := fun hopen hsource =>
    have hfirst := h hopen hsource
    hfirst.trans (h' (fun hneed => hfirst.openBlocks ▸ hopen hneed) fun token hm =>
      hsource token (hfirst.rest.subset hm))
  pass n state := fun _ _ => pass_discloses n state
  push state _ := fun _ _ =>
    ⟨rfl, List.suffix_refl _, fun _ ⟨path, items, span, hnode, hs⟩ =>
      ⟨path, items, span, hnode, fun diagnostic hm => hs diagnostic (List.mem_append_left _ hm)⟩⟩
  place hk hpush := fun _ _ =>
    ⟨rfl, List.suffix_refl _, fun _ =>
      silent_of_push (Builder.nodes_of_push hpush) (map_ne_includeFile hno hk) rfl⟩
  literal state id value := fun _ _ =>
    ⟨rfl, List.suffix_refl _, fun index ⟨path, items, span, hnode, hs⟩ => by
      simp only [Builder.setKind, Array.getElem?_modify] at hnode
      split at hnode
      · obtain ⟨node, -, hnode⟩ := Option.map_eq_some_iff.1 hnode
        cases congrArg Node.kind hnode
      · exact ⟨path, items, span, hnode, hs⟩⟩
  truncate state mark := fun _ _ =>
    ⟨rfl, List.suffix_refl _, fun index ⟨path, items, span, hnode, hs⟩ => by
      simp only [Builder.truncate, Array.take_eq_extract, Array.getElem?_extract] at hnode
      split at hnode
      · rw [Nat.zero_add] at hnode
        exact ⟨path, items, span, hnode, hs⟩
      · cases hnode⟩
  openBlock h := fun _ hsource =>
    have hinside := h (fun _ => Nat.succ_pos _) hsource
    ⟨by simp [hinside.openBlocks], hinside.rest, hinside.silent⟩

/-- Where no include may be placed, all are reported. -/
theorem stable_plain (context : Context) (need : Prop) :
    Stable (· = .tracked) (Discloses context need) := stable_discloses nofun context need

section
variable {α : Type} {context : Context} {need need' : Prop} {parser : Parser α} {inner : Level}
  {state : State}

/-- What is reported under a weaker need is so under a stronger one. -/
theorem discloses_of_imp (hi : need' → need) (h : Stays context (Discloses context need') parser) :
    Stays context (Discloses context need) parser := fun state hopen =>
  h state fun hneed => hopen (hi hneed)

/-- What needs an open block may be read in one that is opened for it. -/
theorem blockOpen_discloses (h : Stays context (Discloses context need') parser) :
    Stays context (Discloses context need) (blockOpen parser) :=
  .around (fun _ _ hinside _ hsource =>
    have hin := hinside (fun _ => Nat.succ_pos _) hsource
    ⟨by simp [hin.openBlocks], hin.rest, hin.silent⟩) h

/-- A parser that needs no open block reports all includes it pushes. -/
theorem disclosed_of_ok {value : α} {after : State}
    (h : Stays context (Discloses context False) parser)
    (hsource : ∀ token ∈ state.rest, token.span.source = context.source)
    (hok : parser context state = .ok value after) : Disclosed state after := by
  have hdisclosed := h state False.elim hsource
  rwa [hok] at hdisclosed

/-! ## The include statement -/

/-- All includes pushed by a parser are reported, but for the node that it yields, if this one is
let pass. -/
def Leaves (passes : Prop) (before : State) : EStateM.Result Stop State Placed → Prop
  | .ok node after => after.openBlocks = before.openBlocks ∧ after.rest <:+ before.rest ∧
      ∀ index, Silent after index → Silent before index ∨ passes ∧ node.id = ⟨index⟩
  | .error _ after => Disclosed before after

/-- If the node that is yielded is not let pass, all includes are reported. -/
theorem Leaves.disclosed {passes : Prop} {result : EStateM.Result Stop State Placed}
    (h : Leaves passes state result) (hno : ¬passes) : Disclosed state (ending result) := by
  cases result with
  | ok node after =>
    obtain ⟨hopen, hrest, hsilent⟩ := h
    exact ⟨hopen, hrest, fun index hs => (hsilent index hs).resolve_right fun hp => hno hp.1⟩
  | error failure after => exact h

/-- A stretch before that reports all of them changes nothing. -/
theorem Leaves.after {passes : Prop} {middle : State} {result : EStateM.Result Stop State Placed}
    (h : Disclosed state middle) (h' : Leaves passes middle result) :
    Leaves passes state result := by
  cases result with
  | ok node after =>
    obtain ⟨hopen, hrest, hsilent⟩ := h'
    exact ⟨hopen.trans h.openBlocks, hrest.trans h.rest,
      fun index hs => (hsilent index hs).imp_left (h.silent index)⟩
  | error failure after => exact h.trans h'

/-- What goes on after a parser that places no include. -/
theorem Leaves.bind {passes : Prop} {next : α → Parser Placed}
    (hsource : ∀ token ∈ state.rest, token.span.source = context.source)
    (hp : Stays context (Discloses context False) parser)
    (hn : ∀ value middle, parser context state = .ok value middle → Disclosed state middle →
      Leaves passes middle (next value context middle)) :
    Leaves passes state ((parser >>= next) context state) := by
  have hfirst := hp state False.elim hsource
  cases hresult : parser context state with
  | ok value middle =>
    rw [hresult] at hfirst
    rw [bind_of_ok hresult]
    exact .after hfirst (hn value middle hresult hfirst)
  | error failure middle =>
    rw [hresult] at hfirst
    rw [bind_of_error hresult]
    exact hfirst

/-- A node that is placed is let pass, unless it is reported. -/
theorem placeFrom_leaves {passes : Prop} {start : Span} {kind : NodeKind Placed}
    (hd : ¬passes → ∃ diagnostic ∈ state.diagnostics.items,
      Misplaced ⟨context.source, start.start, start.start⟩ diagnostic) :
    Leaves passes state (placeFrom start kind context state) := by
  have heq : placeFrom start kind context state =
      place kind ⟨context.source, start.start, max state.previousEnd start.start⟩ context state :=
    rfl
  cases hplace : placeFrom start kind context state with
  | error failure after =>
    rw [heq] at hplace
    unfold place at hplace
    rw [get_bind] at hplace
    cases hpush : state.builder.push (kind.map Placed.id)
        ⟨context.source, start.start, max state.previousEnd start.start⟩ with
    | ok pushed =>
      simp only [hpush] at hplace
      cases hplace
    | error fault =>
      simp only [hpush] at hplace
      obtain ⟨-, rfl⟩ := EStateM.Result.error.inj hplace
      exact ⟨rfl, List.suffix_refl _, fun _ hs => hs⟩
  | ok node after =>
    obtain ⟨id, builder, hpush, rfl, rfl⟩ := exists_of_place_ok (heq ▸ hplace)
    refine ⟨rfl, List.suffix_refl _, fun index ⟨path, items, span, hnode, hsilent⟩ => ?_⟩
    simp only [Builder.nodes_of_push hpush, Array.getElem?_push] at hnode
    split at hnode
    · next hindex =>
      obtain ⟨-, rfl⟩ := Node.mk.inj (Option.some.inj hnode)
      refine .inr ⟨Classical.byContradiction fun hno => ?_, ?_⟩
      · obtain ⟨diagnostic, hm, hmisplaced⟩ := hd hno
        exact hsilent diagnostic hm hmisplaced
      · rw [Builder.id_of_push hpush, hindex]
    · exact .inl ⟨path, items, span, hnode, hsilent⟩

/-- What is composed without includes reports all of them. -/
theorem plain_discloses (hc : Composed (· = .tracked) fun _ => parser) :
    Stays context (Discloses context False) parser := hc.stays_alone (stable_plain context False)

/-- The include that begins at the given place has been reported, unless it is let pass. -/
def Told (passes : Prop) (source : SourceId) (start : Span) (state : State) : Prop :=
  ¬passes → ∃ diagnostic ∈ state.diagnostics.items,
    Misplaced ⟨source, start.start, start.start⟩ diagnostic

/-- A report that was made stays made. -/
theorem Told.after {passes : Prop} {source : SourceId} {start : Span} {middle : State} {value : α}
    (h : Told passes source start state) (hr : Reports parser)
    (hok : parser context state = .ok value middle) : Told passes source start middle := fun hno =>
  have ⟨diagnostic, hm, hmisplaced⟩ := h hno
  have hreported : Reported state middle := by
    have := hr context state
    rwa [hok] at this
  ⟨diagnostic, hreported.mem hm, hmisplaced⟩

/-- What is composed without includes reports only more. -/
theorem plain_reports (hc : Composed (· = .tracked) fun _ => parser) : Reports parser :=
  fun _ => hc.stays_alone (stable_reported _)

/-- What is read of an include after its keyword. -/
theorem includeTail_leaves {passes : Prop} {start : Span}
    (hsource : ∀ token ∈ state.rest, token.span.source = context.source)
    (hd : Told passes context.source start state) :
    Leaves passes state ((do
      let path ← stringText "file path"
      let _ ← expect Symbol.semicolon
      placeFrom start (.includeFile path [])) context state) := by
  refine .bind hsource (plain_discloses stringText_composed) fun path middle hpath h => ?_
  have hd := hd.after (plain_reports stringText_composed) hpath
  refine .bind (fun token hm => hsource token (h.rest.subset hm)) (plain_discloses .expect)
    fun _ last hexpect _ => ?_
  exact placeFrom_leaves (hd.after (plain_reports .expect) hexpect)

/-- An include leaves itself only, and only where no block is open. -/
theorem includeStatement_leaves
    (hsource : ∀ token ∈ state.rest, token.span.source = context.source) :
    Leaves (state.openBlocks = 0) state (includeStatement context state) := by
  refine .bind hsource (plain_discloses .expect) fun token m hexpect h1 => ?_
  have hsource1 : ∀ token ∈ m.rest, token.span.source = context.source :=
    fun token hm => hsource token (h1.rest.subset hm)
  obtain ⟨rest, hr, -, -⟩ := expect_ok_iff.1 hexpect
  have htoken := hsource token (hr ▸ List.mem_cons_self)
  rw [get_bind]
  split
  · have hreport : Stays context (Discloses context False)
        (report .syntaxError token.span "`include` is only allowed at the top level") :=
      .report (stable_plain context False)
    refine .bind hsource1 hreport fun _ m2 hok h2 => ?_
    obtain ⟨-, rfl⟩ := EStateM.Result.ok.inj hok
    refine includeTail_leaves hsource1 fun _ => ?_
    exact ⟨_, List.mem_append_right _ (List.mem_singleton_self _), rfl, rfl, htoken, rfl⟩
  · next hnone =>
    exact includeTail_leaves hsource1 fun hno => absurd (by have := h1.openBlocks; omega) hno

/-! ## Within blocks -/

/-- Where a block is open, a statement discloses all includes. -/
theorem statement_discloses
    (h : ∀ production, production ≠ .blockItems →
      Stays context (Discloses context True) (inner production))
    (hb : Stays context (Discloses context True) (inner .blockItems)) :
    Stays context (Discloses context True) (statement inner) := by
  obtain ⟨statementAt, heq, hc⟩ := exists_statementAt
  intro state hopen hsource
  by_cases hinclude : state.rest.head?.map Token.kind = some Keyword.kwInclude
  · obtain ⟨token, rest, hr, hk⟩ := exists_of_peek hinclude
    rw [statement_of_keyword hr hk]
    exact (includeStatement_leaves hsource).disclosed (Nat.ne_of_gt (hopen trivial))
  · have hstays : Stays context (Discloses context True) (statementAt state.rest.head? inner) :=
      (hc (· ≠ .inclusion) _ nofun (fun hk => absurd hk hinclude) (fun _ _ _ => nofun)
        fun _ _ _ => nofun).stays (stable_discloses nofun context True)
        (fun _ hr => h _ hr.ne_blockItems) (blockOpen_discloses hb)
    rw [heq, bind_of_ok (current_eq context state)]
    exact hstays state hopen hsource

/-- Statements disclose all includes where a block is open, and the other productions anywhere. -/
theorem level_discloses (levels : Nat) (production : Production) :
    Stays context (Discloses context (¬Readable (· = .tracked) production))
      (level levels production) := by
  induction levels generalizing production with
  | zero => exact .throw (stable_plain context _)
  | succ levels ih =>
    have hR := stable_plain context
    have hopen : ∀ production, Stays context (Discloses context True) (level levels production) :=
      fun production => discloses_of_imp (fun _ => trivial) (ih production)
    refine .nested (hR _) ?_
    by_cases hr : Readable (· = .tracked) production
    · have hc : Composed (· = .tracked) production.parse := parse_composed_of_readable hr rfl
      refine hc.stays (hR _) (fun other ho => ?_)
        (blockOpen_discloses (hopen .blockItems))
      exact discloses_of_imp (fun hno => absurd ho hno) (ih other)
    · have himp : True → ¬Readable (· = .tracked) production := fun _ => hr
      refine discloses_of_imp himp ?_
      have hstatement := statement_discloses (fun production _ => hopen production)
        (hopen .blockItems)
      cases production with
      | statement => exact hstatement
      | blockItems =>
        have hitem := statementOrError_stays (hR True) hstatement
        exact .inScope (hR True) (.iterate (hR True) (blockRound_stays (hR True) hitem) [])
      | _ => exact absurd trivial hr

end

/-! ## At the top level -/

/-- Of the includes pushed in between, those that are not reported stand where a statement governs
them, or at its place. -/
def Covered (before : State) (node : Placed) (after : State) : Prop :=
  ∀ index, Silent after index →
    Silent before index ∨ Governs after.builder.nodes node.id ⟨index⟩

namespace Reading

section
variable {α β : Type} {reading : Reading} {levels : Nat} {inner : Level} {base state after : State}
  {parser : Parser α} {next : α → Parser β} {bodies more : List NodeId}

/-- The tokens ahead are those of the text. -/
theorem Ready.located (h : reading.Ready levels state) :
    ∀ token ∈ state.rest, token.span.source = reading.context.source :=
  fun _ hm => (h.row.mem (List.mem_map_of_mem hm)).1

/-- Within a condition or a loop outside of blocks: the includes not reported so far stand where the
statements read for its bodies govern them. -/
structure Tracked (reading : Reading) (levels : Nat) (base : State) (bodies : List NodeId)
    (state : State) : Prop where
  ready : reading.Ready levels state
  position : 0 < state.position
  openBlocks : state.openBlocks = 0
  silent : ∀ index, Silent state index →
    Silent base index ∨ ∃ body ∈ bodies, Governs state.builder.nodes body ⟨index⟩

/-- One piece more, with the bodies that it yields. -/
theorem Tracked.follow {declares : Prop} {nodes : List Placed}
    (h : reading.Tracked levels base bodies state)
    (hg : reading.Gives declares levels state nodes after)
    (hs : ∀ index, Silent after index →
      Silent state index ∨ ∃ body ∈ more, Governs after.builder.nodes body ⟨index⟩) :
    reading.Tracked levels base (bodies ++ more) after := by
  have hopen := hg.counters.2
  obtain ⟨base', read, ahead, hr, hheld⟩ := hg
  have hgrown := hheld.grown
  rw [show base'.builder = state.builder by rw [hr.state]] at hgrown
  obtain ⟨pushed, parents, -, hbuilder⟩ := hgrown
  refine ⟨hheld.ready, ?_, hopen.trans h.openBlocks, fun index hsilent => ?_⟩
  · rw [hheld.position, hr.state]
    exact Nat.lt_of_lt_of_le h.position (Nat.le_add_right _ _)
  · rcases hs index hsilent with hs | ⟨body, hm, hgov⟩
    · refine (h.silent index hs).imp_right fun ⟨body, hm, hgov⟩ => ?_
      refine ⟨body, List.mem_append_left _ hm, ?_⟩
      rw [hbuilder]
      exact hgov.append
    · exact .inr ⟨body, List.mem_append_right _ hm, hgov⟩

/-- A piece without includes. -/
theorem Tracked.step {declares : Prop} {nodes : α → List Placed} {p : α → Prop}
    {post : β → State → Prop} {stop : State → Prop}
    (h : reading.Tracked levels base bodies state)
    (hp : reading.Runs parser state
      (fun value after => reading.Gives declares levels state (nodes value) after ∧ p value) stop)
    (hd : Stays reading.context (Discloses reading.context False) parser)
    (hn : ∀ value after, reading.Tracked levels base bodies after →
      reading.WhenOk (next value) after post) :
    reading.WhenOk (parser >>= next) state post := by
  refine hp.whenOk.bind fun value after hok hgives => hn value after ?_
  have hdisclosed := disclosed_of_ok hd h.ready.located hok
  have hfollow : reading.Tracked levels base (bodies ++ []) after :=
    h.follow hgives.1 fun index hs => .inl (hdisclosed.silent index hs)
  rwa [List.append_nil] at hfollow

/-- The scopes do not matter to what is tracked. -/
theorem Tracked.rescope (h : reading.Tracked levels base bodies state) (scopes : List Scope) :
    reading.Tracked levels base bodies { state with scopes } :=
  { h with ready := { h.ready with } }

/-- A token that is asked for gives no node. -/
theorem expect_gives {kind : TokenKind} (h : reading.Ready levels state)
    (hb : isBrace kind = false) :
    reading.Runs (expect kind) state
      (fun _ after => reading.Gives False levels state [] after ∧ True)
      (reading.Dropped state) := by
  rw [← bind_pure (expect kind)]
  exact (Held.refl h).expect hb fun token rest after _ _ h => ⟨⟨state, _, _, .refl _, h⟩, trivial⟩

/-- Nor does one that may stand there. -/
theorem accept_gives {kind : TokenKind} (h : reading.Ready levels state)
    (hb : isBrace kind = false) :
    reading.Runs (accept kind) state
      (fun _ after => reading.Gives False levels state [] after ∧ True)
      (reading.Dropped state) := by
  have h0 := Held.refl h
  refine h0.sees (fun token rest hr hk => ?_) ⟨⟨state, _, _, .refl _, h0⟩, trivial⟩
  rw [hr] at h0
  exact h0.advance (hk ▸ hb) fun after h => ⟨⟨state, _, _, .refl _, h⟩, trivial⟩

/-- Nor does a note about the version. -/
theorem requireVersion3_gives {span : Span} {feature : String} (h : reading.Ready levels state) :
    reading.Runs (requireVersion3 span feature) state
      (fun _ after => reading.Gives False levels state [] after ∧ True)
      (reading.Dropped state) := by
  rw [← bind_pure (requireVersion3 span feature)]
  exact (Held.refl h).requireVersion3 fun after h => ⟨⟨state, _, _, .refl _, h⟩, trivial⟩

/-- Nor does a name that is declared. -/
theorem declare_gives {name : Placed} (h : reading.Ready levels state) :
    reading.Runs (declare name) state
      (fun _ after => reading.Gives True levels state [] after ∧ True) (reading.Dropped state) := by
  rw [← bind_pure (declare name)]
  exact (Held.refl h).declare fun base' after hr h => ⟨⟨base', _, _, hr, h⟩, trivial⟩

/-- Within a statement that has read its keyword. -/
theorem tracked_of_expect {kind : TokenKind} {next : Token → Parser β} {post : β → State → Prop}
    (h : reading.Ready levels state) (ho : state.openBlocks = 0) (hb : isBrace kind = false)
    (hn : ∀ token after, reading.Tracked levels state [] after →
      reading.WhenOk (next token) after post) :
    reading.WhenOk (expect kind >>= next) state post := by
  refine (expect_gives h hb).whenOk.bind fun token after hok hgives => hn token after ?_
  have hdisclosed := disclosed_of_ok (plain_discloses .expect) h.located hok
  obtain ⟨rest, hr, -, rfl⟩ := expect_ok_iff.1 hok
  obtain ⟨_, read, ahead, -, hheld⟩ := hgives.1
  refine ⟨hheld.ready, ?_, ?_, fun index hs => .inl (hdisclosed.silent index hs)⟩
  · rw [State.pass, hr]
    exact Nat.succ_pos _
  · exact hdisclosed.openBlocks.trans ho

/-! ## Bodies -/

/-- The statements one level deeper leave only what they govern, where no block is open. -/
def CoversInner (reading : Reading) (levels : Nat) (inner : Level) : Prop :=
  ∀ state, reading.Ready levels state → state.openBlocks = 0 →
    reading.WhenOk (inner .statement) state fun node after => Covered state node after

/-- What the productions of the next level have to do for a statement to leave only what it
governs. -/
structure Covering (reading : Reading) (levels : Nat) (inner : Level) : Prop where
  spec : reading.Spec levels inner
  discloses : ∀ production,
    Stays reading.context (Discloses reading.context (¬Readable (· = .tracked) production))
      (inner production)
  reports : ∀ production, Reports (inner production)
  covers : reading.CoversInner levels inner

/-- What reads neither includes nor bodies reports all includes. -/
theorem Covering.stays_of_not {has : Feature → Prop} {parser : Level → Parser α}
    (hi : reading.Covering levels inner) (hinclusion : ¬has .inclusion) (hbare : ¬has .bareBody)
    (hc : Composed has parser) :
    Stays reading.context (Discloses reading.context False) (parser inner) := by
  refine hc.stays (stable_discloses hinclusion _ _) (fun production hr => ?_) ?_
  · have hreadable : Readable (· = .tracked) production := by
      cases production with
      | blockItems => exact hr
      | statement => exact absurd hr hbare
      | _ => trivial
    exact discloses_of_imp (fun hno => hno hreadable) (hi.discloses production)
  · exact blockOpen_discloses (discloses_of_imp (fun _ => trivial) (hi.discloses .blockItems))

/-- So does what keeps to blocks and expressions. -/
theorem Covering.stays {parser : Level → Parser α} (hi : reading.Covering levels inner)
    (hc : Composed (· = .tracked) parser) :
    Stays reading.context (Discloses reading.context False) (parser inner) :=
  hi.stays_of_not nofun nofun hc

/-- A block discloses its includes; a statement in its place governs those that it leaves. -/
theorem body_covers (hi : reading.Covering levels inner) (h : reading.Ready levels state)
    (ho : state.openBlocks = 0) :
    reading.WhenOk (body inner) state fun node after => Covered state node after := by
  have hsees : reading.WhenOk (sees Symbol.leftBrace) state fun _ after => after = state :=
    fun _ _ hok => (EStateM.Result.ok.inj hok).2.symm
  refine hsees.bind fun seen _ _ heq => ?_
  subst heq
  refine WhenOk.ite (fun _ node after hok index hs => .inl ?_) fun _ => WhenOk.around ?_
  · exact (disclosed_of_ok (hi.stays (block_composed rfl)) h.located hok).silent index hs
  · exact hi.covers (ownScope _) { h with } ho

/-- A body, within a condition or a loop. -/
theorem Tracked.body {next : Placed → Parser β} {post : β → State → Prop}
    (h : reading.Tracked levels base bodies state) (hi : reading.Covering levels inner)
    (hn : ∀ node after, reading.Tracked levels base (bodies ++ [node.id]) after →
      reading.WhenOk (next node) after post) :
    reading.WhenOk (body inner >>= next) state post := by
  have hruns := (body_runs hi.spec h.ready h.position).whenOk
  refine hruns.bind fun node after hok hgives => hn node after (h.follow hgives.1 ?_)
  intro index hs
  refine (body_covers hi h.ready h.openBlocks node after hok index hs).imp_right fun hgov => ?_
  exact ⟨node.id, List.mem_singleton_self _, hgov⟩

/-- The node of the condition or the loop, over its bodies. -/
theorem Tracked.ends {start : Span} {kind : NodeKind Placed}
    (h : reading.Tracked levels base bodies state)
    (hb : bodies = kind.bodies.map Placed.id) (hne : bodies ≠ []) :
    reading.WhenOk (placeFrom start kind) state fun node after => Covered base node after := by
  intro node after hok index hs
  have heq : placeFrom start kind reading.context state =
      place kind ⟨reading.context.source, start.start, max state.previousEnd start.start⟩
        reading.context state := rfl
  obtain ⟨id, builder, hpush, rfl, rfl⟩ := exists_of_place_ok (heq ▸ hok)
  let node : Node := ⟨kind.map Placed.id,
    ⟨reading.context.source, start.start, max state.previousEnd start.start⟩⟩
  let after : State := { state with builder }
  have hnodes : after.builder.nodes = state.builder.nodes.push node := Builder.nodes_of_push hpush
  have hkind : ∀ path items, node.kind ≠ .includeFile path items := by
    intro path items hk
    refine hne ?_
    rw [hb, ← NodeKind.bodies_map, show kind.map Placed.id = .includeFile path items from hk]
    rfl
  have hbefore : Silent state index := silent_of_push hnodes hkind rfl hs
  refine (h.silent index hbefore).imp_right ?_
  rintro ⟨body, hm, hgov⟩
  rw [hb, ← NodeKind.bodies_map] at hm
  have hnode : after.builder.nodes[id.index]? = some node := by
    rw [hnodes, Builder.id_of_push hpush]
    exact Array.getElem?_push_size
  have hbelow : Governs after.builder.nodes body ⟨index⟩ := by
    rw [hnodes, ← Array.append_singleton]
    exact hgov.append
  exact .body hnode hm hbelow

/-! ## Conditions and loops -/

/-- An if leaves only the includes that it governs. -/
theorem ifStatement_covers (hi : reading.Covering levels inner) (h : reading.Ready levels base)
    (ho : base.openBlocks = 0) :
    reading.WhenOk (ifStatement inner) base fun node after => Covered base node after := by
  refine tracked_of_expect h ho rfl fun token after h => ?_
  refine h.step (condition_runs hi.spec h.ready) (hi.stays condition_composed)
    fun condition after h => ?_
  refine h.body hi fun thenBranch after h => ?_
  refine h.step (accept_gives h.ready rfl) (plain_discloses .accept) fun found after h => ?_
  refine WhenOk.ite (fun _ => ?_) fun _ => ?_
  · rw [bind_map_left]
    exact h.body hi fun elseBranch after h => h.ends rfl (by simp)
  · exact h.ends rfl (by simp)

/-- So does a for loop. -/
theorem forStatement_covers (hi : reading.Covering levels inner) (h : reading.Ready levels base)
    (ho : base.openBlocks = 0) :
    reading.WhenOk (forStatement inner) base fun node after => Covered base node after := by
  refine tracked_of_expect h ho rfl fun token after h => ?_
  refine h.step (requireVersion3_gives h.ready) (plain_discloses (.requireVersion3 rfl))
    fun _ after h => ?_
  refine h.step (loopType_runs hi.spec h.ready) (hi.stays loopType_composed) fun type after h => ?_
  refine WhenOk.bind (p := fun value after =>
    reading.Tracked levels base [value.2.2.id] after) (WhenOk.around ?_)
    fun value after _ h => h.ends rfl (by simp)
  have h := h.rescope ([] :: after.scopes)
  refine h.step ((identifier_runs h.ready).conseq (fun _ _ hv => hv.single) fun _ hs => hs)
    (plain_discloses identifier_composed) fun var after h => ?_
  refine h.step (expect_gives h.ready rfl) (plain_discloses .expect) fun _ after h => ?_
  refine h.step (iterable_runs hi.spec h.ready) (hi.stays iterable_composed)
    fun iterable after h => ?_
  refine h.step (declare_gives h.ready) (plain_discloses (.declare rfl)) fun _ after h => ?_
  refine h.body hi fun body after h => ?_
  rintro _ _ hok
  obtain ⟨rfl, rfl⟩ := EStateM.Result.ok.inj hok
  exact h.rescope _

/-- So does a while loop. -/
theorem whileStatement_covers (hi : reading.Covering levels inner) (h : reading.Ready levels base)
    (ho : base.openBlocks = 0) :
    reading.WhenOk (whileStatement inner) base fun node after => Covered base node after := by
  refine tracked_of_expect h ho rfl fun token after h => ?_
  refine h.step (requireVersion3_gives h.ready) (plain_discloses (.requireVersion3 rfl))
    fun _ after h => ?_
  refine h.step (condition_runs hi.spec h.ready) (hi.stays condition_composed)
    fun condition after h => ?_
  exact h.body hi fun body after h => h.ends rfl (by simp)

/-- So does a statement of any kind. -/
theorem statement_covers (hi : reading.Covering levels inner) (h : reading.Ready levels base)
    (ho : base.openBlocks = 0) :
    reading.WhenOk (statement inner) base fun node after => Covered base node after := by
  obtain ⟨statementAt, heq, hc⟩ := exists_statementAt
  intro node after hok
  by_cases hinclude : base.rest.head?.map Token.kind = some Keyword.kwInclude
  · obtain ⟨token, rest, hr, hk⟩ := exists_of_peek hinclude
    have hleaves := includeStatement_leaves h.located
    rw [statement_of_keyword hr hk] at hok
    rw [show includeStatement reading.context base = .ok node after from hok] at hleaves
    intro index hs
    refine (hleaves.2.2 index hs).imp_right fun ⟨_, hid⟩ => ?_
    rw [hid]
    exact .refl _
  by_cases hgoverns : ∃ keyword ∈ governingKeywords,
      base.rest.head?.map Token.kind = some (.keyword keyword)
  · obtain ⟨keyword, hm, hkeyword⟩ := hgoverns
    obtain ⟨token, rest, hr, hk⟩ := exists_of_peek hkeyword
    rw [statement_of_keyword hr hk] at hok
    simp only [governingKeywords, List.mem_cons, List.not_mem_nil, or_false] at hm
    rcases hm with rfl | rfl | rfl
    · exact ifStatement_covers hi h ho node after hok
    · exact forStatement_covers hi h ho node after hok
    · exact whileStatement_covers hi h ho node after hok
  · have hplain : Composed (fun feature => feature = .tracked ∨ feature = .calibration)
        (statementAt base.rest.head?) :=
      hc _ _ (.inl rfl) (fun hk => absurd hk hinclude) (fun _ _ _ => .inr rfl)
        fun keyword hm hk => absurd ⟨keyword, hm, hk⟩ hgoverns
    rw [heq, bind_of_ok (current_eq reading.context base)] at hok
    have hstays := hi.stays_of_not (by simp) (by simp) hplain
    exact fun index hs => .inl ((disclosed_of_ok hstays h.located hok).silent index hs)

/-- The productions of every level leave only what they govern. -/
theorem level_covering (hf : ¬reading.fair) (levels : Nat) :
    reading.Covering levels (level levels) := by
  refine ⟨level_spec hf, level_discloses levels, level_reports levels, ?_⟩
  induction levels with
  | zero => exact fun _ _ _ _ _ hok => nomatch hok
  | succ levels ih =>
    intro state h ho
    have hi : reading.Covering levels (level levels) :=
      ⟨level_spec hf, level_discloses levels, level_reports levels, ih⟩
    refine WhenOk.nested fun hlt => ?_
    exact statement_covers hi (h.inner hlt) ho

/-! ## Programs -/

/-- A statement or an error in its place leaves only what it governs. -/
theorem statementOrError_covers (hi : reading.Covering levels inner)
    (h : reading.Ready levels base) (ho : base.openBlocks = 0) :
    reading.WhenOk (statementOrError inner) base fun node after => Covered base node after := by
  intro node after hok
  rcases statementOrError_cases hi.spec h with ⟨node', after', hread, hend, -⟩ |
    ⟨failed, -, -, -, -, hend⟩ | ⟨failed, hfailed, -, hend⟩ | ⟨failure, after, -, hend, -⟩
  · obtain ⟨rfl, rfl⟩ := EStateM.Result.ok.inj (hend.symm.trans hok)
    exact statement_covers hi h ho node' after' hread
  · cases hend.symm.trans hok
  · obtain ⟨rfl, rfl⟩ := EStateM.Result.ok.inj (hend.symm.trans hok)
    have hreported := statement_composed.reports hi.reports reading.context base
    rw [hfailed] at hreported
    intro index hs
    let reported : State := { base with diagnostics := failed.diagnostics }
    have hnodes : (recovered reading base failed).builder.nodes =
        reported.builder.nodes.push ⟨.error, (errorNode reading base failed).span⟩ := rfl
    have hsilent : Silent reported index := silent_of_push hnodes (fun _ _ => nofun) rfl hs
    have hmore : Reported base reported := hreported
    exact .inl (silent_of_reported hmore rfl hsilent)
  · cases hend.symm.trans hok

end

end Reading

open Reading

section
variable {reading : Reading} {levels : Nat} {start state last : State} {items : List Placed}
  {portions : List Portion}

/-- The portions that a program takes are listed. -/
theorem Portioned.listed {item : Parser Placed}
    (h : Portioned item reading.context state portions last)
    (hitem : ∀ state token rest, reading.Ready levels state → state.rest = token :: rest →
      token.kind ≠ Symbol.rightBrace →
      reading.Runs item state (reading.Yields True .statement levels state)
        fun after => reading.Dropped state after ∧ 0 < state.openBlocks)
    (hs : reading.Listed levels start items state) :
    reading.Listed levels start (items ++ portions.filterMap Portion.item?) last := by
  induction h generalizing items with
  | done => rwa [List.filterMap_nil, List.append_nil]
  | next htakes _ ih =>
    rw [filterMap_item?_cons, ← List.append_assoc]
    exact ih (hs.takes htakes fun token rest => hitem _ token rest hs.ready).1

/-- The statements of a program leave only what they govern. -/
theorem Portioned.covers
    (h : Portioned (statementOrError (level levels)) reading.context state portions last)
    (hf : ¬reading.fair) (hs : reading.Listed levels start items state) {index : Nat}
    (hsilent : Silent last index) :
    Silent state index ∨ ∃ node ∈ portions.filterMap Portion.item?,
      Governs last.builder.nodes node.id ⟨index⟩ := by
  induction h generalizing items with
  | done => exact .inl hsilent
  | @next state middle last portion portions htakes hmore ih =>
    have hlisted := (hs.takes htakes fun token rest => item_runs hf _ token rest hs.ready).1
    rw [filterMap_item?_cons]
    rcases ih hlisted hsilent with hmiddle | ⟨node, hm, hgov⟩
    · cases htakes with
      | @stray token rest reported hr hk hok =>
        have hR := stable_plain reading.context False
        have hreported := disclosed_of_ok (.reportSyntax hR) hs.ready.located hok
        exact .inl (hreported.silent index ((pass_discloses 1 reported).silent index hmiddle))
      | @item token rest node middle hr hk hok =>
        refine (statementOrError_covers (level_covering hf levels) hs.ready hs.openBlocks node
          middle hok index hmiddle).imp_right fun hgov => ?_
        have hgrown := (hmore.listed (item_runs hf) (.nil hlisted.ready hlisted.openBlocks)).grown
        obtain ⟨nodes, parents, -, hbuilder⟩ := hgrown
        refine ⟨node, List.mem_cons_self, ?_⟩
        rw [hbuilder]
        exact hgov.append
    · exact .inr ⟨node, List.mem_append_right _ hm, hgov⟩

end

/-! ## Parses -/

/-- Every include of a parsed tree is a statement of the program, or is governed by one, or is
reported to be in a wrong place. -/
theorem parse_discloses (source : SourceId) (text : List Char) (options : ParseOptions) :
    (∃ output, parse source text options = .ok output ∧
      ∀ id path items span, output.tree.node? id = some ⟨.includeFile path items, span⟩ →
        (∃ item ∈ output.tree.items, Governs output.tree.nodes item id) ∨
        ∃ diagnostic ∈ output.diagnostics, Misplaced span diagnostic) ∨
    Crashes source text options := by
  refine (parse_portioned source text options).imp_left ?_
  rintro ⟨output, portions, last, hparse, hportions, hitems, -, hreports, _, span, hnodes⟩
  refine ⟨output, hparse, fun id path items span' hnode => ?_⟩
  have hready := ready_startState source text options
  have hfair : ¬(ofText source text options).fair := False.elim
  have hlast : last.builder.nodes[id.index]? = some ⟨.includeFile path items, span'⟩ := by
    rw [Tree.node?, hnodes, Array.getElem?_push] at hnode
    split at hnode
    · cases congrArg Node.kind (Option.some.inj hnode)
    · exact hnode
  have hread : Portioned (statementOrError (level (options.maxDepth + 1)))
    (ofText source text options).context (startState source text options) portions last := hportions
  by_cases hreported : ∃ diagnostic ∈ last.diagnostics.items, Misplaced span' diagnostic
  · obtain ⟨diagnostic, hm, hcode, hmessage, hsource, hstart⟩ := hreported
    obtain ⟨other, hother, heq⟩ := Diagnostics.exists_mem_sorted
      (show diagnostic ∈ (Diagnostics.mk ((tokenize source text).2 ++ last.diagnostics.items)).items
        from List.mem_append_right _ hm)
    obtain ⟨hcode', hspan', hmessage'⟩ := Diagnostic.identity_eq_iff.1 heq
    refine .inr ⟨other, hreports ▸ hother, hcode'.trans hcode, hmessage'.trans hmessage, ?_, ?_⟩
    · rw [hspan', hsource]
    · rw [hspan', hstart]
  · have hsilent : Silent last id.index := ⟨path, items, span', hlast, fun diagnostic hm hmis =>
      hreported ⟨diagnostic, hm, hmis⟩⟩
    rcases hread.covers hfair (.nil hready rfl) hsilent with ⟨_, _, _, hnone, -⟩ | ⟨node, hm, hgov⟩
    · cases hnone
    · refine .inl ⟨node.id, hitems ▸ List.mem_map_of_mem hm, ?_⟩
      rw [hnodes, ← Array.append_singleton]
      exact hgov.append

/-- Only an include is tagged as one. -/
theorem exists_of_tag_include {kind : NodeKind NodeId} (h : kind.tag = "Include") :
    ∃ path items, kind = .includeFile path items := by
  cases kind with
  | includeFile path items => exact ⟨path, items, rfl⟩
  | _ => exact absurd h (by simp [NodeKind.tag])

/-- The body of a condition need not be a block, and then an include in its place is neither a
statement of the program nor reported. -/
theorem not_disclosed_bareBody :
    ¬∀ source text options output, parse source text options = .ok output →
      ∀ id path items span, output.tree.node? id = some ⟨.includeFile path items, span⟩ →
        id ∈ output.tree.items ∨ ∃ diagnostic ∈ output.diagnostics,
          diagnostic.code = .syntaxError ∧ diagnostic.span.start = span.start := by
  intro hall
  let text := "if (true) include \"a.qasm\";".toList
  have hshape : (parse ⟨0⟩ text {}).toOption.map (fun output =>
      (output.diagnostics.length, output.tree.items,
        (output.tree.node? ⟨1⟩).map (·.kind.tag))) = some (0, [⟨2⟩], some "Include") := by
    decide +kernel
  cases hparse : parse ⟨0⟩ text {} with
  | error failure =>
    rw [hparse] at hshape
    cases hshape
  | ok output =>
    rw [hparse] at hshape
    simp only [Except.toOption, Option.map_some, Option.some.injEq, Prod.mk.injEq,
      List.length_eq_zero_iff, Option.map_eq_some_iff] at hshape
    obtain ⟨hnone, hitems, ⟨kind, span⟩, hnode, htag⟩ := hshape
    obtain ⟨path, items, rfl⟩ := exists_of_tag_include htag
    rcases hall ⟨0⟩ text {} output hparse ⟨1⟩ path items span hnode with hm | ⟨diagnostic, hm, -⟩
    · rw [hitems] at hm
      exact absurd hm (by decide)
    · rw [hnone] at hm
      cases hm

end Grammar

end OpenQasm
