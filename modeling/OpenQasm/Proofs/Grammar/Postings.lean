import OpenQasm.Proofs.Grammar.Bookkeeping

/-!
# Postings

What each production enters in a ledger. Expressions and types leave nothing waiting; a statement
leaves the name that it declares, and the statements of a block leave the scope of the block.
-/

namespace OpenQasm.Grammar.Reading

section
variable {α β : Type} {reading : Reading} {tree : Tree} {version : Option Version} {levels : Nat}
  {base now after : State} {book : Book} {parser : Parser α} {inner : Level}

/-- A parser that enters a statement. The name that the statement declares is left. -/
def Posts (reading : Reading) (tree : Tree) (version : Option Version) (levels : Nat)
    (parser : Parser Placed) : Prop :=
  ∀ now, reading.Ledger tree version levels now now {} →
    reading.WhenOk parser now fun node after => reading.Ledger tree version levels now after
      { names := (Program.declared? tree node.id).toList }

/-- What the productions of the next level enter in a ledger. They read what others read, of which
it is known what they yield. -/
structure Enters (reading : Reading) (tree : Tree) (version : Option Version) (levels : Nat)
    (inner : Level) : Prop where
  unfair : ¬reading.fair
  subsumed : ∃ plain : Level, reading.Spec levels plain ∧
    ∀ production, Subsumes reading.context (plain production) (inner production)
  readable : ∀ production, Readable (· = .inclusion) production →
    reading.Clears tree version levels (inner production)
  statement : reading.Posts tree version levels (inner .statement)
  blockItems : ∀ now, reading.Ledger tree version levels now now {} →
    reading.WhenOk (inner .blockItems : Parser (List Placed)) now fun items after =>
      reading.Ledger tree version levels now after
        { closed := [(items.map Placed.id).filterMap (Program.declared? tree)] }

/-- What is composed of the pieces and reads no statement leaves nothing waiting. -/
theorem Enters.clears (hi : reading.Enters tree version levels inner) {parser : Level → Parser α}
    (hc : Composed (· = .inclusion) parser) : reading.Clears tree version levels (parser inner) :=
  composed_clears hi.unfair hc hi.readable

/-- What is known of the plain productions holds of what is read. -/
theorem Enters.whenOk (hi : reading.Enters tree version levels inner) {parser : Level → Parser α}
    {post : α → State → Prop} {stop : State → Prop} (hc : Composed (fun _ => True) parser)
    (h : ∀ plain, reading.Spec levels plain → reading.Runs (parser plain) now post stop) :
    reading.WhenOk (parser inner) now post := by
  obtain ⟨plain, hspec, hsub⟩ := hi.subsumed
  exact fun value after hok => (h plain hspec).whenOk value after (hc.subsumes hsub _ _ _ hok)

/-! ## Expressions -/

/-- A block leaves nothing waiting. -/
theorem block_clears (hi : reading.Enters tree version levels inner) :
    reading.Clears tree version levels (block inner) := by
  intro now h
  refine h.clears (hi.clears .expect) fun token after h => ?_
  refine h.part (h.anew.blockOpen hi.blockItems) fun items after h => ?_
  refine h.clears (hi.clears .expect) fun _ after h => ?_
  refine WhenOk.look rfl ((h.closes (awaited_nothing ⟨rfl, rfl⟩ _)
    (fun _ => Span.contains_self _) (fun _ => rfl) fun _ => rfl).conseq fun node after hv => ?_)
  exact hv.2.waive (List.nil_subset _) (.refl _)

/-- A block in an expression leaves nothing waiting. -/
theorem primary_clears (hi : reading.Enters tree version levels inner) :
    reading.Clears tree version levels (primary inner) := by
  refine (hi.clears .current).bind fun next => ?_
  cases next with
  | none => exact hi.clears .unexpected
  | some token =>
    by_cases hk : token.kind = Keyword.kwDurationOf
    · dsimp only
      unfold primaryAt
      rw [hk]
      refine (hi.clears .advance).bind fun _ => (hi.clears .expect).bind fun _ => ?_
      refine (block_clears hi).bind fun body => (hi.clears .expect).bind fun _ => ?_
      exact .placeFrom trivial
    · exact hi.clears (primaryAt_composed fun heq => absurd heq hk)

/-- Nor does a power. -/
theorem power_clears (hi : reading.Enters tree version levels inner) :
    reading.Clears tree version levels (power inner) := by
  refine ((primary_clears hi).bind fun base => hi.clears indices_composed).bind fun base => ?_
  refine (hi.clears .accept).bind fun raised => .ite ?_ .pure
  exact (hi.readable .unary trivial).bind fun exponent => .place (.inr trivial)

/-- Nor does a unary expression. -/
theorem unaryExpression_clears (hi : reading.Enters tree version levels inner) :
    reading.Clears tree version levels (unaryExpression inner) := by
  refine (hi.clears .peek).bind fun next => ?_
  cases next.bind unaryOp? with
  | some op =>
    refine (hi.clears .currentSpan).bind fun start => (hi.clears .advance).bind fun _ => ?_
    exact (hi.readable .unary trivial).bind fun operand => .placeFrom trivial
  | none => exact power_clears hi

/-- Nor does a binary expression, from any precedence on. -/
theorem binaryFrom_clears (hi : reading.Enters tree version levels inner) (least : Nat) :
    reading.Clears tree version levels (binaryFrom inner least) := by
  induction least using climb_induction with
  | _ least ih =>
    rw [binaryFrom_eq]
    refine (unaryExpression_clears hi).bind fun first => .iterate (fun lhs => ?_) first
    refine (hi.clears .peek).bind fun next => ?_
    cases next.bind binaryOp? with
    | some op =>
      by_cases hlt : op.precedence < least
      · simpa only [if_pos hlt] using .pure
      · simp only [if_neg hlt]
        refine (hi.clears .advance).bind fun _ => (ih op (Nat.not_lt.1 hlt)).bind fun rhs => ?_
        exact .bind (.place (.inr trivial)) fun node => .pure
    | none => exact .pure

/-- Nor do the cases of a switch. -/
theorem cases_clears (hi : reading.Enters tree version levels inner) :
    reading.Clears tree version levels (cases inner) := by
  refine .iterate (fun cases => ?_) []
  refine (hi.clears .currentSpan).bind fun start => (hi.clears .peek).bind fun next => ?_
  split
  · refine (hi.clears .advance).bind fun _ => (hi.clears expressions_composed).bind fun values => ?_
    refine .ite ((hi.clears .unexpected).bind fun _ => ?_) ?_
    all_goals
      refine (block_clears hi).bind fun body => ?_
      exact .bind (.placeFrom trivial) fun node => .pure
  · refine (hi.clears .advance).bind fun _ => (block_clears hi).bind fun body => ?_
    exact .bind (.placeFrom trivial) fun node => .pure
  · exact .pure
  · exact hi.clears .unexpected

/-- What may be read by itself leaves nothing waiting. -/
theorem production_clears (hi : reading.Enters tree version levels inner) {production : Production}
    (hr : Readable (· = .inclusion) production) :
    reading.Clears tree version levels (production.parse inner) := by
  cases production with
  | expression => exact binaryFrom_clears hi 1
  | unary => exact unaryExpression_clears hi
  | scalarType => exact hi.clears scalarType_composed
  | cases => exact cases_clears hi
  | arrayLiteral => exact hi.clears arrayLiteral_composed
  | statement => cases hr
  | blockItems => exact hr.elim

/-! ## Types -/

/-- A token is passed over, and what comes next leaves nothing more waiting than a claim to it. -/
theorem Enters.opens (hi : reading.Enters tree version levels inner) {kind : TokenKind}
    (h : reading.Ledger tree version levels now now {})
    (hk : now.rest.head?.map Token.kind = some kind)
    (hc : reading.Clears tree version levels parser) :
    reading.WhenOk (advance >>= fun _ => parser) now fun _ after => ∃ token tokens,
      now.rest = token :: tokens ∧
      reading.Ledger tree version levels now after { claims := [token.span] } := by
  obtain ⟨token, tokens, hr, -⟩ := exists_of_peek hk
  refine h.advance hi.unfair hr fun middle hledger => ?_
  exact (hledger.stays hc).conseq fun _ _ hlast => ⟨token, tokens, hr, hlast⟩

/-- A type begins with its first token. -/
theorem type_opens (hi : reading.Enters tree version levels inner)
    (h : reading.Ledger tree version levels now now {}) :
    reading.WhenOk (type inner) now fun _ after => ∃ token tokens, now.rest = token :: tokens ∧
      reading.Ledger tree version levels now after { claims := [token.span] } := by
  have hspan := currentSpan_eq reading.context now
  have hcomplex {kind : TokenKind} (hk : now.rest.head?.map Token.kind = some kind) :
      reading.WhenOk (complexType inner) now fun _ after => ∃ token tokens,
        now.rest = token :: tokens ∧
        reading.Ledger tree version levels now after { claims := [token.span] } := by
    refine WhenOk.look hspan (hi.opens h hk (.bind (hi.clears .accept) fun opened => .ite ?_ ?_))
    · refine (hi.readable .scalarType trivial).bind fun component => ?_
      exact (hi.clears .expect).bind fun _ => .bind .pure fun component => .placeFrom trivial
    · exact .bind .pure fun component => .placeFrom trivial
  refine WhenOk.look rfl ?_
  split
  · next hk => exact hcomplex hk
  · next hk =>
    refine WhenOk.look hspan (hi.opens h hk ?_)
    refine (hi.clears elementType_composed).bind fun element => ?_
    refine (hi.clears expressions_composed).bind fun dims => ?_
    refine .ite ((hi.clears .unexpected).bind fun _ => ?_) ?_
    all_goals exact (hi.clears .expect).bind fun _ => .placeFrom trivial
  · next hk =>
    refine WhenOk.look hspan (hi.opens h hk ?_)
    exact (hi.clears designator_composed).bind fun size => .placeFrom trivial
  · refine WhenOk.look hspan (WhenOk.look rfl ?_)
    cases hk : now.rest.head?.map Token.kind with
    | none =>
      have hr : now.rest = [] := by simpa using hk
      refine WhenOk.look rfl ?_
      rw [hr]
      exact .unexpected
    | some kind =>
      dsimp only [Option.bind_some]
      cases scalarKind? kind with
      | some scalar =>
        refine hi.opens h hk ?_
        exact (hi.clears designator_composed).bind fun size => .placeFrom trivial
      | none =>
        exact WhenOk.look rfl (.ite (fun _ => hcomplex hk) fun _ => .unexpected)

/-- A report may still be made about a type that has been read. -/
theorem Ledger.type {next : Placed → Parser β} {post : β → State → Prop}
    (h : reading.Ledger tree version levels base now book)
    (hi : reading.Enters tree version levels inner)
    (hn : ∀ type after, type.span.start = (nextSpan reading.context now.rest).start →
      reading.Ledger tree version levels base after
        { book with claims := type.span :: book.claims } →
      reading.WhenOk (next type) after post) :
    reading.WhenOk (Grammar.type inner >>= next) now post := by
  have hyields := hi.whenOk type_composed fun plain hspec => type_runs hspec h.ready_now
  refine WhenOk.bind ((type_opens hi h.anew).and hyields)
    fun type after _ ⟨⟨token, tokens, hr, hopens⟩, _, _, _, _, _, _, _, hspan⟩ => ?_
  obtain ⟨-, hle, hstop⟩ := hopens.extent token.span List.mem_cons_self
  have hstart : type.span.start = token.span.start := by
    rw [hspan, hr]
    rfl
  have hledger := h.trans hopens
  rw [Book.append_read] at hledger
  refine hn type after (by rw [hstart, hr]; rfl) ?_
  refine (hledger.widen (List.perm_append_singleton _ _) hstart ⟨?_, ?_, ?_⟩).waive
    (fun _ hm => List.mem_append_left _ hm) (.refl _)
  · rw [hspan]
  · rw [hstart, hspan]
    exact Nat.le_trans hle hstop
  · exact Nat.le_of_eq (congrArg Span.stop hspan)

/-! ## Declarations -/

/-- The node that a production yields is the one that it has pushed. -/
theorem Yields.node? {declares : Prop} {slot : Slot} {node : Placed}
    (h : reading.Yields declares slot levels base node after) :
    after.builder.nodes[node.id.index]? = some ⟨node.kind, node.span⟩ := by
  obtain ⟨base', read, ahead, -, -, hheld, -⟩ := h
  obtain ⟨nodes, parents, hforest, hbuilder⟩ := hheld.grown
  obtain ⟨hfirst, hnode⟩ := hforest.root_mem List.mem_cons_self
  rw [hbuilder, Array.getElem?_append_right hfirst, List.getElem?_toArray]
  exact hnode

/-- An initializer leaves nothing waiting. -/
theorem initializer_clears (hi : reading.Enters tree version levels inner) {type : Placed} :
    reading.Clears tree version levels (initializer inner type) := by
  have hretag {first : Level → Parser Placed} {retag : Placed → Parser Placed}
      (hc : ∀ {has : Feature → Prop}, Composed has first)
      (hy : ∀ plain now, reading.Spec levels plain → reading.Ready levels now →
        reading.Runs (first plain) now (reading.Yields False .expression levels now)
          (reading.Dropped now))
      (hretags : ∀ value, retag value = retagAngle value ∨ retag value = pure value) :
      reading.Clears tree version levels (first inner >>= retag) := by
    intro now h
    have hyields := hi.whenOk hc fun plain hspec => hy plain now hspec h.ready
    refine WhenOk.bind ((hi.clears hc now h).and hyields)
      fun value after _ ⟨hledger, hyielded⟩ => ?_
    have hnode := hyielded.node?
    obtain heq | heq := hretags value
    · rw [heq, retagAngle]
      split
      · next literal hk =>
        refine WhenOk.bind ?_ fun _ _ _ hlast => .pure hlast
        exact .modify (hledger.relabel (hk ▸ hnode))
      · exact .pure hledger
    · rw [heq]
      exact .pure hledger
  refine (hi.clears .sees).bind fun braced => .ite ?_ ?_
  · refine hretag arrayLiteral_composed (fun plain now hspec hr => arrayLiteral_runs hspec hr)
      fun value => ?_
    split <;> simp
  · refine hretag value_composed (fun plain now hspec hr => value_runs hspec hr) fun value => ?_
    split <;> simp

/-! ## Directives -/

/-- The choice of a calibration grammar is entered. -/
theorem calibrationGrammar_posts (hi : reading.Enters tree version levels inner) :
    reading.Posts tree version levels calibrationGrammar := by
  intro now h
  refine h.expect hi.unfair fun token _ _ h => h.clears (hi.clears stringText_composed)
    fun name _ h => ?_
  refine h.clears (hi.clears .expect) fun _ _ h => h.requireFrom (.refl _) fun span _ h => ?_
  exact h.ends (awaited_feature ⟨rfl, rfl⟩) (fun _ => span.contains_self) (fun _ => rfl)
    (fun _ => rfl) fun _ => rfl

/-- A calibration block is entered. -/
theorem cal_posts (hi : reading.Enters tree version levels inner) :
    reading.Posts tree version levels cal := by
  intro now h
  refine h.expect hi.unfair fun token _ _ h => ?_
  refine h.clears (hi.clears calibrationBody_composed) fun body _ h => ?_
  refine h.requireFrom (.refl _) fun span _ h => ?_
  exact h.ends (awaited_feature ⟨rfl, rfl⟩) (fun _ => span.contains_self) (fun _ => rfl)
    (fun _ => rfl) fun _ => rfl

/-- The definition of a calibration is entered. -/
theorem defcal_posts (hi : reading.Enters tree version levels inner) :
    reading.Posts tree version levels defcal := by
  intro now h
  refine h.expect hi.unfair fun token state _ h => WhenOk.look (current_eq reading.context state) ?_
  cases state.rest.head? with
  | none => exact .unexpected
  | some first =>
    refine .ite (fun _ => ?_) fun _ => ?_
    · exact WhenOk.bind (p := fun _ _ => False) .unexpected fun _ _ _ hno => hno.elim
    refine WhenOk.look rfl (h.clears (.passOver hi.unfair) fun _ after h => ?_)
    refine WhenOk.look rfl (WhenOk.look rfl ?_)
    refine h.clears (hi.clears calibrationBody_composed) fun body _ h => ?_
    refine h.requireFrom (.refl _) fun span _ h => ?_
    exact h.ends (awaited_feature ⟨rfl, rfl⟩) (fun _ => span.contains_self) (fun _ => rfl)
      (fun _ => rfl) fun _ => rfl

/-! ## Names -/

/-- A name that stands in the tree is declared there. -/
theorem declares {name : Placed} (h : tree.Stands name) :
    name.declaration?.toList = ((some name.id).bind tree.name?).toList := by
  rw [Option.bind_some, h.name?]

/-- The declaration of qubits is entered, and its name is left. -/
theorem qubitDecl_posts (hi : reading.Enters tree version levels inner) :
    reading.Posts tree version levels (qubitDecl inner) := by
  intro now h
  refine h.clears (hi.clears .expect) fun token _ h => ?_
  refine h.clears (hi.clears designator_composed) fun size _ h => ?_
  refine h.identifier hi.unfair fun name _ h => h.clears (hi.clears .expect) fun _ _ h => ?_
  refine h.declare (.refl _) fun _ h => ?_
  exact h.endsFrom (awaited_nothing ⟨rfl, rfl⟩ token.span) rfl (fun _ => rfl) (fun _ => rfl)
    fun hroots => declares (hroots name List.mem_cons_self)

/-- So is that of a register in the old form, with its warning. -/
theorem registerDecl_posts (hi : reading.Enters tree version levels inner)
    (register : RegisterKind) : reading.Posts tree version levels
      (registerDecl inner register) := by
  intro now h
  refine WhenOk.look (current_eq reading.context now) ?_
  cases hr : now.rest with
  | nil => exact .unexpected
  | cons keyword rest =>
    refine h.advance hi.unfair hr fun _ h => h.identifier hi.unfair fun name _ h => ?_
    refine h.clears (hi.clears designator_composed) fun size _ h => WhenOk.look rfl ?_
    refine h.clears (hi.clears .expect) fun _ _ h => h.declare (.refl _) fun _ h => ?_
    refine h.clears (hi.clears registerReplacement_composed) fun replacement _ h => ?_
    refine h.deprecated (.refl _) fun _ h => ?_
    exact h.endsFrom (awaited_deprecation ⟨rfl, rfl⟩) rfl (fun _ => rfl) (fun _ => rfl)
      fun hroots => declares (hroots name List.mem_cons_self)

/-- So is that of a variable. -/
theorem classicalDecl_posts (hi : reading.Enters tree version levels inner) :
    reading.Posts tree version levels (classicalDecl inner) := by
  intro now h
  refine WhenOk.look (currentSpan_eq reading.context now) ?_
  refine h.type hi fun type _ hstart h => h.requireAt (.refl _) fun _ h => ?_
  refine h.identifier hi.unfair fun name _ h => h.clears (hi.clears .accept) fun assigned _ h => ?_
  refine .ite (fun _ => h.clears (initializer_clears hi).map fun init _ h => ?_)
    (fun _ => h.clears .pure fun init _ h => ?_)
  all_goals
    refine h.clears (hi.clears .expect) fun _ _ h => h.declare (.refl _) fun _ h => ?_
    exact h.endsFrom (awaited_feature ⟨rfl, rfl⟩) hstart (fun _ => rfl) (fun _ => rfl)
      fun hroots => declares (hroots name List.mem_cons_self)

/-- So is that of a constant. -/
theorem constDecl_posts (hi : reading.Enters tree version levels inner) :
    reading.Posts tree version levels (constDecl inner) := by
  intro now h
  refine h.expect hi.unfair fun token _ _ h => h.clears (hi.clears type_composed) fun type _ h => ?_
  refine h.identifier hi.unfair fun name _ h => h.clears (hi.clears .expect) fun _ _ h => ?_
  refine h.clears (initializer_clears hi) fun init _ h => ?_
  refine h.clears (hi.clears .expect) fun _ _ h => h.requireFrom (.swap _ _ _) fun span _ h => ?_
  refine h.declare (.refl _) fun _ h => ?_
  exact h.ends (awaited_feature ⟨rfl, rfl⟩) (fun _ => span.contains_self) (fun _ => rfl)
    (fun _ => rfl) fun hroots => declares (hroots name List.mem_cons_self)

/-- So is that of an input or an output. -/
theorem ioDecl_posts (hi : reading.Enters tree version levels inner) (direction : Direction) :
    reading.Posts tree version levels (ioDecl inner direction) := by
  intro now h
  refine WhenOk.look (current_eq reading.context now) ?_
  cases hr : now.rest with
  | nil => exact .unexpected
  | cons keyword rest =>
    refine h.advance hi.unfair hr fun _ h => h.clears (hi.clears type_composed) fun type _ h => ?_
    refine h.identifier hi.unfair fun name _ h => h.clears (hi.clears .expect) fun _ _ h => ?_
    refine h.requireFrom (.swap _ _ _) fun span _ h => h.declare (.refl _) fun _ h => ?_
    exact h.ends (awaited_feature ⟨rfl, rfl⟩) (fun _ => span.contains_self) (fun _ => rfl)
      (fun _ => rfl) fun hroots => declares (hroots name List.mem_cons_self)

/-- So is that of an alias. -/
theorem aliasDecl_posts (hi : reading.Enters tree version levels inner) :
    reading.Posts tree version levels (aliasDecl inner) := by
  intro now h
  refine h.expect hi.unfair fun token _ _ h => h.identifier hi.unfair fun name _ h => ?_
  refine h.clears (hi.clears .expect) fun _ _ h => ?_
  refine h.clears (hi.clears (.joined (.inner .expression trivial))) fun parts _ h => ?_
  refine h.clears (hi.clears .expect) fun _ _ h => h.requireFrom (.swap _ _ _) fun span _ h => ?_
  refine h.declare (.refl _) fun _ h => ?_
  exact h.ends (awaited_feature ⟨rfl, rfl⟩) (fun _ => span.contains_self) (fun _ => rfl)
    (fun _ => rfl) fun hroots => declares (hroots name List.mem_cons_self)

/-- So is that of an opaque gate. -/
theorem opaqueDecl_posts (hi : reading.Enters tree version levels inner) :
    reading.Posts tree version levels opaqueDecl := by
  intro now h
  refine h.expect hi.unfair fun token _ _ h => h.identifier hi.unfair fun name _ h => ?_
  refine h.clears (hi.clears gateParams_composed) fun params _ h => ?_
  refine h.clears (hi.clears identifiers_composed) fun qubits _ h => ?_
  refine h.clears (hi.clears .expect) fun _ _ h => h.deprecated (.swap _ _ _) fun _ h => ?_
  refine h.declare (.refl _) fun _ h => ?_
  exact h.endsFrom (awaited_deprecation ⟨rfl, rfl⟩) rfl (fun _ => rfl) (fun _ => rfl)
    fun hroots => declares (hroots name List.mem_cons_self)

/-- So is that of an extern. -/
theorem externDecl_posts (hi : reading.Enters tree version levels inner) :
    reading.Posts tree version levels (externDecl inner) := by
  intro now h
  refine h.expect hi.unfair fun token _ _ h => h.identifier hi.unfair fun name _ h => ?_
  refine h.clears (hi.clears .expect) fun _ _ h => ?_
  refine h.clears (hi.clears (.separated externParam_composed)) fun params _ h => ?_
  refine h.clears (hi.clears .expect) fun _ _ h => ?_
  refine h.clears (hi.clears returnType_composed) fun result _ h => ?_
  refine h.clears (hi.clears .expect) fun _ _ h => h.requireFrom (.swap _ _ _) fun span _ h => ?_
  refine h.declare (.refl _) fun _ h => ?_
  exact h.ends (awaited_feature ⟨rfl, rfl⟩) (fun _ => span.contains_self) (fun _ => rfl)
    (fun _ => rfl) fun hroots => declares (hroots name List.mem_cons_self)

/-! ## Parameters -/

/-- What is left by a list of items is left when they are separated by commas. -/
theorem Enters.separated (hi : reading.Enters tree version levels inner) {close : Symbol}
    (more : List α → Book) (hnil : more [] = {})
    (h : reading.Ledger tree version levels now now {})
    (hitem : ∀ items state, reading.Ledger tree version levels now state (more items) →
      reading.WhenOk parser state fun item after =>
        reading.Ledger tree version levels now after (more (items ++ [item]))) :
    reading.WhenOk (separated close parser) now fun items after =>
      reading.Ledger tree version levels now after (more items) := by
  refine WhenOk.iterate (fun items state => reading.Ledger tree version levels now state
    (more items)) (fun items state h => ?_) (hnil ▸ h)
  refine h.clears (hi.clears .sees) fun closed _ h => .ite (fun _ => .pure h) fun _ => ?_
  refine WhenOk.bind (hitem items _ h) fun item _ _ h => ?_
  exact h.clears (hi.clears .accept) fun more _ h => .ite (fun _ => .pure h) fun _ => .pure h

/-- Names that may be declared, and that reports may be made about. -/
def offered (names : List Placed) : Book := { roots := names, claims := names.map Placed.span }

/-- A list of names offers them for declaration. -/
theorem identifiers_offers (hi : reading.Enters tree version levels inner) {close : Symbol}
    (h : reading.Ledger tree version levels now now {}) :
    reading.WhenOk (identifiers close) now fun names after =>
      reading.Ledger tree version levels now after (offered names) := by
  refine hi.separated offered rfl h fun names state h => ?_
  refine (h.identified hi.unfair).conseq fun name after h => ?_
  refine h.waive (fun node hm => ?_) ?_
  · exact List.mem_cons.2 ((List.mem_append.1 hm).symm.imp_left List.mem_singleton.1)
  · show ((names ++ [name]).map Placed.span).Subperm _
    rw [List.map_append]
    exact (List.perm_append_singleton _ _).subperm

/-- So do the parameters of a gate. -/
theorem gateParams_offers (hi : reading.Enters tree version levels inner)
    (h : reading.Ledger tree version levels now now {}) :
    reading.WhenOk gateParams now fun params after =>
      reading.Ledger tree version levels now after (offered params) := by
  refine h.clears (hi.clears .accept) fun opened _ h => .ite (fun _ => ?_) fun _ => .pure h
  refine h.part (identifiers_offers hi h.anew) fun params _ h => ?_
  refine h.clears (hi.clears .expect) fun _ _ h => .pure ?_
  rwa [Book.empty_append] at h

/-- The definition of a gate is entered: its parameters and its body share a scope. -/
theorem gateDef_posts (hi : reading.Enters tree version levels inner) :
    reading.Posts tree version levels (gateDef inner) := by
  intro now h
  refine h.clears (hi.clears .expect) fun token _ h => h.identifier hi.unfair fun name _ h => ?_
  let scope : List Placed × List Placed × Placed → Book := fun read =>
    { roots := read.1 ++ read.2.1, names := (read.1 ++ read.2.1).filterMap Placed.declaration? }
  refine h.part (h.anew.inScope scope fun h => ?_) fun read _ h => ?_
  · refine h.part (gateParams_offers hi h) fun params _ h => ?_
    refine h.part (identifiers_offers hi h.anew) fun qubits _ h => .ite (fun _ => ?_) fun _ => ?_
    · exact WhenOk.bind (p := fun _ _ => False) .unexpected fun _ _ _ hno => hno.elim
    have hclaims : (params.map Placed.span ++ qubits.map Placed.span).Perm
        ((params ++ qubits).map Placed.span ++ []) := by simp
    refine h.declareAll hclaims fun _ h => ?_
    exact h.clears (block_clears hi) fun body _ h => .pure h
  · obtain ⟨params, qubits, body⟩ := read
    refine h.declare (.refl _) fun _ h => ?_
    refine h.endsFrom (awaited_nothing ⟨rfl, rfl⟩ token.span) rfl (fun hroots => ?_) (fun _ => rfl)
      fun hroots => declares (hroots name List.mem_cons_self)
    have hstands : ∀ node ∈ params ++ qubits, tree.Stands node := fun node hm =>
      hroots node (List.mem_cons_of_mem _ hm)
    show List.flatMap _ [(params ++ qubits).filterMap Placed.declaration?] =
      List.flatMap _ [(params.map Placed.id ++ qubits.map Placed.id).filterMap tree.name?]
    rw [← List.map_append, Tree.filterMap_name? hstands]

/-- What the parameters of a subroutine leave. -/
def taken (tree : Tree) (version : Option Version) (params : List Placed) : Book where
  roots := params
  loose := (params.map Placed.id).filter (tree.isNoted version)
  names := (params.map Placed.id).filterMap tree.parameter?

/-- What two lists of parameters leave is what both leave together. -/
theorem taken_append (params more : List Placed) :
    taken tree version params ++ taken tree version more = taken tree version (params ++ more) := by
  show Book.append _ _ = _
  simp [Book.append, taken]

/-- The node of a parameter. -/
theorem Ledger.takes {kind : NodeKind Placed} {name : Placed} {start : Span} {roots : List Placed}
    {claims : List Span} (h : reading.Ledger tree version levels base now
      { roots, claims, names := name.declaration?.toList })
    (hm : name ∈ roots) (hk : (kind.map Placed.id).parameterName? = some name.id)
    (hplain : (kind.map Placed.id).parameters = [] ∧ tree.scopesOf (kind.map Placed.id) = []) :
    reading.WhenOk (placeFrom start kind) now fun param after =>
      reading.Ledger tree version levels base after (taken tree version [param]) := by
  refine WhenOk.look rfl ?_
  refine (h.place [] (fun id => bif kind.isNoted version then [id] else []) []
    (List.nil_subset _) (fun _ => by rw [hplain.2]; rfl) fun _ id _ =>
      ⟨[], rfl, ?_, fun _ hp => nomatch hp⟩).conseq fun param after hv => ?_
  · rw [hplain.1]
    simp
  obtain ⟨hkind, -, hledger⟩ := hv
  have hlast : reading.Ledger tree version levels base after
      { roots := param :: roots, claims
        loose := [param.id].filter (tree.isNoted version)
        names := [param.id].filterMap tree.parameter? } := by
    refine hledger.congr fun hroots => ⟨?_, ?_, rfl⟩
    all_goals have hstands := hroots param List.mem_cons_self
    · have hname := hroots name (List.mem_cons_of_mem _ hm)
      have hparam : tree.parameter? param.id = name.declaration? := by
        rw [hstands.parameter?, hkind, hk, Option.bind_some, hname.name?]
      cases hdeclared : name.declaration? <;> simp [hparam, hdeclared]
    · rw [List.filter_singleton, hstands.isNoted, hkind, NodeKind.isNoted_map]
  refine hlast.waive (fun node hm => ?_) List.nil_subperm
  exact List.mem_cons.2 (.inl (List.mem_singleton.1 hm))

/-- A parameter of a subroutine leaves its name, and its node if that is noted. -/
theorem subroutineParam_takes (hi : reading.Enters tree version levels inner)
    (h : reading.Ledger tree version levels now now {}) :
    reading.WhenOk (subroutineParam inner) now fun param after =>
      reading.Ledger tree version levels now after (taken tree version [param]) := by
  have hregister (register : RegisterKind) :
      reading.WhenOk (registerParam inner register) now fun param after =>
        reading.Ledger tree version levels now after (taken tree version [param]) := by
    refine WhenOk.look (currentSpan_eq reading.context now) ?_
    refine h.clears (hi.clears .advance) fun _ _ h => h.identifier hi.unfair fun name _ h => ?_
    refine h.clears (hi.clears designator_composed) fun size _ h => h.declare (.refl _)
      fun _ h => ?_
    exact h.takes List.mem_cons_self rfl ⟨rfl, rfl⟩
  refine WhenOk.look (currentSpan_eq reading.context now) (WhenOk.look rfl ?_)
  split
  · exact hregister .qreg
  · exact hregister .creg
  · refine h.clears (hi.clears paramType_composed) fun type _ h => ?_
    refine h.identifier hi.unfair fun name _ h => h.declare (.refl _) fun _ h => ?_
    exact h.takes List.mem_cons_self rfl ⟨rfl, rfl⟩

/-- The definition of a subroutine is entered: its parameters and its body share a scope. -/
theorem subroutineDef_posts (hi : reading.Enters tree version levels inner) :
    reading.Posts tree version levels (subroutineDef inner) := by
  intro now h
  refine h.expect hi.unfair fun token _ _ h => h.identifier hi.unfair fun name _ h => ?_
  let scope : List Placed × Option Placed × Placed → Book := fun read =>
    taken tree version read.1
  refine h.part (h.anew.inScope scope fun h => ?_) fun read _ h => ?_
  · refine h.clears (hi.clears .expect) fun _ _ h => ?_
    refine h.part (hi.separated (taken tree version) rfl h.anew fun params _ h => ?_)
      fun params _ h => ?_
    · exact (subroutineParam_takes hi h.anew).conseq fun param _ hparam =>
        taken_append params [param] ▸ h.trans hparam
    refine h.clears (hi.clears .expect) fun _ _ h => ?_
    refine h.clears (hi.clears returnType_composed) fun result _ h => ?_
    exact h.clears (block_clears hi) fun body _ h => .pure h
  · obtain ⟨params, result, body⟩ := read
    refine h.requireAt (.swap _ _ _) fun _ h => h.declare (.refl _) fun _ h => ?_
    exact h.endsFrom (awaited_feature ⟨rfl, rfl⟩) rfl (fun _ => rfl) (fun _ => rfl)
      fun hroots => declares (hroots name List.mem_cons_self)

end

end OpenQasm.Grammar.Reading
