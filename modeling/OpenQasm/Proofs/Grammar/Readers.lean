import OpenQasm.Proofs.Grammar.Recovery

/-!
# Readers of statements

The grammar with the reader of statements left open. With the reader that puts an error in place of
a statement that fails it is the grammar itself; another reader may watch what is read. Whatever the
reader, the productions of all levels do what they should, if it does.
-/

namespace OpenQasm.Grammar

/-- A way to read the statements of a program or a block, over the productions of the next level.
It is told how many levels there are below. -/
abbrev Reader := Nat → Level → Parser Placed

/-- The reader of the grammar. -/
def plainReader : Reader := fun _ inner => statementOrError inner

/-- The statements of a block, each read by `item`. -/
def blockItemsWith (item : Parser Placed) : Parser (List Placed) :=
  iterate
    (fun items => do
      match ← peek with
      | none | some (.symbol .rightBrace) => return .done items
      | some _ => return .again (items ++ [← item]))
    []

/-- A production over those of the next level, with the statements of blocks read by `item`. -/
def Production.parseWith (item : Parser Placed) (inner : Level) :
    (production : Production) → Parser production.Result
  | .blockItems => inScope (blockItemsWith item)
  | production => production.parse inner

/-- The productions with so many levels below them. -/
def levelWith (reader : Reader) : Nat → Level
  | 0, _ => crash .stalled
  | levels + 1, production =>
    nested (production.parseWith (reader levels (levelWith reader levels))
      (levelWith reader levels))

/-- One round of a program: a closing brace is reported and passed over, or a statement is read by
`item`. -/
def programRound (item : Parser Placed) (items : List Placed) :
    Parser (Turn (List Placed) (List Placed)) := do
  match ← peek with
  | none => return .done items
  | some (.symbol .rightBrace) =>
    reportSyntax "unexpected `\x7d`"
    advance
    return .again items
  | some _ =>
    match ← attempt item with
    | some item => return .again (items ++ [item])
    | none => return .again items

/-- The statements of a program, each read by `item`. -/
def programItemsWith (item : Parser Placed) : Parser (List Placed) :=
  iterate
    (fun items => do
      match ← peek with
      | none => return .done items
      | some (.symbol .rightBrace) =>
        reportSyntax "unexpected `\x7d`"
        advance
        return .again items
      | some _ =>
        match ← attempt item with
        | some item => return .again (items ++ [item])
        | none => return .again items)
    []

/-- A whole program. -/
def programWith (reader : Reader) : Parser Placed := do
  let context ← read
  let levels := context.options.maxDepth + 1
  let items ← programItemsWith (reader levels (levelWith reader levels))
  place (.program items) ⟨context.source, 0, min (Text.width context.text) maxOffset⟩

theorem parseWith_plain (inner : Level) (production : Production) :
    production.parseWith (statementOrError inner) inner = production.parse inner := by
  cases production <;> rfl

/-- Only the statements of a block are read by `item`. -/
theorem parseWith_of_ne {production : Production} (h : production ≠ .blockItems)
    (item : Parser Placed) (inner : Level) :
    production.parseWith item inner = production.parse inner := by
  cases production <;> first | rfl | exact absurd rfl h

theorem levelWith_plain (levels : Nat) : levelWith plainReader levels = level levels := by
  induction levels with
  | zero => rfl
  | succ levels ih =>
    funext production
    rw [levelWith, level, ih]
    exact congrArg nested (parseWith_plain _ _)

/-- With its own reader, the open grammar is the grammar. -/
theorem programWith_plain : programWith plainReader = program := by
  unfold programWith
  simp only [levelWith_plain]
  rfl

namespace Reading

section
variable {reading : Reading} {levels : Nat} {inner : Level} {base state : State} {reader : Reader}
  {item : Parser Placed} {slot : Slot} {declares : Prop}

/-- What a reader of statements does over the productions that it reads them with: it stops only
within open blocks. -/
def Reads (reading : Reading) (reader : Reader) : Prop :=
  ∀ levels, reading.Spec levels (levelWith reader levels) →
    ∀ base token rest, reading.Ready levels base →
      base.rest = token :: rest → token.kind ≠ Symbol.rightBrace →
      reading.Runs (reader levels (levelWith reader levels)) base
        (reading.Yields True .statement levels base)
        fun after => reading.Dropped base after ∧ 0 < base.openBlocks

/-! ## Levels -/

/-- The statements of a block in the scope that it has opened. -/
theorem blockItemsWith_runs (h : reading.Ready levels base)
    (hitem : ∀ state token rest, reading.Ready levels state → state.rest = token :: rest →
      token.kind ≠ Symbol.rightBrace →
      reading.Runs item state (reading.Yields True .statement levels state)
        (reading.Dropped state)) :
    reading.Runs (blockItemsWith item) base (reading.YieldsAll True .statement levels base)
      fun after => ∃ base', Revised True base base' ∧ reading.Dropped base' after := by
  refine Runs.iterate (reading.YieldsAll True .statement levels base)
    (fun items state hs => ?_) (YieldsAll.nil h)
  refine (Held.refl hs.ready).peek ?_
  split
  · exact hs
  · exact hs
  · next kind hk hnext =>
    obtain ⟨token, rest, hr, rfl⟩ := exists_of_peek hnext
    refine Runs.bind ((hitem state token rest hs.ready hr fun heq => hk (by rw [heq])).conseq
      (fun _ _ hv => hv) fun _ => hs.dropped) fun node after hnode => ?_
    exact ⟨hs.snoc hnode, hnode.length_rest_lt⟩

theorem Gives.counters {nodes : List Placed} (h : reading.Gives declares levels base nodes state) :
    state.depth = base.depth ∧ state.openBlocks = base.openBlocks := by
  obtain ⟨base', read, ahead, hr, hheld⟩ := h
  rw [hheld.depth, hheld.openBlocks, hr.state]
  exact ⟨rfl, rfl⟩

/-- A production that yields a node, one level deeper. -/
theorem nested_yields (h : reading.Ready (levels + 1) base)
    (hp : ∀ state, reading.Ready levels state → state.position = base.position →
      reading.Runs item state (reading.Yields declares slot levels state) (reading.Dropped state)) :
    reading.Runs (nested item) base (reading.Yields declares slot (levels + 1) base)
      (reading.Dropped base) := by
  refine nested_runs h (fun hready => hp _ hready rfl) fun node after hv => ?_
  have ⟨hdepth, hblocks⟩ := hv.gives.counters
  exact ⟨hdepth, hblocks, hv.reframe h⟩

/-- A production that yields some nodes, one level deeper. -/
theorem nested_yieldsAll {items : Parser (List Placed)} (h : reading.Ready (levels + 1) base)
    (hp : ∀ state, reading.Ready levels state → state.position = base.position →
      state.openBlocks = base.openBlocks →
      reading.Runs items state (reading.YieldsAll False slot levels state)
        (reading.Dropped state)) :
    reading.Runs (nested items) base (reading.YieldsAll False slot (levels + 1) base)
      (reading.Dropped base) := by
  refine nested_runs h (fun hready => hp _ hready rfl rfl) fun nodes after hv => ?_
  have ⟨hdepth, hblocks⟩ := hv.1.counters
  exact ⟨hdepth, hblocks, hv.1.reframe h, hv.2⟩

/-- The productions of every level do what they should. -/
theorem levelWith_spec (hreader : reading.Reads reader) :
    reading.Spec levels (levelWith reader levels) := by
  induction levels with
  | zero =>
    have hnone : ∀ {base}, ¬reading.Ready 0 base := fun h => by
      have h1 := h.depth
      have h2 := h.levels
      omega
    exact
      { expression := fun _ h => absurd h hnone
        unary := fun _ h => absurd h hnone
        scalarType := fun _ h => absurd h hnone
        statement := fun _ h => absurd h hnone
        blockItems := fun _ h => absurd h hnone
        cases := fun _ h => absurd h hnone
        arrayLiteral := fun _ h => absurd h hnone }
  | succ levels ih =>
    exact
      { expression := fun _ h => nested_yields h fun _ hs _ => binaryExpression_runs ih hs
        unary := fun _ h => nested_yields h fun _ hs _ => unaryExpression_runs ih hs
        scalarType := fun _ h => nested_yields h fun _ hs _ => scalarType_runs ih hs
        statement := fun _ h _ => nested_yields h fun _ hs _ => statement_runs ih hs
        blockItems := fun base h hpos hopen => nested_yieldsAll h fun state hs hp _ => by
          refine inScope_runs id hs (hp ▸ hpos) fun hs => ?_
          refine blockItemsWith_runs hs fun item token rest hi hr hk => ?_
          exact (hreader levels ih item token rest hi hr hk).conseq (fun _ _ hv => hv)
            fun _ hd => hd.1
        cases := fun _ h _ _ => nested_yieldsAll h fun _ hs _ _ => cases_runs ih hs
        arrayLiteral := fun _ h => nested_yields h fun _ hs _ => arrayLiteral_runs ih hs }

end

end Reading

end OpenQasm.Grammar
