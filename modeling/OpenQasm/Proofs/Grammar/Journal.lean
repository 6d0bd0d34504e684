import OpenQasm.Proofs.Grammar.Postings
import OpenQasm.Proofs.Grammar.Versions

/-!
# Journal

The statements entered one after the other: each leaves the name that it declares, a block leaves
its scope, and so does the program.
-/

namespace OpenQasm.Grammar

/-- A statement that declares nothing. -/
def Nameless (kind : NodeKind NodeId) : Prop := kind.declaredName? = none

namespace Reading

section
variable {α : Type} {reading : Reading} {tree : Tree} {version : Option Version} {levels : Nat}
  {base now after : State} {book : Book} {inner : Level} {token : Token} {rest : List Token}

/-! ## Control flow -/

/-- The scopes of bodies start empty, so nothing is declared twice by them. -/
theorem redeclarations_bodyScopes (tree : Tree) (bodies : List NodeId) :
    (tree.bodyScopes bodies).flatMap (redeclarations []) = [] := by
  simp [Tree.bodyScopes, redeclarations_toList]

/-- A statement without braces is alone in its scope, so it repeats nothing. -/
theorem body_clears (hi : reading.Enters tree version levels inner) :
    reading.Clears tree version levels (body inner) := by
  refine (hi.clears .sees).bind fun braced => .ite (block_clears hi) fun now h => ?_
  refine (h.inScope (fun node : Placed =>
    { names := (Program.declared? tree node.id).toList }) (hi.statement _)).conseq
    fun node after h => ?_
  have hlast : reading.Ledger tree version levels now after {} :=
    h.congr fun _ => ⟨rfl, rfl, by simp [Book.left, redeclarations_toList]⟩
  exact hlast

/-- An if is entered with its bodies. -/
theorem ifStatement_posts (hi : reading.Enters tree version levels inner) :
    reading.Posts tree version levels (ifStatement inner) := by
  intro now h
  refine h.clears (hi.clears .expect) fun token _ h => ?_
  refine h.clears (hi.clears condition_composed) fun condition _ h => ?_
  refine h.clears (body_clears hi) fun thenBranch _ h => ?_
  refine h.clears (hi.clears .accept) fun more _ h => ?_
  refine .ite (fun _ => h.clears (body_clears hi).map fun elseBranch _ h => ?_)
    (fun _ => h.clears .pure fun elseBranch _ h => ?_)
  all_goals
    exact h.endsFrom (awaited_nothing ⟨rfl, rfl⟩ token.span) rfl
      (fun _ => (redeclarations_bodyScopes tree _).symm) (fun _ => rfl) fun _ => rfl

/-- So is a for loop, with its variable in the scope of the body. -/
theorem forStatement_posts (hi : reading.Enters tree version levels inner) :
    reading.Posts tree version levels (forStatement inner) := by
  intro now h
  refine h.expect hi.unfair fun token _ _ h => h.requireAt (.refl _) fun _ h => ?_
  refine h.clears (hi.clears loopType_composed) fun type _ h => ?_
  let scope : Placed × Placed × Placed → Book := fun read =>
    { roots := [read.1], names := read.1.declaration?.toList }
  refine h.part (h.anew.inScope scope fun h => ?_) fun read _ h => ?_
  · refine h.identifier hi.unfair fun var _ h => h.clears (hi.clears .expect) fun _ _ h => ?_
    refine h.clears (hi.clears iterable_composed) fun iterable _ h => h.declare (.refl _)
      fun _ h => ?_
    exact h.clears (body_clears hi) fun body _ h => .pure h
  · obtain ⟨var, iterable, body⟩ := read
    have hpending : Awaited version (.forStmt type var iterable body)
        ([] ++ featureReports version token.span "`for`" ++ []) token.span := by
      rw [List.append_nil]
      exact awaited_feature ⟨rfl, rfl⟩
    refine h.endsFrom hpending rfl (fun hroots => ?_) (fun _ => rfl) fun _ => rfl
    show List.flatMap _ [var.declaration?.toList] =
      List.flatMap _ ((tree.name? var.id).toList :: tree.bodyScopes [body.id])
    rw [List.flatMap_cons, List.flatMap_cons, redeclarations_bodyScopes, redeclarations_toList,
      redeclarations_toList]
    rfl

/-- So is a while loop. -/
theorem whileStatement_posts (hi : reading.Enters tree version levels inner) :
    reading.Posts tree version levels (whileStatement inner) := by
  intro now h
  refine h.expect hi.unfair fun token _ _ h => h.requireAt (.refl _) fun _ h => ?_
  refine h.clears (hi.clears condition_composed) fun condition _ h => ?_
  refine h.clears (body_clears hi) fun body _ h => ?_
  exact h.endsFrom (awaited_feature ⟨rfl, rfl⟩) rfl
    (fun _ => (redeclarations_bodyScopes tree _).symm) (fun _ => rfl) fun _ => rfl

/-- So is a switch. -/
theorem switchStatement_posts (hi : reading.Enters tree version levels inner) :
    reading.Posts tree version levels (switchStatement inner) := by
  intro now h
  refine h.expect hi.unfair fun token _ _ h => h.requireAt (.refl _) fun _ h => ?_
  refine h.clears (hi.clears condition_composed) fun subject _ h => ?_
  refine h.clears (hi.clears .expect) fun _ _ h => ?_
  refine h.clears (hi.readable .cases trivial).blockOpen fun cases _ h => ?_
  refine h.clears (hi.clears .expect) fun _ _ h => ?_
  exact h.endsFrom (awaited_feature ⟨rfl, rfl⟩) rfl (fun _ => rfl) (fun _ => rfl) fun _ => rfl

/-! ## Quantum statements -/

/-- A delay is entered with the report of its version. -/
theorem delay_posts (hi : reading.Enters tree version levels inner) :
    reading.Posts tree version levels (delay inner) := by
  intro now h
  refine h.expect hi.unfair fun token _ _ h => h.clears (hi.clears .expect) fun _ _ h => ?_
  refine h.clears (hi.readable .expression trivial) fun duration _ h => ?_
  refine h.clears (hi.clears .expect) fun _ _ h => ?_
  refine h.clears (hi.clears operands_composed) fun operands _ h => ?_
  refine h.clears (hi.clears .expect) fun _ _ h => h.requireFrom (.refl _) fun span _ h => ?_
  exact h.ends (awaited_feature ⟨rfl, rfl⟩) (fun _ => span.contains_self) (fun _ => rfl)
    (fun _ => rfl) fun _ => rfl

/-- So is a box with its block. -/
theorem boxStatement_posts (hi : reading.Enters tree version levels inner) :
    reading.Posts tree version levels (boxStatement inner) := by
  intro now h
  refine h.expect hi.unfair fun token _ _ h => ?_
  refine h.clears (hi.clears designator_composed) fun duration _ h => ?_
  refine h.clears (block_clears hi) fun body _ h => WhenOk.look rfl ?_
  obtain ⟨hsource, -, hstop⟩ := h.extent token.span List.mem_cons_self
  refine h.requireAt (.refl _) fun _ h => ?_
  refine h.ends (awaited_feature ⟨rfl, rfl⟩) (fun _ => ?_) (fun _ => rfl) (fun _ => rfl)
    fun _ => rfl
  exact Span.contains_iff.2
    ⟨hsource.symm, Nat.le_refl _, Nat.le_trans hstop (Nat.le_max_left _ _)⟩

/-- So is a nop. -/
theorem nop_posts (hi : reading.Enters tree version levels inner)
    (h : reading.Ledger tree version levels now now {}) (hr : now.rest = token :: rest) :
    reading.WhenOk (nop inner) now fun node after => reading.Ledger tree version levels now after
      { names := (Program.declared? tree node.id).toList } := by
  refine WhenOk.look (currentSpan_eq reading.context now) ?_
  rw [hr]
  refine h.advance hi.unfair hr fun _ h => ?_
  refine h.clears (hi.clears operands_composed) fun operands _ h => ?_
  refine h.clears (hi.clears .expect) fun _ _ h => h.requireFrom (.refl _) fun span _ h => ?_
  exact h.ends (awaited_feature ⟨rfl, rfl⟩) (fun _ => span.contains_self) (fun _ => rfl)
    (fun _ => rfl) fun _ => rfl

/-! ## The choice of a statement -/

/-- The version is in force for good where a version statement may be read. -/
theorem versionStatement_clears (hi : reading.Enters tree version levels inner)
    (h : reading.Ledger tree version levels now now {}) (hr : now.rest = token :: rest)
    (hk : token.kind = Keyword.kwVersion) :
    reading.WhenOk versionStatement now fun _ after =>
      reading.Ledger tree version levels now after {} := by
  have hfirst : (now.position == 0) = false := by
    have hsettled := h.settled.settled.resolve_right (by simp [hr, startsWith, hk])
    simpa using Nat.ne_of_gt hsettled
  refine WhenOk.look rfl ?_
  rw [hfirst]
  refine h.clears (hi.clears .expect) fun token _ h => ?_
  refine h.clears (.report rfl rfl) fun _ after h =>
    WhenOk.look (current_eq reading.context after) ?_
  cases after.rest.head? with
  | none => exact .unexpected
  | some number =>
    refine .ite (fun _ => ?_) fun _ => .unexpected
    cases version? number.text with
    | none => exact h.stays .failSyntax
    | some version =>
      refine h.clears (hi.clears .advance) fun _ _ h => h.clears (hi.clears .expect) fun _ _ h => ?_
      exact h.stays (.placeFrom trivial)

/-- A version statement declares no name. -/
theorem versionStatement_makes : Makes Nameless versionStatement := by
  refine .behind fun _ => .behind fun _ => .ite ?_ (.behind fun _ => ?_)
  all_goals
    refine .behind fun next => ?_
    cases next with
    | none => exact .unexpected
    | some number =>
      refine .ite ?_ .unexpected
      cases version? number.text with
      | none => exact fun _ _ _ _ hok => absurd hok failSyntax_ne_ok
      | some version =>
        refine .behind fun _ => .behind fun _ => .ite (.behind fun _ => ?_) ?_
        all_goals exact .placeFrom rfl

/-- What is left by a statement, if nothing is left unless the statement is known to declare
something. -/
def Left (reading : Reading) (tree : Tree) (version : Option Version) (levels : Nat) (now : State)
    (node : Placed) (after : State) : Prop :=
  reading.Ledger tree version levels now after
      { names := (Program.declared? tree node.id).toList } ∨
    reading.Ledger tree version levels now after {} ∧ Nameless node.kind

/-- A parser that leaves nothing waiting and declares no name is entered. -/
theorem Clears.left {parser : Parser Placed} (hc : reading.Clears tree version levels parser)
    (hm : Makes Nameless parser) (h : reading.Ledger tree version levels now now {}) :
    reading.WhenOk parser now (reading.Left tree version levels now) := fun node after hok =>
  .inr ⟨hc now h node after hok, hm reading.context now node after hok⟩

/-- A statement that is entered is left so. -/
theorem Posts.left {parser : Parser Placed} (hp : reading.Posts tree version levels parser)
    (h : reading.Ledger tree version levels now now {}) :
    reading.WhenOk parser now (reading.Left tree version levels now) :=
  (hp now h).conseq fun _ _ hledger => .inl hledger

/-- What starts with a keyword is entered. -/
theorem keywordStart_left (hi : reading.Enters tree version levels inner)
    (h : reading.Ledger tree version levels now now {}) (hr : now.rest = token :: rest)
    {keyword : Keyword} (hk : token.kind = .keyword keyword) :
    reading.WhenOk (keywordStart inner keyword) now (reading.Left tree version levels now) := by
  have hexpression : reading.WhenOk (expressionStatement inner) now
      (reading.Left tree version levels now) :=
    (hi.clears expressionStatement_composed).left (expressionStatement_makes fun _ => rfl) h
  have hjump {kind : NodeKind Placed} (hp : Placeable (· = .inclusion) kind)
      (hn : Nameless (kind.map Placed.id)) :
      reading.WhenOk (jump kind) now (reading.Left tree version levels now) := by
    refine (hi.clears (jump_composed hp)).left ?_ h
    exact .behind fun _ => .behind fun _ => .behind fun _ => .placeFrom hn
  unfold keywordStart
  split
  case h_1 =>
    exact fun node after hok => .inr ⟨versionStatement_clears hi h hr hk node after hok,
      versionStatement_makes reading.context now node after hok⟩
  case h_2 =>
    refine (hi.clears (includeStatement_composed rfl)).left ?_ h
    refine .behind fun _ => .behind fun _ => .ite (.behind fun _ => ?_) ?_
    all_goals exact .behind fun _ => .behind fun _ => .placeFrom rfl
  case h_3 => exact (calibrationGrammar_posts hi).left h
  case h_4 => exact (qubitDecl_posts hi).left h
  case h_5 => exact (registerDecl_posts hi .qreg).left h
  case h_6 => exact (registerDecl_posts hi .creg).left h
  case h_7 => exact (constDecl_posts hi).left h
  case h_8 => exact (ioDecl_posts hi .input).left h
  case h_9 => exact (ioDecl_posts hi .output).left h
  case h_10 => exact (aliasDecl_posts hi).left h
  case h_11 => exact (gateDef_posts hi).left h
  case h_12 => exact (opaqueDecl_posts hi).left h
  case h_13 => exact (subroutineDef_posts hi).left h
  case h_14 => exact (externDecl_posts hi).left h
  case h_15 => exact (cal_posts hi).left h
  case h_16 => exact (defcal_posts hi).left h
  case h_17 => exact (boxStatement_posts hi).left h
  case h_18 | h_19 | h_20 => exact hjump trivial rfl
  case h_21 =>
    refine (hi.clears returnStatement_composed).left ?_ h
    refine .behind fun _ => .behind fun _ => .ite (.behind fun _ => ?_) (.behind fun _ => ?_)
    all_goals exact .behind fun _ => .placeFrom rfl
  case h_22 => exact (ifStatement_posts hi).left h
  case h_23 => exact (forStatement_posts hi).left h
  case h_24 => exact (whileStatement_posts hi).left h
  case h_25 => exact (switchStatement_posts hi).left h
  case h_26 => exact (delay_posts hi).left h
  case h_27 =>
    refine (hi.clears reset_composed).left ?_ h
    exact .behind fun _ => .behind fun _ => .behind fun _ => .placeFrom rfl
  case h_28 =>
    refine (hi.clears barrier_composed).left ?_ h
    exact .behind fun _ => .behind fun _ => .behind fun _ => .behind fun _ => .placeFrom rfl
  case h_29 => exact (nop_posts hi h hr).conseq fun _ _ hledger => .inl hledger
  case h_30 =>
    refine (hi.clears measureStatement_composed).left ?_ h
    refine .behind fun _ => .behind fun _ => .behind fun _ => .ite (.behind fun _ => ?_)
      (.behind fun _ => ?_)
    all_goals exact .behind fun _ => .placeFrom rfl
  case h_36 =>
    refine .ite (fun _ => WhenOk.look rfl (.ite (fun _ => hexpression) fun _ => ?_)) fun _ => ?_
    · exact (classicalDecl_posts hi).left h
    · exact .ite (fun _ => hexpression) fun _ => .unexpected
  all_goals exact (hi.clears gateCall_composed).left (gateCall_makes fun _ _ _ _ _ => rfl) h

/-- A statement that is read leaves the name that it declares. -/
theorem statement_posts (hi : reading.Enters tree version levels inner) :
    reading.Posts tree version levels (statement inner) := by
  intro now h
  have hyields := hi.whenOk statement_composed fun plain hspec => statement_runs hspec h.ready
  have hleft : reading.WhenOk (statement inner) now (reading.Left tree version levels now) := by
    refine WhenOk.look (current_eq reading.context now) ?_
    cases hr : now.rest with
    | nil => exact .unexpected
    | cons token rest =>
      dsimp only [List.head?_cons]
      split
      · next keyword hk => exact keywordStart_left hi h hr hk
      · have hpragma : reading.Clears tree version levels (advance >>= fun _ => pragma token) :=
          (hi.clears .advance).bind fun _ => .place (.inr trivial)
        exact hpragma.left (.behind fun _ => .place rfl) h
      · refine ((hi.clears .advance).bind fun _ => hi.clears annotationLine_composed).left ?_ h
        refine .behind fun _ => ?_
        unfold annotationLine
        exact .place rfl
      · refine (block_clears hi).left ?_ h
        exact .behind fun _ => .behind fun _ => .behind fun _ => .placeFrom rfl
      · refine (hi.clears identifierStart_composed).left (.behind fun _ => ?_) h
        split
        · exact gateCall_makes fun _ _ _ _ _ => rfl
        · exact assignment_makes fun _ _ _ => rfl
        · exact expressionStatement_makes fun _ => rfl
      · refine .ite (fun _ => ?_) fun _ => .unexpected
        exact (hi.clears expressionStatement_composed).left
          (expressionStatement_makes fun _ => rfl) h
  refine (hleft.and hyields).conseq fun node after ⟨hleft, hyielded⟩ => ?_
  refine hleft.elim (fun hledger => hledger) fun ⟨hledger, hnameless⟩ => ?_
  refine { hledger with accounts := fun hi => ?_ }
  have hnone : Program.declared? tree node.id = none := by
    rw [(stands_of_node hi hyielded.node?).declared?,
      show node.kind.declaredName? = none from hnameless]
    rfl
  rw [hnone]
  exact hledger.accounts hi

/-! ## Levels -/

/-- What statements leave that have been read one after the other. -/
def entries (tree : Tree) (items : List Placed) : Book where
  names := (items.map Placed.id).filterMap (Program.declared? tree)

/-- The entries of items are those of each in turn. -/
theorem entries_append (tree : Tree) (items : List Placed) (node : Placed) :
    entries tree items ++ ({ names := (Program.declared? tree node.id).toList } : Book) =
      entries tree (items ++ [node]) := by
  show Book.append (entries tree items) _ = _
  cases hname : Program.declared? tree node.id <;> simp [Book.append, entries, hname]

/-- The statements of a block leave the scope of the block. -/
theorem blockItems_closes {item : Parser Placed} (hp : reading.Posts tree version levels item)
    (h : reading.Ledger tree version levels now now {}) :
    reading.WhenOk (inScope (blockItemsWith item)) now fun items after =>
      reading.Ledger tree version levels now after
        { closed := [(items.map Placed.id).filterMap (Program.declared? tree)] } := by
  refine h.inScope (entries tree) fun h => ?_
  have hstart : reading.Ledger tree version levels (ownScope now) (ownScope now)
    (entries tree []) := h
  refine WhenOk.iterate (fun items state =>
    reading.Ledger tree version levels (ownScope now) state (entries tree items))
    (fun items state h => ?_) hstart
  refine WhenOk.look (show peek _ state = .ok (state.rest.head?.map Token.kind) state from rfl) ?_
  split
  · exact .pure h
  · exact .pure h
  · refine h.part (hp _ h.anew) fun node after h => .pure ?_
    rw [entries_append] at h
    exact h

/-- What the productions of every level enter in a ledger, as long as nothing is recovered from. -/
theorem level_enters (hf : ¬reading.fair) (levels : Nat) :
    reading.Enters tree version levels (levelWith strictReader levels) := by
  induction levels with
  | zero =>
    exact
      { unfair := hf
        subsumed := ⟨level 0, level_spec hf, level_subsumes 0⟩
        readable := fun _ _ _ _ _ _ hok => nomatch hok
        statement := fun _ _ _ _ hok => nomatch hok
        blockItems := fun _ _ _ _ hok => nomatch hok }
  | succ levels ih =>
    exact
      { unfair := hf
        subsumed := ⟨level (levels + 1), level_spec hf, level_subsumes (levels + 1)⟩
        readable := fun production hr => by
          refine Clears.nested ?_
          rw [parseWith_of_ne hr.ne_blockItems]
          exact production_clears ih hr
        statement := fun now h => h.nested (statement_posts ih _)
        blockItems := fun now h => h.nested (blockItems_closes (statement_posts ih)) }

/-! ## Programs -/

/-- What has been entered since a program began, when its version is in force for good. -/
structure Journal (reading : Reading) (tree : Tree) (levels : Nat) (start : State)
    (items : List Placed) (state : State) : Prop where
  ready : reading.Ready levels state
  settled : Settled start.versionAhead state
  onward : reading.Onward start state
  accounts : Into tree state →
    reading.Accounts tree start.versionAhead start state (entries tree items)

/-- A program that does not begin with a version statement has its version from the start. -/
theorem Journal.nil (hr : reading.Ready levels base) (hs : VersionSettled base) :
    reading.Journal tree levels base [] base where
  ready := hr
  settled := by
    refine ⟨?_, hs⟩
    rcases hs with hpos | hfalse
    · exact (State.versionAhead_of_pos hpos).symm
    · refine (State.versionAhead_of_none (statedVersion?_eq_none fun hk => ?_)).symm
      obtain ⟨token, rest, hrest, hkind⟩ := exists_of_peek hk
      rw [hrest] at hfalse
      simp [startsWith, hkind] at hfalse
  onward := .refl base
  accounts := fun _ => .still rfl rfl rfl fun _ => ⟨.nil, fun _ hm => nomatch hm⟩

/-- One more statement is entered. -/
theorem Journal.snoc {items : List Placed} {item : Parser Placed}
    (h : reading.Journal tree levels base items now)
    (hp : reading.Posts tree base.versionAhead levels item) :
    reading.WhenOk item now fun node after =>
      reading.Journal tree levels base (items ++ [node]) after := by
  refine (hp now (.refl h.ready h.settled)).conseq fun node after hledger => ?_
  exact
    { ready := hledger.onward.ready _ h.ready
      settled := hledger.onward.settled _ h.settled
      onward := h.onward.trans hledger.onward
      accounts := fun hi => by
        have ha := (h.accounts (hi.onward hledger.onward)).trans h.onward hledger.onward
          (hledger.accounts hi)
        rwa [entries_append] at ha }

/-- Nothing waits for a node that is not kept track of. -/
theorem Accounts.placed_untracked {kind : NodeKind Placed} {span : Span} {id : NodeId}
    {builder : Builder} (ha : reading.Accounts tree version base now {})
    (ho : reading.Onward base now) (hk : Placeable (· = .inclusion) kind)
    (hpush : now.builder.push (kind.map Placed.id) span = .ok (id, builder))
    (hs : tree.Stands ⟨id, kind.map Placed.id, span⟩) :
    reading.Accounts tree version base { now with builder } {} := by
  obtain ⟨hnoted, hparams, hscopes⟩ := Placeable.untracked tree version (.inr hk)
  have hplaced : reading.Accounts tree version base { now with builder }
      { roots := [⟨id, kind.map Placed.id, span⟩] } := by
    refine ha.placed ho hpush hs ?_ ⟨[], rfl, ?_, fun _ hp => absurd hp List.not_mem_nil⟩
    · rw [Tree.redeclarationsAt, hs.elim [] tree.scopesOf fun _ => rfl, hscopes]
      rfl
    · rw [Tree.notedParameters, hs.elim [] NodeKind.parameters fun _ => rfl, hparams,
        List.filter_singleton, hs.isNoted, NodeKind.isNoted_map, hnoted]
      exact .nil
  exact { hplaced with roots := fun _ hm => absurd hm List.not_mem_nil }

/-- A version statement at the start puts its version in force, and nothing is left of it. -/
theorem Journal.versioned (hf : ¬reading.fair) (hr : reading.Ready levels base)
    (hp : base.position = 0) (hs : ¬VersionSettled base) :
    reading.WhenOk (statement inner) base fun node after =>
      reading.Journal tree levels base [node] after := by
  intro node after hok
  obtain ⟨keyword, ahead, hrest, hkeyword⟩ : ∃ token rest, base.rest = token :: rest ∧
      token.kind = Keyword.kwVersion := startsWith_iff.1 (by simpa [VersionSettled, hp] using hs)
  rw [statement_of_keyword hrest hkeyword] at hok
  obtain ⟨stated, hstated, -⟩ := exists_of_versionStatement_ok hok
  obtain ⟨keyword, number, semicolon, rest, hrest, hkeyword, hnumber, hsemicolon, hversion⟩ :=
    statedVersion?_eq_some.1 hstated
  have hread :=
    (versionStatement_stated hp hrest hkeyword hnumber hsemicolon hversion).symm.trans hok
  let versioned : State := { State.pass 3 base with version := some stated }
  have hversioned : versioned = { base with
      rest, position := 3, previousEnd := semicolon.span.stop, version := some stated } := by
    simp [versioned, State.pass, hrest, hp]
  rw [← hversioned] at hread
  obtain ⟨id, builder, hpush, hnode, rfl⟩ := exists_of_place_ok
    (show place (.versionPragma stated) _ reading.context versioned = .ok node after from hread)
  have hpassed : reading.Onward base (State.pass 3 base) := onward_pass hf hr 3
  have ho : reading.Onward base versioned :=
    { hpassed with
      ready := fun levels h => { hpassed.ready levels h with }
      settled := fun version h => absurd h.settled hs }
  have hlast : reading.Onward versioned { versioned with builder } := onward_push hpush
  have hsettled : VersionSettled { versioned with builder } := .inl (by simp [hversioned])
  refine
    { ready := (ho.trans hlast).ready _ hr
      settled := ⟨?_, hsettled⟩
      onward := ho.trans hlast
      accounts := fun hi => ?_ }
  · rw [← State.stating_eq hstated, State.stating, if_pos hp]
  · have hstands := stands_of_push hpush hi
    have hempty : reading.Accounts tree base.versionAhead base versioned {} := by
      refine .still ?_ ?_ ?_ fun _ => ⟨.nil, fun _ hm => absurd hm List.not_mem_nil⟩
      all_goals rw [hversioned]
    have hnone : Program.declared? tree node.id = none := hnode ▸ hstands.declared?
    have hnothing : entries tree [node] = {} := by simp [entries, hnone]
    rw [hnothing]
    exact hempty.placed_untracked ho (show Placeable _ (.versionPragma stated) from trivial) hpush
      hstands

/-- What is entered for a whole program, as long as nothing is recovered from. -/
theorem strictItems_journal (hf : ¬reading.fair) (hr : reading.Ready levels base)
    (hp : base.position = 0) :
    reading.WhenOk (strictItems (statement (levelWith strictReader levels))) base
      (reading.Journal tree levels base) := by
  -- Before a version statement at the start no version is in force for good.
  let inv (items : List Placed) (state : State) : Prop :=
    (items = [] ∧ state = base ∧ ¬VersionSettled base) ∨
      reading.Journal tree levels base items state
  have hstart : inv [] base := by
    by_cases hs : VersionSettled base
    · exact .inr (.nil hr hs)
    · exact .inl ⟨rfl, rfl, hs⟩
  refine WhenOk.iterate inv (fun items state h => ?_) hstart
  refine WhenOk.look (show peek _ state = .ok (state.rest.head?.map Token.kind) state from rfl) ?_
  split
  · next hnone =>
    refine .pure (h.resolve_left ?_)
    rintro ⟨-, rfl, hs⟩
    exact hs (.inr (startsWith_eq_false (by simp [hnone])))
  · exact fun _ _ hok => nomatch hok
  · refine WhenOk.bind (p := fun node after =>
      reading.Journal tree levels base (items ++ [node]) after)
      ?_ fun node after _ h => .pure (.inr h)
    rcases h with ⟨rfl, rfl, hs⟩ | h
    · exact .versioned hf hr hp hs
    · exact h.snoc (statement_posts (level_enters hf levels))

end

end Reading

end OpenQasm.Grammar
