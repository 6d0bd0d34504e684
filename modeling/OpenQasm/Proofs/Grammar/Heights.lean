import OpenQasm.Proofs.Grammar.Bearings
import OpenQasm.Proofs.Grammar.Precedence

/-!
# Heights of parsed trees

The limit of the depth bounds every way down a parsed tree, if the steps along chains of operators
and of indices are not counted. It does not bound the length of these chains: a sum of many terms is
read on one level, and the first term stands below as many operators as the sum has.
-/

namespace OpenQasm

namespace Grammar

open Reading

/-- Cuts at all offsets, where it does not matter what the text is. -/
def Cuts.anywhere (context : Context) : Cuts := ⟨context, fun _ => True, trivial, trivial⟩

/-- Every token lies somewhere. -/
theorem Cuts.lies_anywhere {source : SourceId} {text : List Char} {options : ParseOptions}
    {token : Token} (h : token ∈ (tokenize source text).1) :
    (Cuts.anywhere ⟨source, text, options⟩).Lies token.span := by
  obtain ⟨hsource, -, hle, -⟩ := (tokenize_inRow source text).mem (List.mem_map_of_mem h)
  exact ⟨hsource, trivial, trivial, hle⟩

/-- No way from the root to a leaf has more nodes than the limit of the depth allows for, the steps
along chains not counted. -/
theorem parse_low : ∃ bound, ∀ source text options output, parse source text options = .ok output →
    ∀ path, output.tree.IsPath path → output.tree.weight path ≤ bound * (options.maxDepth + 1) := by
  refine ⟨19, fun source text options output h path hpath => ?_⟩
  have hcontext : (Cuts.anywhere ⟨source, text, options⟩).context = ⟨source, text, options⟩ := rfl
  have hlow := (Cuts.parse_makes hcontext (fun _ => Cuts.lies_anywhere) h).low
  cases path with
  | nil => exact Nat.zero_le _
  | cons id path =>
    obtain rfl := Option.some.inj hpath.root
    refine Nat.le_trans (Tree.weight_le hlow path hpath.steps) ?_
    show 14 * (options.maxDepth + 1) + 5 ≤ _
    omega

/-! ## Long sums -/

/-- The terms of a sum after the first one. -/
def moreTerms : Nat → List Char
  | 0 => [';']
  | terms + 1 => '+' :: 'a' :: moreTerms terms

/-- The statement that is a sum, of so many terms more than one. -/
def sumText (terms : Nat) : List Char := 'a' :: moreTerms terms

/-- The term of a sum. -/
def term : Expr := .atom (.identifier "a")

/-- So many terms added to a tree. -/
def addTerms : Nat → Expr → Expr
  | 0, sum => sum
  | terms + 1, sum => addTerms terms (.binary .add sum term)

section
variable {terms : Nat} {sum : Expr}

/-- A sum stays canonical with more terms. -/
theorem canonical_addTerms (h : sum.Canonical) (hr : BinaryOp.add.precedence ≤ sum.rank) :
    (addTerms terms sum).Canonical := by
  induction terms generalizing sum with
  | zero => exact h
  | succ terms ih =>
    refine ih (.binary ⟨⟨hr, by decide⟩, trivial⟩ h (.atom ⟨trivial, trivial⟩)) (Nat.le_refl _)

/-- All terms are read on the level of the sum. -/
theorem height_addTerms (h : sum.height = 0) : (addTerms terms sum).height = 0 := by
  induction terms generalizing sum with
  | zero => exact h
  | succ terms ih => exact ih (by simp [Expr.height, h, term])

/-- What a sum was begun with stands below as many nodes as terms were added. -/
theorem exists_path_addTerms {tree : Tree} {id : NodeId}
    (h : (addTerms terms sum).Shown tree.nodes id) :
    ∃ (path : List NodeId) (last : NodeId), path.length = terms + 1 ∧ path.head? = some id ∧
      path.getLast? = some last ∧
      path.IsChain (fun parent child => child ∈ tree.children parent) ∧
      sum.Shown tree.nodes last := by
  induction terms generalizing sum with
  | zero => exact ⟨[id], id, rfl, rfl, rfl, .singleton _, h⟩
  | succ terms ih =>
    obtain ⟨path, last, hlength, hhead, hlast, hsteps, hshown⟩ := ih h
    cases hshown with
    | @binary _ _ _ _ child other span hnode hsum _ =>
      refine ⟨path ++ [child], child, by simp [hlength], ?_, by simp, ?_, hsum⟩
      · rw [List.head?_append, hhead]
        rfl
      · refine hsteps.append (.singleton _) fun parent hp step hs => ?_
        obtain rfl := Option.some.inj (hlast.symm.trans hp)
        obtain rfl := Option.some.inj hs
        rw [Tree.children, show tree.node? last = _ from hnode]
        exact List.mem_cons_self

end

/-! ### Tokens of sums -/

section
variable {lexer last : Lexer} {c : Char} {text : List Char} {kind : TokenKind} {n : Nat}
  {tokens : List Token}

/-- A token that a scan finds is cut off the text ahead, unless more is to be told about it. -/
theorem exists_token_of_scan (lexer : Lexer) (hscan : Token.scan c text = ⟨.token kind, n⟩)
    (hbrace : kind ≠ Symbol.leftBrace) (hstring : kind ≠ .string) :
    ∃ pending, lexer.token c text =
      { lexer with calibrationPending := pending }.cut kind (n + 1) := by
  unfold Lexer.token
  rw [hscan]
  dsimp only
  split
  · next hk => exact absurd (Token.Verdict.token.inj hk) hbrace
  · next hk => exact absurd (Token.Verdict.token.inj hk) hstring
  · next hk =>
    obtain rfl := Token.Verdict.token.inj hk
    exact ⟨_, rfl⟩
  all_goals next hk => cases hk

/-- A lexer that is drained has yielded the token that a scan finds. -/
theorem Drained.exists_of_scan (h : lexer.Drained tokens last) (hr : lexer.rest = c :: text)
    (hs : Token.isSpace c = false) (hscan : Token.scan c text = ⟨.token kind, n⟩)
    (hbrace : kind ≠ Symbol.leftBrace) (hstring : kind ≠ .string) :
    ∃ token more after, tokens = token :: more ∧ Lexer.Drained after more last ∧
      token.kind = kind ∧ token.text = (c :: text).take (n + 1) ∧
      after.rest = (c :: text).drop (n + 1) ∧ after.diagnostics = lexer.diagnostics := by
  have hskip : lexer.skipSpace.rest = c :: text := by
    rw [Lexer.skipSpace, Lexer.rest_advance, Token.drop_run, hr,
      List.dropWhile_cons_of_neg (Bool.eq_false_iff.1 hs)]
  have hnext : lexer.next? = some (lexer.skipSpace.token c text) := by
    unfold Lexer.next?
    dsimp only
    rw [hskip]
  obtain ⟨pending, hcut⟩ := exists_token_of_scan lexer.skipSpace hscan hbrace hstring
  rw [hcut] at hnext
  cases h with
  | stop hnone => cases hnone.symm.trans hnext
  | next hsome hmore =>
    obtain ⟨rfl, rfl⟩ := Prod.mk.inj (Option.some.inj (hsome.symm.trans hnext))
    exact ⟨_, _, _, rfl, hmore, rfl, congrArg (List.take _) hskip,
      congrArg (List.drop _) hskip, rfl⟩

/-- At the end of the text there are no tokens. -/
theorem Drained.nil (h : lexer.Drained tokens last) (hr : lexer.rest = []) :
    tokens = [] ∧ last = lexer := by
  cases h with
  | stop => exact ⟨rfl, rfl⟩
  | next hsome _ =>
    have hnone : lexer.next? = none := by
      unfold Lexer.next?
      rw [Lexer.skipSpace, hr]
      dsimp only
      rw [Lexer.rest_advance, hr, List.drop_nil]
    cases hnone.symm.trans hsome

/-- The tokens of the terms after the first one, and the semicolon behind them. -/
structure Adding (text : List Char) (terms : Nat) (tokens : List Token) : Prop where
  spelled : ∃ read semicolon, tokens = read ++ [semicolon] ∧
    semicolon.kind = .symbol .semicolon ∧
    ∀ sum head, Expr.Spelled True text sum head →
      Expr.Spelled True text (addTerms terms sum) (head ++ read)
  plain : ∀ token ∈ tokens, token.kind.isTrivia = false
  head : ∀ token ∈ tokens.head?, token.kind = Symbol.plus ∨ token.kind = Symbol.semicolon

/-- More terms are drained as plus signs and numbers. -/
theorem Drained.adding {terms : Nat} (hr : lexer.rest = moreTerms terms)
    (h : lexer.Drained tokens last) (text : List Char) :
    Adding text terms tokens ∧ last.diagnostics = lexer.diagnostics := by
  induction terms generalizing lexer tokens with
  | zero =>
    obtain ⟨semicolon, more, after, rfl, hmore, hkind, -, hrest, hreports⟩ :=
      Drained.exists_of_scan h hr (by decide) rfl (by decide) (by decide)
    obtain ⟨rfl, rfl⟩ := Drained.nil hmore hrest
    refine ⟨⟨⟨[], semicolon, rfl, hkind, fun sum head hs => ?_⟩, fun token hm => ?_,
      fun token hm => .inr (Option.some.inj hm ▸ hkind)⟩, hreports⟩
    · rwa [List.append_nil]
    · rw [List.mem_singleton.1 hm, hkind]
      rfl
  | succ terms ih =>
    obtain ⟨plus, more, middle, rfl, hmore, hplus, -, hrest, hreports⟩ :=
      Drained.exists_of_scan h hr (by decide) rfl (by decide) (by decide)
    have hscan : Token.scan 'a' (moreTerms terms) = ⟨.token .identifier, 0⟩ := by
      cases terms <;> rfl
    obtain ⟨operand, more, after, rfl, hmore, hoperand, htext, hrest, hreports'⟩ :=
      Drained.exists_of_scan hmore hrest (by decide) hscan (by decide) (by decide)
    obtain ⟨⟨⟨read, semicolon, rfl, hkind, hspelled⟩, hplain, -⟩, hlast⟩ := ih hrest hmore
    refine ⟨⟨⟨plus :: operand :: read, semicolon, rfl, hkind, fun sum head hs => ?_⟩, ?_,
      fun token hm => .inl (Option.some.inj hm ▸ hplus)⟩, hlast.trans (hreports'.trans hreports)⟩
    · have hname : String.ofList operand.text = "a" := by
        rw [htext]
        rfl
      have hsign : Symbol.plus.text = BinaryOp.add.sign := rfl
      have hadded := hspelled _ _
        (Expr.Spelled.binary hs hplus hsign (spelled_identifier hoperand hname))
      rwa [List.append_assoc] at hadded
    · intro token hm
      rcases List.mem_cons.1 hm with rfl | hm
      · rw [hplus]
        rfl
      · rcases List.mem_cons.1 hm with rfl | hm
        · rw [hoperand]
          rfl
        · exact hplain token hm

/-- A sum is read as a statement of its own, of which every token counts. -/
theorem tokenize_sumText (source : SourceId) (terms : Nat) :
    (tokenize source (sumText terms)).2 = [] ∧
      ∃ first more, (tokenize source (sumText terms)).1 = first :: more ∧
        first.kind = .identifier ∧ String.ofList first.text = "a" ∧
        Adding (sumText terms) terms more := by
  have hscan : Token.scan 'a' (moreTerms terms) = ⟨.token .identifier, 0⟩ := by
    cases terms <;> rfl
  obtain ⟨first, more, after, htokens, hmore, hkind, htext, hrest, hreports⟩ :=
    Drained.exists_of_scan (Lexer.ofText source (sumText terms)).drained_drain rfl (by decide) hscan
      (by decide) (by decide)
  obtain ⟨hadding, hlast⟩ := Drained.adding hrest hmore (sumText terms)
  refine ⟨congrArg Diagnostics.items (hlast.trans hreports), first, more, htokens, hkind, ?_,
    hadding⟩
  rw [htext]
  rfl

end

/-! ### Trees of sums -/

section
variable {context : Context} {state : State} {node : Placed} {rest : List Token} {expr : Expr}
  {inner : Level}

/-- A statement that is a tree has been read. -/
def ShowsStatement (expr : Expr) (node : Placed) (after : State) : Prop :=
  ∃ id span, after.builder.nodes[node.id.index]? = some ⟨.exprStmt id, span⟩ ∧
    ∀ nodes, Extends after.builder.nodes nodes → expr.Shown nodes id

/-- A tree and the semicolon behind it are read as a statement. -/
theorem expressionStatement_reads {semicolon : Token}
    (h : DoesRead context (inner .expression) state (Parsed expr state [semicolon]))
    (hk : semicolon.kind = Symbol.semicolon) :
    DoesRead context (expressionStatement inner) state fun node after =>
      after.rest = [] ∧ ShowsStatement expr node after := by
  refine Comes.currentSpan fun start => Comes.bind h fun node after hparsed => ?_
  refine DoesRead.expect hparsed.rest hk fun after hrest ho => ?_
  refine Comes.placeFrom DoesRead.fault fun placed span last hlast ho' hnode => ?_
  refine ⟨hlast.trans hrest, node.id, span, hnode, fun nodes hn => ?_⟩
  exact hparsed.shown nodes (ho.nodes.trans (ho'.nodes.trans hn))

/-- A statement begins as a sum does. -/
theorem statement_of_sum {first : Token} {more : List Token}
    (hr : state.rest = first :: more) (hk : first.kind = .identifier)
    (hm : ∀ token ∈ more.head?, token.kind = Symbol.plus ∨ token.kind = Symbol.semicolon) :
    statement inner context state = expressionStatement inner context state := by
  have hcurrent : current context state = .ok (some first) state :=
    congrArg (fun next => EStateM.Result.ok next state) (congrArg List.head? hr)
  have hchoice : identifierStatement (state.rest.drop 1) = .expression := by
    rw [hr, List.drop_succ_cons, List.drop_zero]
    cases more with
    | nil => rfl
    | cons next more =>
      unfold identifierStatement
      rcases hm next rfl with hnext | hnext <;> simp [hnext, startsOperand, assignOp?]
  unfold statement
  rw [bind_of_ok hcurrent]
  simp only [hk]
  unfold identifierStart
  rw [get_bind, hchoice]

/-- What is read goes through all that catches stops. -/
theorem attempt_reads {parser : Parser Placed} {post : Placed → State → Prop}
    (h : DoesRead context parser state post) :
    DoesRead context (attempt parser) state fun result after =>
      ∃ node, result = some node ∧ post node after :=
  Comes.attempt (fun ⟨_, heq⟩ => nomatch heq) (h.mono fun node _ hnode => ⟨node, rfl, hnode⟩)

/-- A statement that can be read is. -/
theorem statementOrError_reads {post : Placed → State → Prop}
    (h : DoesRead context (statement inner) state post) :
    DoesRead context (statementOrError inner) state post := by
  refine Comes.currentSpan fun start => Comes.bind (attempt_reads h) fun result after hresult => ?_
  obtain ⟨node, rfl, hnode⟩ := hresult
  exact hnode

/-- A text whose one statement is read is a program of that statement. -/
theorem program_reads {first : Token} {more : List Token} (hr : state.rest = first :: more)
    (hk : first.kind ≠ Symbol.rightBrace)
    (h : DoesRead context (statement (level (context.options.maxDepth + 1))) state fun node after =>
      after.rest = [] ∧ ShowsStatement expr node after) :
    DoesRead context program state fun root after => ∃ stmt span,
      after.builder.nodes[root.id.index]? = some ⟨.program [stmt.id], span⟩ ∧
      ShowsStatement expr stmt after := by
  have hitems : DoesRead context (programItems (level (context.options.maxDepth + 1))) state
      fun items after => ∃ stmt, items = [stmt] ∧ ShowsStatement expr stmt after := by
    refine Comes.iterate DoesRead.stalled (Comes.peek ?_)
    rw [hr]
    dsimp only [List.head?_cons, Option.map_some]
    split
    · next hnone => cases hnone
    · next hbrace => exact absurd (Option.some.inj hbrace) hk
    · refine Comes.bind (attempt_reads (statementOrError_reads h)) fun item after hitem => ?_
      obtain ⟨stmt, rfl, hrest, hshows⟩ := hitem
      refine ⟨by simp [hrest], ?_⟩
      refine Comes.iterate DoesRead.stalled (Comes.peek ?_)
      rw [hrest]
      exact ⟨stmt, rfl, hshows⟩
  have hread : (read : Parser Context) context state = .ok context state := rfl
  refine Comes.of_ok hread (Comes.bind hitems fun items after hlist => ?_)
  obtain ⟨stmt, rfl, id, span, hid, hshown⟩ := hlist
  refine Comes.place DoesRead.fault fun placed last _ _ ho hnode => ?_
  exact ⟨stmt, _, hnode, id, span, ho.nodes _ _ hid,
    fun nodes hn => hshown nodes (ho.nodes.trans hn)⟩

end

section
variable {source : SourceId} {options : ParseOptions} {terms : Nat}

/-- A sum is read as a program of one statement, if one level may be entered. -/
theorem sum_reads (hd : 0 < options.maxDepth) :
    DoesRead ⟨source, sumText terms, options⟩ program
      (startState source (sumText terms) options) fun root after => ∃ stmt span,
        after.builder.nodes[root.id.index]? = some ⟨.program [stmt.id], span⟩ ∧
        ShowsStatement (addTerms terms term) stmt after := by
  obtain ⟨-, first, more, htokens, hkind, hname, ⟨read, semicolon, rfl, hsemicolon, hspelled⟩,
    hplain, hhead⟩ := tokenize_sumText source terms
  have hrest : (startState source (sumText terms) options).rest =
      first :: (read ++ [semicolon]) := by
    show (tokenize source (sumText terms)).1.filter (!·.kind.isTrivia) = _
    rw [htokens, List.filter_eq_self]
    intro token hm
    rcases List.mem_cons.1 hm with rfl | hm
    · rw [hkind]
      rfl
    · rw [hplain token hm]
      rfl
  have hahead : Ahead ⟨source, sumText terms, options⟩ 0 1 (addTerms terms term)
      (startState source (sumText terms) options) [semicolon] :=
    { depth := rfl
      height := by rw [height_addTerms rfl]; exact Nat.one_pos
      canonical := canonical_addTerms (.atom ⟨trivial, trivial⟩) (by decide)
      spelled := ⟨first :: read, hrest, hspelled _ _ (spelled_identifier hkind hname)⟩ }
  have hcloses : Closes 1 [semicolon] := by
    rw [closes_cons, hsemicolon]
    decide
  have hlevel : ReadsLevel ⟨source, sumText terms, options⟩ (level (options.maxDepth + 1)) 0 1 :=
    level_reads _ (Nat.le_add_left 1 _) hd
  refine program_reads hrest (by rw [hkind]; exact nofun) ?_
  unfold DoesRead Comes
  rw [statement_of_sum hrest hkind hhead]
  exact expressionStatement_reads (hlevel.expression _ _ _ hahead hcloses) hsemicolon

/-- The first term of a sum stands below all its operators. -/
theorem parse_sum (hd : 0 < options.maxDepth) : ∃ (output : ParseOutput) (path : List NodeId),
    parse source (sumText terms) options = .ok output ∧ output.tree.IsPath path ∧
      path.length = terms + 3 := by
  have hreads := @sum_reads source options terms hd
  have hcompletes := parse_completes source (sumText terms) options
  unfold DoesRead Comes at hreads
  rw [parse_eq] at *
  split at hreads
  · next root state hprogram =>
    obtain ⟨stmt, span, hroot, id, span', hstmt, hshown⟩ := hreads
    let tree : Tree :=
      { nodes := state.builder.nodes, root := root.id, comments := state.builder.comments }
    have hfinish : state.builder.finish root.id = .ok tree := by
      rw [Builder.finish, Builder.node?, hroot]
    have htree : (addTerms terms term).Shown tree.nodes id := hshown _ (.refl _)
    obtain ⟨path, last, hlength, hhead, hlast, hsteps, hterm⟩ := exists_path_addTerms htree
    have hprogram' : stmt.id ∈ tree.children root.id := by
      rw [Tree.children, show tree.node? root.id = _ from hroot]
      exact List.mem_cons_self
    have hstatement : id ∈ tree.children stmt.id := by
      rw [Tree.children, show tree.node? stmt.id = _ from hstmt]
      exact List.mem_cons_self
    rw [hprogram]
    dsimp only
    rw [hfinish]
    refine ⟨_, root.id :: stmt.id :: path, rfl, ⟨rfl, ?_, fun leaf hm => ?_⟩, by simp [hlength]⟩
    · cases path with
      | nil => cases hhead
      | cons first path =>
        obtain rfl := Option.some.inj hhead
        exact .cons_cons hprogram' (.cons_cons hstatement hsteps)
    · have hleaf : leaf = last := by
        rw [List.getLast?_cons, List.getLast?_cons, hlast] at hm
        exact (Option.some.inj hm).symm
      cases hterm with
      | atom hnode =>
        rw [hleaf, Tree.children, show tree.node? last = _ from hnode]
        rfl
  · next failure state hprogram =>
    obtain ⟨fault, rfl⟩ := hreads
    rw [hprogram] at hcompletes
    rcases hcompletes with ⟨_, _, _, _, hparse, _⟩ | ⟨_, hparse, hover⟩
    · cases hparse
    · cases (parse_of_crash hprogram).symm.trans hparse
      cases hover

end

/-- The limit of the depth bounds no way down if all steps are counted. -/
theorem not_parse_low : ¬∃ bound, ∀ source text options output,
    parse source text options = .ok output → ∀ path, output.tree.IsPath path →
      path.length ≤ bound * (options.maxDepth + 1) := by
  rintro ⟨bound, hall⟩
  obtain ⟨output, path, hparse, hpath, hlength⟩ :=
    @parse_sum ⟨0⟩ { maxDepth := 1 } (2 * bound) Nat.one_pos
  have hle := hall _ _ _ output hparse path hpath
  dsimp only at hle
  omega

end Grammar

end OpenQasm
