import OpenQasm.Proofs.Grammar.Atomicity
import OpenQasm.Proofs.Grammar.Completeness
import OpenQasm.Proofs.Grammar.Soundness

/-!
# The table of precedences

Expressions are read as the table of precedences says: what spells a canonical tree is read as that
tree, and what is read as a tree spells it.
-/

namespace OpenQasm.Grammar

/-- Tokens that go on with the expression before them. -/
def Continues (kind : TokenKind) : Prop :=
  (binaryOp? kind).isSome ∨ kind = Symbol.starStar ∨ kind = Symbol.leftBracket ∨
    kind = Symbol.leftParen ∨ kind = Keyword.kwIm

/-- A token that does not continue an expression grips nothing. -/
theorem grip_of_not_continues {kind : TokenKind} (h : ¬Continues kind) : grip kind < 1 := by
  unfold grip
  split
  · exact absurd (.inr (.inl rfl)) h
  · exact absurd (.inr (.inr (.inl rfl))) h
  · exact absurd (.inr (.inr (.inr (.inl rfl)))) h
  · exact absurd (.inr (.inr (.inr (.inr rfl)))) h
  · cases hop : binaryOp? kind with
    | none => decide
    | some op => exact absurd (.inl (by rw [hop]; rfl)) h

/-- What spells a tree of a kind is read as that tree and nothing else, if the token behind it does
not go on with it and the nesting is not too deep. -/
def ReadsSpelled (good : Expr → Prop) (lax : Prop) (context : Context) (levels : Nat)
    (base : State) : Prop :=
  ∀ expr read rest, good expr → expr.Spelled lax context.text read → base.rest = read ++ rest →
    (∀ token ∈ rest.head?, ¬Continues token.kind) →
    base.depth + expr.height < context.options.maxDepth →
    ∃ node after, level levels .expression context base = .ok node after ∧ after.rest = rest ∧
      after.diagnostics = base.diagnostics ∧
      ∀ other : Expr, other.Shown after.builder.nodes node.id ↔ other = expr

/-- What is read as a tree spells it, and the tree is of a kind. -/
def SpellsRead (good : Expr → Prop) (lax : Prop) (context : Context) (levels : Nat)
    (base : State) : Prop :=
  ∀ node after (expr : Expr), level levels .expression context base = .ok node after →
    expr.Shown after.builder.nodes node.id →
    good expr ∧ ∃ read, base.rest = read ++ after.rest ∧ expr.Spelled lax context.text read

section
variable {source : SourceId} {text : List Char} {options : ParseOptions} {levels : Nat}
  {base : State}

/-- No node fails to be placed. -/
theorem level_ne_fault (h : (Reading.ofText source text options).Ready levels base)
    {fault : Fault} {after : State} :
    level levels .expression ⟨source, text, options⟩ base ≠
      .error (.crash (.fault fault)) after := by
  intro heq
  have hspec : (Reading.ofText source text options).Spec levels (level levels) :=
    Reading.level_spec id
  have hruns := hspec.expression base h
  unfold Reading.Runs at hruns
  rw [show level levels .expression (Reading.ofText source text options).context base = _ from heq]
    at hruns
  have hover : Overflows ⟨source, text, options⟩ (startState source text options).rest
    (.fault fault) := hruns
  cases hover

/-- What is spelled by the tokens is read from them. -/
theorem readsSpelled (h : (Reading.ofText source text options).Ready levels base) :
    ReadsSpelled Expr.Canonical True ⟨source, text, options⟩ levels base := by
  intro expr read rest hcanonical hs hr hcloses hroom
  have hlevels : base.depth + levels = options.maxDepth + 1 := h.levels
  have hlevel : ReadsLevel ⟨source, text, options⟩ (level levels) base.depth (expr.height + 1) :=
    level_reads _ (by dsimp only at hroom; omega) (by omega)
  have hreads := hlevel.expression expr base rest
    ⟨rfl, Nat.lt_succ_self _, hcanonical, read, hr, hs⟩
    fun token ht => grip_of_not_continues (hcloses token ht)
  unfold DoesRead Comes at hreads
  split at hreads
  · next node after hok =>
    have hshown := hreads.shown _ (.refl _)
    refine ⟨node, after, hok, hreads.rest, hreads.onward.diagnostics, fun other =>
      ⟨fun hother => hshown.unique hcanonical hother, fun heq => heq ▸ hshown⟩⟩
  · next failure after hfail =>
    obtain ⟨fault, rfl⟩ := hreads
    exact absurd hfail (level_ne_fault h)

/-- What is read is spelled by the tokens. -/
theorem spellsRead (context : Context) :
    SpellsRead Expr.Canonical True context levels base := by
  intro node after expr hok hshown
  have hsound := (level_sound context levels).expression base
  unfold MayRead Comes at hsound
  rw [hok] at hsound
  obtain ⟨-, hcanonical, -, hspelled⟩ := hsound _ (.refl _) expr hshown
  exact ⟨hcanonical, hspelled⟩

/-- Expressions are read exactly by the table of precedences: a canonical tree is read from what
spells it, and a tree that is read is canonical, and is spelled by what is read. -/
theorem expression_precedence (h : (Reading.ofText source text options).Ready levels base) :
    ReadsSpelled Expr.Canonical True ⟨source, text, options⟩ levels base ∧
      SpellsRead Expr.Canonical True ⟨source, text, options⟩ levels base :=
  ⟨readsSpelled h, spellsRead _⟩

end

/-- A name is spelled by its token. -/
theorem spelled_identifier {lax : Prop} {text : List Char} {token : Token} {name : String}
    (hk : token.kind = .identifier) (hname : String.ofList token.text = name) :
    Expr.Spelled lax text (.atom (.identifier name)) [token] := hname ▸ .atom (.identifier hk)

/-- And by nothing longer. -/
theorem length_of_spelled_identifier {lax : Prop} {text : List Char} {name : String}
    {read : List Token} (h : Expr.Spelled lax text (.atom (.identifier name)) read) :
    read.length = 1 := by
  cases h with
  | atom h =>
    cases h
    rfl

/-- A sign before a power is that of the power. -/
theorem expression_precedence_signedPower :
    (Reading.ofText ⟨0⟩ "-a**b;".toList {}).Ready 257 (startState ⟨0⟩ "-a**b;".toList {}) ∧
      ∃ node after, level 257 .expression ⟨⟨0⟩, "-a**b;".toList, {}⟩
          (startState ⟨0⟩ "-a**b;".toList {}) = .ok node after ∧
        after.rest.map Token.kind = [.symbol .semicolon] ∧
        ∀ other : Expr, other.Shown after.builder.nodes node.id ↔ other =
          .unary .neg (.binary .pow (.atom (.identifier "a")) (.atom (.identifier "b"))) := by
  have hready := Reading.ready_startState ⟨0⟩ "-a**b;".toList {}
  have hrest : (startState ⟨0⟩ "-a**b;".toList {}).rest =
      (⟨Symbol.minus, ['-'], ⟨⟨0⟩, 0, 1⟩⟩ :: ([⟨.identifier, ['a'], ⟨⟨0⟩, 1, 2⟩⟩] ++
        ⟨Symbol.starStar, ['*', '*'], ⟨⟨0⟩, 2, 4⟩⟩ :: [⟨.identifier, ['b'], ⟨⟨0⟩, 4, 5⟩⟩])) ++
          [⟨Symbol.semicolon, [';'], ⟨⟨0⟩, 5, 6⟩⟩] := by decide +kernel
  have hcanonical : (Expr.unary .neg
      (.binary .pow (.atom (.identifier "a")) (.atom (.identifier "b")))).Canonical := by
    have hatom {name : String} : (Expr.atom (.identifier name)).Canonical :=
      .atom ⟨trivial, trivial⟩
    exact .unary ⟨Nat.le_refl 11, trivial⟩ (.binary ⟨⟨by decide, by decide⟩, trivial⟩ hatom hatom)
  obtain ⟨node, after, hok, hafter, -, hshown⟩ := (expression_precedence hready).1 _ _ _ hcanonical
    (.unary rfl rfl (.binary (spelled_identifier rfl rfl) rfl rfl (spelled_identifier rfl rfl)))
    hrest (by simp [Continues]; decide) (by decide)
  exact ⟨hready, node, after, hok, by rw [hafter]; rfl, hshown⟩

/-- Ranks alone do not say which trees are read: indices behind an operator are those of its
operand. And a comma may stand behind the last argument of a call, though no tree has one. -/
theorem not_expression_precedence_ordered :
    ¬(∀ source text options levels base, (Reading.ofText source text options).Ready levels base →
      ReadsSpelled (Expr.All Expr.Ordered) False ⟨source, text, options⟩ levels base) ∧
    ¬(∀ source text options levels base, (Reading.ofText source text options).Ready levels base →
      SpellsRead (Expr.All Expr.Ordered) False ⟨source, text, options⟩ levels base) := by
  constructor
  · intro hall
    have hready := Reading.ready_startState ⟨0⟩ "-a[b]".toList {}
    have hrest : (startState ⟨0⟩ "-a[b]".toList {}).rest =
        ((⟨Symbol.minus, ['-'], ⟨⟨0⟩, 0, 1⟩⟩ :: [⟨.identifier, ['a'], ⟨⟨0⟩, 1, 2⟩⟩]) ++
          ⟨Symbol.leftBracket, ['['], ⟨⟨0⟩, 2, 3⟩⟩ :: ([⟨.identifier, ['b'], ⟨⟨0⟩, 3, 4⟩⟩] ++
            [⟨Symbol.rightBracket, [']'], ⟨⟨0⟩, 4, 5⟩⟩])) ++ [] := by decide +kernel
    have hatom {name : String} : (Expr.atom (.identifier name)).All Expr.Ordered := .atom trivial
    have hordered : (Expr.index (.unary .neg (.atom (.identifier "a")))
        [.atom (.identifier "b")]).All Expr.Ordered :=
      .index trivial (.unary (by decide : 11 ≤ 13) hatom) fun item hitem =>
        List.mem_singleton.1 hitem ▸ hatom
    obtain ⟨node, after, hok, -, -, hshown⟩ := hall _ _ _ _ _ hready _ _ _ hordered
      (.index (.unary rfl rfl (spelled_identifier rfl rfl)) rfl
        (.last (spelled_identifier rfl rfl)) rfl) hrest nofun (by decide)
    obtain ⟨hcanonical, -⟩ := spellsRead _ node after _ hok ((hshown _).2 rfl)
    cases hcanonical with
    | index hp => exact absurd hp.2 (by decide : ¬12 ≤ 11)
  · intro hall
    have hready := Reading.ready_startState ⟨0⟩ "f(a,)".toList {}
    have hrest : (startState ⟨0⟩ "f(a,)".toList {}).rest =
        ([⟨.identifier, ['f'], ⟨⟨0⟩, 0, 1⟩⟩] ++ ⟨Symbol.leftParen, ['('], ⟨⟨0⟩, 1, 2⟩⟩ ::
          (([⟨.identifier, ['a'], ⟨⟨0⟩, 2, 3⟩⟩] ++ ⟨Symbol.comma, [','], ⟨⟨0⟩, 3, 4⟩⟩ :: []) ++
            [⟨Symbol.rightParen, [')'], ⟨⟨0⟩, 4, 5⟩⟩])) ++ [] := by decide +kernel
    have hatom {name : String} : (Expr.atom (.identifier name)).Canonical :=
      .atom ⟨trivial, trivial⟩
    have hcanonical : (Expr.call (.atom (.identifier "f")) [.atom (.identifier "a")]).Canonical :=
      .call ⟨trivial, _, rfl⟩ hatom fun arg harg => List.mem_singleton.1 harg ▸ hatom
    obtain ⟨node, after, hok, hafter, -, hshown⟩ := readsSpelled hready _ _ _ hcanonical
      (.call (spelled_identifier rfl rfl) rfl (.cons (spelled_identifier rfl rfl) rfl .nil)
        (fun _ => .inl trivial) rfl) hrest nofun (by decide)
    obtain ⟨-, read, hread, hs⟩ := hall _ _ _ _ _ hready node after _ hok ((hshown _).2 rfl)
    have hlength := congrArg List.length (hrest.symm.trans hread)
    rw [hafter, List.append_nil] at hlength
    cases hs with
    | call hhead _ hargs htrailing =>
      have hhead := length_of_spelled_identifier hhead
      cases hargs with
      | last harg =>
        have harg := length_of_spelled_identifier harg
        simp [hhead, harg] at hlength
      | cons _ _ hmore =>
        cases hmore with
        | nil => exact (htrailing rfl).elim id nofun

end OpenQasm.Grammar
