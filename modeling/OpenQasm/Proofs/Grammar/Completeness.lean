import OpenQasm.Proofs.Grammar.Canonical
import OpenQasm.Proofs.Grammar.Coming

/-!
# Trees that are spelled

What spells a canonical tree is read as that tree, if the token behind it does not go on with the
expression and the nesting allowed is deep enough.
-/

namespace OpenQasm.Grammar

/-- A parser reads what it should, unless a node cannot be placed. -/
abbrev DoesRead {α : Type} (context : Context) (parser : Parser α) (state : State)
    (post : α → State → Prop) : Prop :=
  Comes (fun failure => ∃ fault, failure = .crash (.fault fault)) context parser state post

/-! ## The token behind an expression -/

/-- How tightly a token goes on with the expression before it: 0 if it does not. -/
def grip : TokenKind → Nat
  | .symbol .starStar => 11
  | .symbol .leftBracket => 12
  | .symbol .leftParen | .keyword .kwIm => 13
  | kind => ((binaryOp? kind).map BinaryOp.precedence).getD 0

/-- The token behind an expression does not go on with it as tightly as that. -/
def Closes (bound : Nat) (rest : List Token) : Prop := ∀ token ∈ rest.head?, grip token.kind < bound

section
variable {bound : Nat} {token : Token} {rest : List Token} {kind : TokenKind}

/-- What closes an expression closes one that binds more tightly. -/
theorem Closes.mono {upper : Nat} (h : Closes bound rest) (hle : bound ≤ upper) :
    Closes upper rest := fun token ht => Nat.lt_of_lt_of_le (h token ht) hle

/-- Only the first token matters for what is closed. -/
theorem closes_cons : Closes bound (token :: rest) ↔ grip token.kind < bound :=
  ⟨fun h => h token rfl, fun h _ ht => Option.some.inj ht ▸ h⟩

/-- A token that would hold on is not ahead. -/
theorem Closes.startsWith (h : Closes bound rest) (hle : bound ≤ grip kind) :
    startsWith kind rest = false := by
  refine Bool.eq_false_iff.2 fun hs => ?_
  obtain ⟨token, rest, rfl, rfl⟩ := startsWith_iff.1 hs
  exact Nat.not_lt.2 hle (closes_cons.1 h)

/-- A binary operator grips as tightly as its precedence says. -/
theorem grip_of_binaryOp {op : BinaryOp} (h : binaryOp? kind = some op) :
    grip kind = op.precedence := by
  unfold binaryOp? at h
  split at h <;> cases h <;> rfl

end

/-! ## The first token of an expression -/

/-- Tokens that begin an expression. -/
def Opens (kind : TokenKind) : Prop := kind = .identifier ∨ startsExpression kind = true

instance (kind : TokenKind) : Decidable (Opens kind) := inferInstanceAs (Decidable (_ ∨ _))

/-- A unary operator opens an expression. -/
theorem opens_of_unaryOp {kind : TokenKind} {op : UnaryOp} (h : unaryOp? kind = some op) :
    Opens kind := by
  unfold unaryOp? at h
  split at h <;> first | exact .inr rfl | cases h

section
variable {text : List Char} {read : List Token}

/-- An atom starts with a token that opens an expression and is no unary operator. -/
theorem Atom.Spelled.opens {atom : Atom} (h : atom.Spelled text read) :
    ∃ token rest, read = token :: rest ∧ Opens token.kind ∧ unaryOp? token.kind = none := by
  cases h with
  | identifier hk | bitstring hk | hardwareQubit hk =>
    refine ⟨_, _, rfl, ?_⟩
    rw [hk]
    decide
  | @constant _ value hk =>
    refine ⟨_, _, rfl, ?_⟩
    rw [hk]
    cases value <;> decide
  | @boolean _ value hk =>
    refine ⟨_, _, rfl, ?_⟩
    rw [hk]
    cases value <;> decide
  | @number token _ _ hk =>
    refine ⟨_, _, rfl, ?_⟩
    unfold numberKind? at hk
    split at hk
    · next hk' => rw [hk']; decide
    · next hk' => rw [hk']; decide
    · next hk' => rw [hk']; decide
    · cases hk
  | imaginary hk =>
    refine ⟨_, _, rfl, ?_⟩
    obtain hk | hk := hk <;> rw [hk] <;> decide

/-- The first token of a tree begins an expression. Where the tree holds together as tightly as a
power, it is a unary operator only if the tree is one. -/
theorem Expr.Canonical.opens {expr : Expr} (h : expr.Canonical)
    (hs : expr.Spelled True text read) :
    ∃ token rest, read = token :: rest ∧ Opens token.kind ∧
      (11 ≤ expr.rank → (∀ op operand, expr ≠ .unary op operand) →
        unaryOp? token.kind = none) := by
  induction h generalizing read with
  | atom =>
    cases hs with
    | atom hs =>
      obtain ⟨token, rest, hr, ho, hu⟩ := hs.opens
      exact ⟨token, rest, hr, ho, fun _ _ => hu⟩
  | paren =>
    cases hs with
    | paren hl => exact ⟨_, _, rfl, hl ▸ by decide, fun _ _ => hl ▸ rfl⟩
  | call hp _ _ ih =>
    obtain ⟨-, name, rfl⟩ := hp
    cases hs with
    | call hs =>
      obtain ⟨token, rest, rfl, ho, hu⟩ := ih hs
      exact ⟨token, _, rfl, ho, fun _ _ => hu (by decide : 11 ≤ 13) nofun⟩
  | index hp _ _ ih =>
    cases hs with
    | index hs =>
      obtain ⟨token, rest, rfl, ho, hu⟩ := ih hs
      have hbase : 12 ≤ _ := hp.2
      exact ⟨token, _, rfl, ho, fun _ _ => hu (by omega) (ne_unary_of_rank hbase)⟩
  | unary =>
    cases hs with
    | unary hk hsign =>
      exact ⟨_, _, rfl, opens_of_unaryOp (hk ▸ unaryOp_of_sign hsign), fun _ hu =>
        absurd rfl (hu _ _)⟩
  | binary hp _ _ ih =>
    cases hs with
    | binary hs =>
      obtain ⟨token, rest, rfl, ho, hu⟩ := ih hs
      refine ⟨token, _, rfl, ho, fun hrank _ => ?_⟩
      obtain rfl := BinaryOp.eq_pow hrank
      have hbase : 12 ≤ _ := hp.1.1
      exact hu (by omega) (ne_unary_of_rank hbase)

end

/-! ## Trees ahead -/

/-- What is ahead, up to some last tokens, spells a canonical tree that is not too deep. -/
structure Ahead (context : Context) (depth room : Nat) (expr : Expr) (state : State)
    (rest : List Token) : Prop where
  depth : state.depth = depth
  height : expr.height < room
  canonical : expr.Canonical
  spelled : ∃ read, state.rest = read ++ rest ∧ expr.Spelled True context.text read

/-- What is ahead has been read as a tree. -/
structure Parsed (expr : Expr) (base : State) (rest : List Token) (node : Placed) (after : State) :
    Prop where
  rest : after.rest = rest
  onward : Onward base after
  shown : ∀ nodes, Extends after.builder.nodes nodes → expr.Shown nodes node.id

/-- What is ahead has been read as some trees. -/
structure ParsedAll (exprs : List Expr) (base : State) (rest : List Token) (items : List Placed)
    (after : State) : Prop where
  rest : after.rest = rest
  onward : Onward base after
  shown : ∀ nodes, Extends after.builder.nodes nodes →
    List.Forall₂ (Expr.Shown nodes) exprs (items.map Placed.id)

/-- The productions of one level read the trees that are not too deep for it. -/
structure ReadsLevel (context : Context) (inner : Level) (depth room : Nat) : Prop where
  expression : ∀ expr state rest, Ahead context depth room expr state rest → Closes 1 rest →
    DoesRead context (inner .expression) state (Parsed expr state rest)
  unary : ∀ expr state rest, Ahead context depth room expr state rest → 11 ≤ expr.rank →
    Closes 11 rest → DoesRead context (inner .unary) state (Parsed expr state rest)

namespace DoesRead

variable {α β : Type} {context : Context} {state : State} {kind : TokenKind} {token : Token}
  {rest : List Token} {post : β → State → Prop}

/-- A fault of the builder is among the faults. -/
theorem fault (fault : Fault) : ∃ other, Stop.crash (.fault fault) = .crash (.fault other) :=
  ⟨fault, rfl⟩

/-- A parser that stalls has met no fault of the builder. -/
theorem stalled : ¬∃ fault, Stop.crash .stalled = .crash (.fault fault) := fun ⟨_, h⟩ => nomatch h

/-- A token that is there. -/
theorem expect {next : Token → Parser β} (hr : state.rest = token :: rest) (hk : token.kind = kind)
    (hn : ∀ after, after.rest = rest → Onward state after →
      DoesRead context (next token) after post) :
    DoesRead context (Grammar.expect kind >>= next) state post :=
  Comes.of_ok (expect_ok_iff.2 ⟨rest, hr, hk, rfl⟩) (hn _ (rest_pass hr) (onward_pass 1 state))

/-- A choice by a token that is there. -/
theorem accept {yes no : Parser β} (hr : state.rest = token :: rest) (hk : token.kind = kind)
    (hn : ∀ after, after.rest = rest → Onward state after → DoesRead context yes after post) :
    DoesRead context (Grammar.accept kind >>= fun seen => if seen = true then yes else no) state
      post := by
  refine Comes.accept (fun _ rest' after hr' _ hrest ho => ?_) fun hs => ?_
  · obtain ⟨rfl, rfl⟩ := List.cons.inj (hr.symm.trans hr')
    exact hn after hrest ho
  · cases hs.symm.trans (startsWith_iff.2 ⟨token, rest, hr, hk⟩)

/-- A choice by a token that is not there. -/
theorem refuse {yes no : Parser β} (hs : startsWith kind state.rest = false)
    (hn : DoesRead context no state post) :
    DoesRead context (Grammar.accept kind >>= fun seen => if seen = true then yes else no) state
      post := by
  refine Comes.accept (fun token rest after hr hk _ _ => ?_) fun _ => hn
  cases hs.symm.trans (startsWith_iff.2 ⟨token, rest, hr, hk⟩)

/-- A token that is not ahead is not seen. -/
theorem unseen {yes no : Parser β} (hs : startsWith kind state.rest = false)
    (hn : DoesRead context no state post) :
    DoesRead context (Grammar.sees kind >>= fun seen => if seen = true then yes else no) state
      post := by
  refine Comes.sees (fun token rest hr hk => ?_) fun _ => hn
  cases hs.symm.trans (startsWith_iff.2 ⟨token, rest, hr, hk⟩)

end DoesRead

section
variable {context : Context} {base state after : State} {node : Placed} {items : List Placed}
  {expr : Expr} {exprs : List Expr} {depth room : Nat} {rest : List Token}

/-- What is read one level deeper is read on the level before. -/
theorem Parsed.shallower
    (h : Parsed expr { state with depth := state.depth + 1 } rest node after) :
    Parsed expr state rest node { after with depth := after.depth - 1 } where
  rest := h.rest
  onward := ⟨by simp [h.onward.depth], h.onward.diagnostics, h.onward.nodes⟩
  shown := h.shown

/-- Nothing of what is read can be skipped. -/
theorem Ahead.not_startsWith {kind : TokenKind} (h : Ahead context depth room expr state rest)
    (hk : ¬Opens kind) : startsWith kind state.rest = false := by
  obtain ⟨read, hr, hs⟩ := h.spelled
  obtain ⟨token, more, rfl, ho, -⟩ := h.canonical.opens hs
  refine Bool.eq_false_iff.2 fun hs => ?_
  obtain ⟨token', rest', hr', rfl⟩ := startsWith_iff.1 hs
  obtain ⟨rfl, -⟩ := List.cons.inj (hr.symm.trans hr')
  exact hk ho

/-! ## Atoms -/

/-- The node of an atom is placed. -/
theorem place_reads {atom : Atom} {kind : NodeKind Placed} {span : Span} (hr : state.rest = rest)
    (ho : Onward base state) (hk : kind.map Placed.id = atom.kind) :
    DoesRead context (place kind span) state (Parsed (.atom atom) base rest) := by
  refine Comes.place DoesRead.fault fun placed after _ hrest hon hnode => ?_
  exact ⟨hrest.trans hr, ho.trans hon, fun nodes hext => .atom (hk ▸ hext _ _ hnode)⟩

/-- An identifier is read as the name that it spells. -/
theorem identifier_reads {token : Token} (hr : state.rest = token :: rest)
    (hk : token.kind = .identifier) :
    DoesRead context identifier state
      (Parsed (.atom (.identifier (String.ofList token.text))) state rest) := by
  refine DoesRead.expect hr hk fun middle hmiddle ho => ?_
  exact place_reads hmiddle ho rfl

/-- A literal is read if its text can be. -/
theorem literal_reads {text : List Char} {kind : LiteralKind} {span : Span} {value : Literal}
    (hr : state.rest = rest) (ho : Onward base state)
    (hvalue : Literal.read text kind = .ok value) :
    DoesRead context (literal text span kind) state
      (Parsed (.atom (.literal value)) base rest) := by
  unfold literal
  rw [hvalue]
  exact place_reads hr ho rfl

/-- A number is read with nothing behind it that belongs to it. -/
theorem number_reads {token : Token} {kind : LiteralKind} {value : Literal} (hr : state.rest = rest)
    (ho : Onward base state) (hk : numberKind? token = some kind)
    (hvalue : Literal.read token.text kind = .ok value) (hc : Closes 13 rest) :
    DoesRead context (number token) state (Parsed (.atom (.literal value)) base rest) := by
  have hsingle : DoesRead context (number.single token) state
      (Parsed (.atom (.literal value)) base rest) := by
    unfold numberKind? at hk
    unfold number.single
    split at hk
    · next hkind =>
      cases hk
      rw [hkind]
      exact literal_reads hr ho hvalue
    · next hkind =>
      cases hk
      rw [hkind]
      exact literal_reads hr ho hvalue
    · next hkind =>
      cases hk
      rw [hkind]
      exact literal_reads hr ho hvalue
    · cases hk
  unfold number
  refine Comes.current ?_
  split
  · next unit hunit =>
    split
    · next hm =>
      simp only [Bool.and_eq_true, beq_iff_eq] at hm
      have := hc unit (hr ▸ hunit)
      rw [hm.2] at this
      cases Nat.lt_irrefl _ this
    · exact hsingle
  · exact hsingle

/-- A number is read with the `im` behind it. -/
theorem imaginary_reads {token unit : Token} {value : Literal} (hr : state.rest = unit :: rest)
    (ho : Onward base state) (hk : token.kind = .integer ∨ token.kind = .float)
    (hunit : unit.kind = .keyword .kwIm)
    (hvalue : Literal.read ((Text.slice? context.text token.span.start unit.span.stop).getD [])
      .imaginary = .ok value) :
    DoesRead context (number token) state (Parsed (.atom (.literal value)) base rest) := by
  unfold number
  refine Comes.current ?_
  rw [hr, List.head?_cons]
  dsimp only
  rw [if_pos (by simpa [hunit] using hk)]
  exact Comes.advance hr fun after hafter hon => literal_reads hafter (ho.trans hon) hvalue

/-! ## Lists -/

/-- A parser reads a tree before a comma or a closing symbol. -/
def ReadsBefore (context : Context) (item : Parser Placed) (close : Symbol) (depth room : Nat)
    (expr : Expr) : Prop :=
  ∀ state token rest, token.kind = .symbol .comma ∨ token.kind = .symbol close →
    Ahead context depth room expr state (token :: rest) →
    DoesRead context item state (Parsed expr state (token :: rest))

/-- No expressions are read before the first. -/
theorem ParsedAll.nil (hr : state.rest = rest) : ParsedAll [] state rest [] state :=
  ⟨hr, .refl _, fun _ _ => .nil⟩

/-- One more expression is read behind the others. -/
theorem ParsedAll.snoc {more : List Token} (h : ParsedAll exprs base more items state)
    {middle : State} (ho : Onward state middle) (hn : Parsed expr middle rest node after) :
    ParsedAll (exprs ++ [expr]) base rest (items ++ [node]) after := by
  refine ⟨hn.rest, (h.onward.trans ho).trans hn.onward, fun nodes hext => ?_⟩
  rw [List.map_append]
  exact List.rel_append (h.shown nodes ((ho.trans hn.onward).nodes.trans hext))
    (.cons (hn.shown nodes hext) .nil)

/-- What has been read stays read when the parser goes on. -/
theorem ParsedAll.onwards {more : List Token} (h : ParsedAll exprs base more items state)
    (hr : after.rest = rest) (ho : Onward state after) : ParsedAll exprs base rest items after :=
  ⟨hr, h.onward.trans ho, fun nodes hext => h.shown nodes (ho.nodes.trans hext)⟩

/-- Items separated by commas, behind those that have been read. -/
def separatedFrom {α : Type} (close : Symbol) (item : Parser α) (items : List α) :
    Parser (List α) :=
  iterate
    (fun items => do
      if ← sees close then return .done items
      let items := items ++ [← item]
      if ← accept Symbol.comma then return .again items else return .done items)
    items

/-- A list with commas is read from an empty one on. -/
theorem separated_eq {α : Type} (close : Symbol) (item : Parser α) :
    separated close item = separatedFrom close item [] := rfl

/-- Items behind each other, behind those that have been read. -/
def joinedFrom {α : Type} (separator : Symbol) (item : Parser α) (items : List α) :
    Parser (List α) :=
  iterate
    (fun items => do
      if ← accept separator then return .again (items ++ [← item]) else return .done items)
    items

/-- A row with separators is read from its first element on. -/
theorem joined_eq {α : Type} (separator : Symbol) (item : Parser α) :
    joined separator item = item >>= fun first => joinedFrom separator item [first] := rfl

section
variable {item : Parser Placed} {close : Symbol} {closer : Token} {trailing : Bool}
  {tokens read : List Token} {front : List Expr}

/-- A list with commas is read up to its closing bracket. -/
theorem separatedFrom_reads (hclose : ¬Opens (.symbol close)) (hne : close ≠ .comma)
    (hk : closer.kind = .symbol close)
    (hs : Separated (Expr.Spelled True context.text) trailing exprs tokens)
    (hall : ∀ expr ∈ exprs, expr.height < room ∧ expr.Canonical)
    (hitem : ∀ expr, ReadsBefore context item close depth room expr)
    (hd : state.depth = depth) (h : ParsedAll front base (tokens ++ closer :: rest) items state) :
    DoesRead context (separatedFrom close item items) state
      (ParsedAll (front ++ exprs) base (closer :: rest)) := by
  induction hs generalizing front items state with
  | nil =>
    rw [List.append_nil]
    refine Comes.iterate DoesRead.stalled (Comes.sees (fun _ _ _ _ => h) fun hs => ?_)
    cases hs.symm.trans (startsWith_iff.2 ⟨closer, rest, h.rest, hk⟩)
  | @last expr tokens hs =>
    obtain ⟨hheight, hcanonical⟩ := hall expr (.head _)
    have hahead : Ahead context depth room expr state (closer :: rest) :=
      ⟨hd, hheight, hcanonical, tokens, h.rest, hs⟩
    refine Comes.iterate DoesRead.stalled (DoesRead.unseen (hahead.not_startsWith hclose) ?_)
    refine (hitem expr state closer rest (.inr hk) hahead).bind fun node after hnode => ?_
    refine DoesRead.refuse ?_ (h.snoc (.refl _) hnode)
    simpa [hnode.rest, startsWith, hk] using hne
  | @cons trailing expr exprs tokens more comma hs hcomma _ ih =>
    obtain ⟨hheight, hcanonical⟩ := hall expr (.head _)
    have hr : state.rest = tokens ++ comma :: (more ++ closer :: rest) := by simp [h.rest]
    have hahead : Ahead context depth room expr state (comma :: (more ++ closer :: rest)) :=
      ⟨hd, hheight, hcanonical, tokens, hr, hs⟩
    refine Comes.iterate DoesRead.stalled (DoesRead.unseen (hahead.not_startsWith hclose) ?_)
    refine (hitem expr state comma _ (.inl hcomma) hahead).bind fun node read hnode => ?_
    refine DoesRead.accept hnode.rest hcomma fun after hafter ho => ⟨?_, ?_⟩
    · simp [hafter, hr]
      omega
    · rw [List.append_cons front]
      exact ih (fun expr hexpr => hall expr (.tail _ hexpr))
        ((ho.depth.trans hnode.onward.depth).trans hd)
        ((h.snoc (.refl _) hnode).onwards hafter ho)

/-- Trees separated by commas before a closing symbol. -/
theorem separated_reads (hclose : ¬Opens (.symbol close)) (hne : close ≠ .comma)
    (hk : closer.kind = .symbol close)
    (hs : Separated (Expr.Spelled True context.text) trailing exprs tokens)
    (hall : ∀ expr ∈ exprs, expr.height < room ∧ expr.Canonical)
    (hitem : ∀ expr, ReadsBefore context item close depth room expr)
    (hd : base.depth = depth) (hr : base.rest = tokens ++ closer :: rest) :
    DoesRead context (separated close item) base (ParsedAll exprs base (closer :: rest)) := by
  rw [separated_eq]
  exact separatedFrom_reads hclose hne hk hs hall hitem hd (.nil hr)

/-- No comma follows the last item. -/
theorem joinedFrom_ends (hne : close ≠ .comma) (hk : closer.kind = .symbol close)
    (h : ParsedAll exprs base (closer :: rest) items state) :
    DoesRead context (joinedFrom Symbol.comma item items) state
      (ParsedAll exprs base (closer :: rest)) := by
  refine Comes.iterate DoesRead.stalled (DoesRead.refuse ?_ h)
  simpa [h.rest, startsWith, hk] using hne

/-- A row is read up to the bracket behind it. -/
theorem joinedFrom_reads (hne : close ≠ .comma) (hk : closer.kind = .symbol close)
    {comma : Token} (hcomma : comma.kind = .symbol .comma) (ht : trailing = false)
    (hs : Separated (Expr.Spelled True context.text) trailing exprs tokens)
    (hall : ∀ expr ∈ exprs, expr.height < room ∧ expr.Canonical)
    (hitem : ∀ expr, ReadsBefore context item close depth room expr)
    (hd : state.depth = depth)
    (h : ParsedAll front base (comma :: (tokens ++ closer :: rest)) items state) :
    DoesRead context (joinedFrom Symbol.comma item items) state
      (ParsedAll (front ++ exprs) base (closer :: rest)) := by
  induction hs generalizing front items state comma with
  | nil => cases ht
  | @last expr tokens hs =>
    obtain ⟨hheight, hcanonical⟩ := hall expr (.head _)
    refine Comes.iterate DoesRead.stalled ?_
    refine DoesRead.accept h.rest hcomma fun opened hopened ho => ?_
    refine (hitem expr opened closer rest (.inr hk)
      ⟨ho.depth.trans hd, hheight, hcanonical, tokens, hopened, hs⟩).bind fun node after hnode => ?_
    refine ⟨?_, joinedFrom_ends hne hk (h.snoc ho hnode)⟩
    simp only [hnode.rest, h.rest, List.length_cons, List.length_append]
    omega
  | @cons trailing expr exprs tokens more next hs hnext _ ih =>
    obtain ⟨hheight, hcanonical⟩ := hall expr (.head _)
    refine Comes.iterate DoesRead.stalled ?_
    refine DoesRead.accept h.rest hcomma fun opened hopened ho => ?_
    refine (hitem expr opened next (more ++ closer :: rest) (.inl hnext)
      ⟨ho.depth.trans hd, hheight, hcanonical, tokens, by simp [hopened], hs⟩).bind
      fun node after hnode => ⟨?_, ?_⟩
    · simp only [hnode.rest, h.rest, List.length_cons, List.length_append]
      omega
    · rw [List.append_cons front]
      exact ih hnext ht (fun expr hexpr => hall expr (.tail _ hexpr))
        ((hnode.onward.depth.trans ho.depth).trans hd) (h.snoc ho hnode)

/-- One tree or more with commas between them. -/
theorem joined_reads (hne : close ≠ .comma) (hk : closer.kind = .symbol close)
    (hs : Separated (Expr.Spelled True context.text) false exprs tokens)
    (hall : ∀ expr ∈ exprs, expr.height < room ∧ expr.Canonical)
    (hitem : ∀ expr, ReadsBefore context item close depth room expr)
    (hd : base.depth = depth) (hr : base.rest = tokens ++ closer :: rest) :
    DoesRead context (joined Symbol.comma item) base (ParsedAll exprs base (closer :: rest)) := by
  rw [joined_eq]
  cases hs with
  | @last expr _ hs =>
    obtain ⟨hheight, hcanonical⟩ := hall expr (.head _)
    refine (hitem expr base closer rest (.inr hk) ⟨hd, hheight, hcanonical, _, hr, hs⟩).bind
      fun node after hnode => joinedFrom_ends hne hk ?_
    exact (ParsedAll.nil hr).snoc (.refl _) hnode
  | @cons _ expr exprs tokens more comma hs hcomma hmore =>
    obtain ⟨hheight, hcanonical⟩ := hall expr (.head _)
    refine (hitem expr base comma (more ++ closer :: rest) (.inl hcomma)
      ⟨hd, hheight, hcanonical, tokens, by simp [hr], hs⟩).bind fun node after hnode => ?_
    exact joinedFrom_reads hne hk hcomma rfl hmore (fun expr hexpr => hall expr (.tail _ hexpr))
      hitem (hnode.onward.depth.trans hd) ((ParsedAll.nil hr).snoc (.refl _) hnode)

end

/-! ## Brackets -/

section
variable {inner : Level} {tokens : List Token} {left right : Token} {args : List Expr}
  {trailing : Bool}

/-- Each of several expressions is as high as all of them at most. -/
theorem heightAll_lt {exprs : List Expr} (h : Expr.heightAll exprs < room + 1) :
    ∀ expr ∈ exprs, expr.height < room := by
  induction exprs with
  | nil => exact fun _ h => (List.not_mem_nil h).elim
  | cons first exprs ih =>
    rw [Expr.heightAll] at h
    intro expr hexpr
    cases hexpr with
    | head => omega
    | tail _ hexpr => exact ih (by omega) expr hexpr

/-- An expression is read where the levels below read theirs. -/
theorem expression_reads (hi : ReadsLevel context inner depth room) {close : Symbol}
    (hg : grip (.symbol close) = 0) (expr : Expr) :
    ReadsBefore context (expression inner) close depth room expr := by
  intro state token rest hk hahead
  refine hi.expression expr state _ hahead (closes_cons.2 ?_)
  obtain hk | hk := hk
  · rw [hk]
    decide
  · rw [hk, hg]
    decide

/-- So is an index. -/
theorem indexItem_reads (hi : ReadsLevel context inner depth room) (expr : Expr) :
    ReadsBefore context (indexItem inner) .rightBracket depth room expr := by
  intro state token rest hk hahead
  refine DoesRead.unseen (hahead.not_startsWith (by decide)) ?_
  refine Comes.currentSpan fun span => ?_
  refine DoesRead.unseen (hahead.not_startsWith (by decide)) ?_
  refine (expression_reads hi rfl expr state token rest hk hahead).bind fun node after hnode => ?_
  refine DoesRead.unseen ?_ hnode
  obtain hk | hk := hk <;> simp [hnode.rest, startsWith, hk]

/-- The items behind what is indexed. -/
theorem indexed_reads (hi : ReadsLevel context inner depth room)
    (hr : state.rest = left :: (tokens ++ right :: rest)) (hl : left.kind = .symbol .leftBracket)
    (hk : right.kind = .symbol .rightBracket)
    (hs : Separated (Expr.Spelled True context.text) false exprs tokens)
    (hall : ∀ expr ∈ exprs, expr.height < room ∧ expr.Canonical) (hd : state.depth = depth)
    {more : List Token} (h : Parsed expr base more node state) :
    DoesRead context (indexed inner node) state (Parsed (.index expr exprs) base rest) := by
  refine DoesRead.expect hr hl fun opened hopened ho => ?_
  refine (joined_reads (by decide) hk hs hall (indexItem_reads hi) (ho.depth.trans hd)
    hopened).bind fun items read hitems => ?_
  refine DoesRead.expect hitems.rest hk fun closed hclosed hon => ?_
  refine Comes.placeFrom DoesRead.fault fun placed span after hafter hon' hnode => ?_
  have hread := hon.trans hon'
  have hgone := ho.trans (hitems.onward.trans hread)
  refine ⟨hafter.trans hclosed, h.onward.trans hgone, fun nodes hext => ?_⟩
  exact .index (hext _ _ hnode) (h.shown nodes (hgone.nodes.trans hext))
    (hitems.shown nodes (hread.nodes.trans hext))

/-! ## Expressions without operators -/

/-- An atom, which is not a call or a number with a unit. -/
theorem atom_reads {atom : Atom} (hs : atom.Spelled context.text tokens)
    (hr : state.rest = tokens ++ rest) (hc : Closes 13 rest) :
    DoesRead context (primary inner) state (Parsed (.atom atom) state rest) := by
  have hleaf {token : Token} {kind : NodeKind Placed} {span : Span}
      (hr : state.rest = token :: rest) (hk : kind.map Placed.id = atom.kind) :
      DoesRead context (advance >>= fun _ => place kind span) state
        (Parsed (.atom atom) state rest) :=
    Comes.advance hr fun after hafter ho => place_reads hafter ho hk
  refine Comes.current ?_
  rw [hr]
  unfold primaryAt
  cases hs with
  | @identifier token hk =>
    simp only [List.cons_append, List.nil_append, List.head?_cons, hk]
    refine (identifier_reads hr hk).bind fun callee after h => DoesRead.refuse ?_ h
    exact h.rest ▸ hc.startsWith (by decide)
  | @constant token value hk =>
    simp only [List.cons_append, List.nil_append, List.head?_cons, hk]
    cases value <;> exact hleaf hr rfl
  | @boolean token value hk =>
    simp only [List.cons_append, List.nil_append, List.head?_cons, hk]
    cases value <;> exact hleaf hr rfl
  | @bitstring token hk =>
    simp only [List.cons_append, List.nil_append, List.head?_cons, hk]
    exact hleaf hr rfl
  | @hardwareQubit token number hk hnumber =>
    simp only [List.cons_append, List.nil_append, List.head?_cons, hk]
    refine Comes.advance hr fun after hafter ho => ?_
    unfold hardwareQubit
    rw [hnumber]
    exact place_reads hafter ho rfl
  | @number token kind value hk hvalue =>
    have hnumber : DoesRead context (advance >>= fun _ => number token) state
        (Parsed (.atom (.literal value)) state rest) :=
      Comes.advance hr fun after hafter ho => number_reads hafter ho hk hvalue hc
    unfold numberKind? at hk
    simp only [List.cons_append, List.nil_append, List.head?_cons]
    split at hk
    · next hkind => rwa [hkind]
    · next hkind => rwa [hkind]
    · next hkind => rwa [hkind]
    · cases hk
  | @imaginary token unit value hk hunit hvalue =>
    have hnumber : DoesRead context (advance >>= fun _ => number token) state
        (Parsed (.atom (.literal value)) state rest) :=
      Comes.advance hr fun after hafter ho => imaginary_reads hafter ho hk hunit hvalue
    simp only [List.cons_append, List.nil_append, List.head?_cons]
    obtain hk | hk := hk <;> rwa [hk]

/-- A tree between parentheses. -/
theorem paren_reads (hi : ReadsLevel context inner depth room)
    (hr : state.rest = left :: (tokens ++ right :: rest)) (hl : left.kind = .symbol .leftParen)
    (hk : right.kind = .symbol .rightParen) (hd : state.depth = depth)
    (hcanonical : expr.Canonical) (hheight : expr.height < room)
    (hs : expr.Spelled True context.text tokens) :
    DoesRead context (primary inner) state (Parsed (.paren expr) state rest) := by
  refine Comes.current ?_
  rw [hr]
  unfold primaryAt
  simp only [List.head?_cons, hl]
  refine Comes.advance hr fun opened hopened ho => ?_
  refine (hi.expression expr opened (right :: rest) ⟨ho.depth.trans hd, hheight, hcanonical, tokens,
    hopened, hs⟩ (closes_cons.2 (hk ▸ by decide))).bind fun node read hread => ?_
  refine DoesRead.expect hread.rest hk fun closed hclosed hon => ?_
  refine Comes.placeFrom DoesRead.fault fun placed span after hafter hon' hnode => ?_
  have hgone := hon.trans hon'
  refine ⟨hafter.trans hclosed, ho.trans (hread.onward.trans hgone), fun nodes hext => ?_⟩
  exact .paren (hext _ _ hnode) (hread.shown nodes (hgone.nodes.trans hext))

/-- A call with its arguments. -/
theorem call_reads (hi : ReadsLevel context inner depth room) {token : Token}
    (hr : state.rest = token :: left :: (tokens ++ right :: rest))
    (hname : token.kind = .identifier) (hl : left.kind = .symbol .leftParen)
    (hk : right.kind = .symbol .rightParen)
    (hd : state.depth = depth) (hall : ∀ arg ∈ args, arg.height < room ∧ arg.Canonical)
    (hs : Separated (Expr.Spelled True context.text) trailing args tokens) :
    DoesRead context (primary inner) state
      (Parsed (.call (.atom (.identifier (String.ofList token.text))) args) state rest) := by
  refine Comes.current ?_
  rw [hr]
  unfold primaryAt
  simp only [List.head?_cons, hname]
  refine (identifier_reads hr hname).bind fun node named hnamed => ?_
  refine DoesRead.accept hnamed.rest hl fun opened hopened ho => ?_
  refine (separated_reads (by decide) (by decide) hk hs hall (expression_reads hi rfl)
    ((ho.depth.trans hnamed.onward.depth).trans hd) hopened).bind fun items read hitems => ?_
  refine DoesRead.expect hitems.rest hk fun closed hclosed hon => ?_
  refine Comes.placeFrom DoesRead.fault fun placed span after hafter hon' hnode => ?_
  have hread := hon.trans hon'
  have hgone := ho.trans (hitems.onward.trans hread)
  refine ⟨hafter.trans hclosed, hnamed.onward.trans hgone, fun nodes hext => ?_⟩
  exact .call (hext _ _ hnode) (hnamed.shown nodes (hgone.nodes.trans hext))
    (hitems.shown nodes (hread.nodes.trans hext))

/-- An expression that needs no operators. -/
theorem primary_reads (hi : ReadsLevel context inner depth room)
    (h : Ahead context depth (room + 1) expr state rest) (hrank : 13 ≤ expr.rank)
    (hc : Closes 13 rest) : DoesRead context (primary inner) state (Parsed expr state rest) := by
  obtain ⟨hd, hheight, hcanonical, tokens, hr, hs⟩ := h
  cases hcanonical with
  | atom =>
    cases hs with
    | atom hs => exact atom_reads hs hr hc
  | paren _ hinside =>
    rw [Expr.height] at hheight
    cases hs with
    | paren hl hs hk => exact paren_reads hi (by simp [hr]) hl hk hd hinside (by omega) hs
  | call hp hcallee hall =>
    obtain ⟨-, name, rfl⟩ := hp
    rw [Expr.height, Nat.max_lt] at hheight
    have hroom := heightAll_lt hheight.2
    cases hs with
    | call hs hl hargs _ hk =>
      cases hs with
      | atom hs =>
        cases hs with
        | identifier hname =>
          exact call_reads hi (by simp [hr]) hname hl hk hd
            (fun arg harg => ⟨hroom arg harg, hall arg harg⟩) hargs
  | index => exact absurd hrank (by decide : ¬13 ≤ 12)
  | unary => exact absurd hrank (by decide : ¬13 ≤ 11)
  | @binary op =>
    exact absurd op.precedence_le (Nat.not_le.2 (Nat.lt_of_lt_of_le (by decide) hrank))

/-- What is indexed, and then its indices. The indices behind an expression are read in a loop, so
the induction is on the tree, and what the loop comes to behind it is left open. -/
theorem indices_read (hi : ReadsLevel context inner depth room)
    (h : Ahead context depth (room + 1) expr state rest) (hrank : 12 ≤ expr.rank)
    (hc : Closes 13 rest) {post : Placed → State → Prop}
    (hn : ∀ node after, Parsed expr state rest node after →
      DoesRead context (indices inner node) after post) :
    DoesRead context (postfixExpression inner) state post := by
  have hprimary {expr : Expr} {rest : List Token}
      (h : Ahead context depth (room + 1) expr state rest) (hrank : 13 ≤ expr.rank)
      (hc : Closes 13 rest)
      (hn : ∀ node after, Parsed expr state rest node after →
        DoesRead context (indices inner node) after post) :
      DoesRead context (postfixExpression inner) state post := (primary_reads hi h hrank hc).bind hn
  have hcanonical := h.canonical
  induction hcanonical generalizing rest with
  | atom => exact hprimary h (by decide : 13 ≤ 13) hc hn
  | paren => exact hprimary h (by decide : 13 ≤ 13) hc hn
  | call => exact hprimary h (by decide : 13 ≤ 13) hc hn
  | index hp hfirst hall ih =>
    obtain ⟨hd, hheight, -, tokens, hr, hs⟩ := h
    rw [Expr.height, Nat.max_lt] at hheight
    have hroom := heightAll_lt hheight.2
    cases hs with
    | @index _ _ left right head tokens hs hl hitems hk =>
      have hr : state.rest = head ++ left :: (tokens ++ right :: rest) := by simp [hr]
      refine ih ⟨hd, hheight.1, hfirst, head, hr, hs⟩ hp.2 (closes_cons.2 (hl ▸ by decide))
        fun node after hnode => ?_
      refine Comes.iterate DoesRead.stalled (Comes.sees (fun _ _ _ _ => ?_) fun hs => ?_)
      · refine (indexed_reads hi hnode.rest hl hk hitems
          (fun item hitem => ⟨hroom item hitem, hall item hitem⟩)
          (hnode.onward.depth.trans hd) hnode).bind fun placed final hplaced => ?_
        exact ⟨by simp [hplaced.rest, hnode.rest]; omega, hn placed final hplaced⟩
      · cases hs.symm.trans (startsWith_iff.2 ⟨left, _, hnode.rest, hl⟩)
  | unary => exact absurd hrank (by decide : ¬12 ≤ 11)
  | @binary op =>
    exact absurd op.precedence_le (Nat.not_le.2 (Nat.lt_of_lt_of_le (by decide) hrank))

/-- An expression that binds as an indexed one is read as such. -/
theorem postfixExpression_reads (hi : ReadsLevel context inner depth room)
    (h : Ahead context depth (room + 1) expr state rest) (hrank : 12 ≤ expr.rank)
    (hc : Closes 12 rest) :
    DoesRead context (postfixExpression inner) state (Parsed expr state rest) := by
  refine indices_read hi h hrank (hc.mono (by decide)) fun node after hnode => ?_
  refine Comes.iterate DoesRead.stalled (DoesRead.unseen ?_ hnode)
  exact hnode.rest ▸ hc.startsWith (by decide)

/-! ## Operators -/

/-- Two trees on the sides of an operator. -/
theorem place_binary_reads {op : BinaryOp} {first second : Expr} {other : Placed}
    {middle opened : State} {more : List Token} {span : Span}
    (h : Parsed first base more node middle) (ho : Onward middle opened)
    (h' : Parsed second opened rest other after) :
    DoesRead context (place (.binary op node other) span) after
      (Parsed (.binary op first second) base rest) := by
  refine Comes.place DoesRead.fault fun placed final _ hfinal hon hnode => ?_
  have hgone := ho.trans (h'.onward.trans hon)
  refine ⟨hfinal.trans h'.rest, h.onward.trans hgone, fun nodes hext => ?_⟩
  exact .binary (hext _ _ hnode) (h.shown nodes (hgone.nodes.trans hext))
    (h'.shown nodes (hon.nodes.trans hext))

/-- What spells an operator with its sides spells the left one up to the operator, and then the
right one. -/
theorem Ahead.of_binary {op : BinaryOp} {first second : Expr}
    (h : Ahead context depth room (.binary op first second) state rest) :
    ∃ token sign more, token.kind = .symbol sign ∧ sign.text = op.sign ∧
      Ahead context depth room first state (token :: more) ∧
      ∀ opened : State, opened.rest = more → opened.depth = depth →
        Ahead context depth room second opened rest := by
  obtain ⟨hd, hheight, hcanonical, read, hr, hs⟩ := h
  obtain ⟨hfirst, hsecond, -⟩ := Expr.height_le_binary op first second
  cases hcanonical with
  | binary _ hleft hright =>
    cases hs with
    | @binary _ _ _ sign token head tail hs hk hsign hs' =>
      exact ⟨token, sign, tail ++ rest, hk, hsign,
        ⟨hd, Nat.lt_of_le_of_lt hfirst hheight, hleft, head, by simp [hr], hs⟩,
        fun opened hopened hd =>
          ⟨hd, Nat.lt_of_le_of_lt hsecond hheight, hright, tail, hopened, hs'⟩⟩

/-- One that binds as a power is read as such. -/
theorem power_reads (hi : ReadsLevel context inner depth room)
    (h : Ahead context depth (room + 1) expr state rest) (hrank : 11 ≤ expr.rank)
    (hu : ∀ op operand, expr ≠ .unary op operand) (hc : Closes 11 rest) :
    DoesRead context (power inner) state (Parsed expr state rest) := by
  by_cases htight : 12 ≤ expr.rank
  · refine (postfixExpression_reads hi h htight (hc.mono (by decide))).bind
      fun node after hnode => DoesRead.refuse ?_ hnode
    exact hnode.rest ▸ hc.startsWith (by decide)
  · cases expr with
    | unary op operand => exact absurd rfl (hu op operand)
    | binary op first second =>
      obtain rfl := BinaryOp.eq_pow hrank
      cases h.canonical with
      | binary hp =>
        obtain ⟨token, sign, more, hk, hsign, hleft, hright⟩ := h.of_binary
        obtain rfl : sign = .starStar := Symbol.text_injective hsign
        have hbelow := (Expr.height_le_binary .pow first second).2.2 rfl
        refine (postfixExpression_reads hi hleft hp.1.1 (closes_cons.2 (hk ▸ by decide))).bind
          fun base middle hbase => ?_
        refine DoesRead.accept hbase.rest hk fun opened hopened ho => ?_
        have hahead := hright opened hopened
          ((ho.depth.trans hbase.onward.depth).trans h.depth)
        refine (hi.unary second opened rest { hahead with height := ?_ } hp.1.2 hc).bind
          fun exponent after hexponent => place_binary_reads hbase ho hexponent
        have := h.height
        omega
    | atom | paren | call => exact absurd (by decide : 12 ≤ 13) htight
    | index => exact absurd (by decide : 12 ≤ 12) htight

/-- One that binds as a unary expression is read as such. -/
theorem unaryExpression_reads (hi : ReadsLevel context inner depth room)
    (h : Ahead context depth (room + 1) expr state rest) (hrank : 11 ≤ expr.rank)
    (hc : Closes 11 rest) :
    DoesRead context (unaryExpression inner) state (Parsed expr state rest) := by
  refine Comes.peek ?_
  by_cases hu : ∃ op operand, expr = .unary op operand
  · obtain ⟨op, operand, rfl⟩ := hu
    obtain ⟨hd, hheight, hcanonical, read, hr, hs⟩ := h
    rw [Expr.height] at hheight
    cases hs with
    | @unary _ _ sign token tokens hk hsign hs =>
      cases hcanonical with
      | unary hp hoperand =>
        have hop : (state.rest.head?.map Token.kind).bind unaryOp? = some op := by
          rw [hr, ← unaryOp_of_sign hsign, ← hk]
          rfl
        rw [hop]
        refine Comes.currentSpan fun span => Comes.advance hr fun opened hopened ho => ?_
        refine (hi.unary operand opened rest ⟨ho.depth.trans hd, by omega, hoperand, tokens,
          hopened, hs⟩ hp.1 hc).bind fun node after hnode => ?_
        refine Comes.placeFrom DoesRead.fault fun placed span final hfinal hon hplaced => ?_
        refine ⟨hfinal.trans hnode.rest, ho.trans (hnode.onward.trans hon), fun nodes hext => ?_⟩
        exact .unary (hext _ _ hplaced) (hnode.shown nodes (hon.nodes.trans hext))
  · have hu : ∀ op operand, expr ≠ .unary op operand := fun op operand he => hu ⟨op, operand, he⟩
    have hnone : (state.rest.head?.map Token.kind).bind unaryOp? = none := by
      obtain ⟨read, hr, hs⟩ := h.spelled
      obtain ⟨token, more, rfl, -, hnone⟩ := h.canonical.opens hs
      rw [hr]
      exact hnone hrank hu
    rw [hnone]
    exact power_reads hi h hrank hu hc

/-- Operands and operators of a climb. The operators are read in a loop from left to right, so the
induction goes along the left sides, and what the loop comes to behind them is left open. Behind a
tree with a left side an operator may stand that is no tighter than its own. -/
theorem climb_reads (hi : ReadsLevel context inner depth room) {least : Nat}
    (hright : ∀ op : BinaryOp, least ≤ op.precedence → op ≠ .pow → ∀ expr state rest,
      Ahead context depth (room + 1) expr state rest → op.precedence + 1 ≤ expr.rank →
      Closes (op.precedence + 1) rest →
      DoesRead context (binaryFrom inner (op.precedence + 1)) state (Parsed expr state rest))
    (h : Ahead context depth (room + 1) expr state rest) (hrank : least ≤ expr.rank)
    (hc : Closes (min (expr.rank + 1) 11) rest) {post : Placed → State → Prop}
    (hn : ∀ node after, Parsed expr state rest node after →
      DoesRead context (iterate (binaryRound inner least) node) after post) :
    DoesRead context (binaryFrom inner least) state post := by
  have hunary {expr : Expr} {rest : List Token} {post : Placed → State → Prop}
      (h : Ahead context depth (room + 1) expr state rest) (hle : 11 ≤ expr.rank)
      (hc : Closes (min (expr.rank + 1) 11) rest)
      (hn : ∀ node after, Parsed expr state rest node after →
        DoesRead context (iterate (binaryRound inner least) node) after post) :
      DoesRead context (binaryFrom inner least) state post := by
    rw [binaryFrom_eq]
    exact (unaryExpression_reads hi h hle (hc.mono (Nat.min_le_right _ _))).bind hn
  have hcanonical := h.canonical
  induction hcanonical generalizing rest post with
  | @binary op first second hp _ _ ih =>
    by_cases hne : op = .pow
    · subst hne
      exact hunary h (Nat.le_refl _) hc hn
    have hloose : op.precedence < 11 := BinaryOp.precedence_lt_tightest hne
    obtain ⟨hleft, hlarger⟩ := (Expr.ordered_binary_iff hne).1 hp.1
    obtain ⟨token, sign, more, hk, hsign, hfirst, hsecond⟩ := h.of_binary
    have hop := binaryOp_of_sign hsign hne
    have hgrip : grip token.kind = op.precedence := hk ▸ grip_of_binaryOp hop
    have htight : least ≤ op.precedence := hrank
    refine ih hfirst (htight.trans hleft) (closes_cons.2 (by omega)) fun node middle hnode => ?_
    have hat : (middle.rest.head?.map Token.kind).bind binaryOp? = some op := by
      simp [hnode.rest, hk, hop]
    refine Comes.iterate DoesRead.stalled (Comes.peek ?_)
    rw [hat]
    dsimp only
    rw [if_neg (Nat.not_lt.2 htight)]
    refine Comes.advance hnode.rest fun opened hopened ho => ?_
    have hahead := hsecond opened hopened ((ho.depth.trans hnode.onward.depth).trans h.depth)
    have hc : Closes (op.precedence + 1) rest :=
      hc.mono (Nat.min_le_left (op.precedence + 1) 11)
    refine (hright op htight hne second opened rest hahead hlarger hc).bind
      fun right after hright => ?_
    refine (place_binary_reads hnode ho hright).bind fun placed final hplaced =>
      ⟨?_, hn placed final hplaced⟩
    obtain ⟨read, hread, -⟩ := hahead.spelled
    rw [hplaced.rest, hnode.rest, ← hopened, hread, List.length_cons, List.length_append]
    omega
  | atom | paren | call => exact hunary h (show 11 ≤ 13 by decide) hc hn
  | index => exact hunary h (show 11 ≤ 12 by decide) hc hn
  | unary => exact hunary h (Nat.le_refl _) hc hn

/-- A climb reads the trees whose ranks are not below its least precedence. -/
theorem binaryFrom_reads (hi : ReadsLevel context inner depth room) (least : Nat) :
    least ≤ 11 → ∀ expr state rest, Ahead context depth (room + 1) expr state rest →
      least ≤ expr.rank → Closes least rest →
      DoesRead context (binaryFrom inner least) state (Parsed expr state rest) := by
  induction least using climb_induction with
  | _ least ih =>
    intro hle expr state rest h hrank hc
    have hmin : least ≤ min (expr.rank + 1) 11 := by omega
    refine climb_reads hi (fun op htight hne => ih op htight (BinaryOp.precedence_lt_tightest hne))
      h hrank (hc.mono hmin) fun node after hnode => ?_
    refine Comes.iterate DoesRead.stalled (Comes.peek ?_)
    split
    · next op hop =>
      obtain ⟨token, rest', hr, hop⟩ := exists_of_operator hop
      have hloose := closes_cons.1 (hr ▸ hnode.rest ▸ hc)
      rw [grip_of_binaryOp hop] at hloose
      rw [if_pos hloose]
      exact hnode
    · exact hnode

end

end

/-! ## Levels -/

/-- The productions of a level read what the levels and the depth leave room for. -/
theorem level_reads (context : Context) {levels depth room : Nat} (hle : room ≤ levels)
    (hroom : depth + room ≤ context.options.maxDepth) :
    ReadsLevel context (level levels) depth room := by
  induction levels generalizing depth room with
  | zero =>
    obtain rfl : room = 0 := Nat.le_zero.1 hle
    exact ⟨fun _ _ _ h => absurd h.height (Nat.not_lt_zero _),
      fun _ _ _ h => absurd h.height (Nat.not_lt_zero _)⟩
  | succ levels ih =>
    cases room with
    | zero =>
      exact ⟨fun _ _ _ h => absurd h.height (Nat.not_lt_zero _),
        fun _ _ _ h => absurd h.height (Nat.not_lt_zero _)⟩
    | succ room =>
      have hi : ReadsLevel context (level levels) (depth + 1) room := ih (by omega) (by omega)
      have hstop {state : State} (hd : state.depth = depth)
          (hle : context.options.maxDepth ≤ state.depth) (failure : Stop) :
          ∃ fault, failure = .crash (.fault fault) := by omega
      have hdeeper {expr : Expr} {state : State} {rest : List Token}
          (h : Ahead context depth (room + 1) expr state rest) :
          Ahead context (depth + 1) (room + 1) expr { state with depth := state.depth + 1 } rest :=
        { h with depth := congrArg (· + 1) h.depth }
      constructor
      · intro expr state rest h hc
        refine Comes.nested (hstop h.depth) ?_
        exact (binaryFrom_reads hi 1 (by decide) _ _ _ (hdeeper h) expr.rank_pos hc).mono
          fun _ _ hparsed => hparsed.shallower
      · intro expr state rest h hrank hc
        refine Comes.nested (hstop h.depth) ?_
        exact (unaryExpression_reads hi (hdeeper h) hrank hc).mono
          fun _ _ hparsed => hparsed.shallower

end OpenQasm.Grammar
