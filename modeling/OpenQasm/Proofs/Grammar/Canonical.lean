import Mathlib.Data.List.Forall2
import Mathlib.Data.List.Nodup
import OpenQasm.Grammar.Expression

/-!
# Canonical expressions

Trees of expressions, apart from where they stand in a text or in a tree of nodes. A tree has a
rank, which says how tightly it holds together, and it is canonical if every operand has the rank
that its operator asks for. What tokens spell a tree does not depend on ranks.
-/

namespace OpenQasm

/-- No operator between two operands binds tighter than the power. -/
theorem BinaryOp.precedence_le (op : BinaryOp) : op.precedence ≤ 11 := by cases op <;> decide

/-- Every binary operator binds at all. -/
theorem BinaryOp.precedence_pos (op : BinaryOp) : 1 ≤ op.precedence := by cases op <;> decide

/-- Only a power binds as tightly as a power. -/
theorem BinaryOp.eq_pow {op : BinaryOp} (h : 11 ≤ op.precedence) : op = .pow := by
  revert h
  cases op <;> decide

namespace Grammar

/-! ## Trees -/

/-- Expressions of one token, or of a number and its imaginary unit. -/
inductive Atom where
  | identifier (name : String)
  | constant (value : MathConstant)
  | literal (value : Literal)
  | boolean (value : Bool)
  | bitstring (bits : String)
  | hardwareQubit (number : Nat)

/-- Trees of expressions that are built by parentheses, calls, indices and operators. -/
inductive Expr where
  | atom (atom : Atom)
  | paren (inside : Expr)
  | call (callee : Expr) (args : List Expr)
  | index (base : Expr) (items : List Expr)
  | unary (op : UnaryOp) (operand : Expr)
  | binary (op : BinaryOp) (left right : Expr)

namespace Expr

/-- How tightly a tree holds together. From 1 to 10 stand the operators in layers by their
precedences, at 11 the unary operators and the power, at 12 indices, and at 13 what no operator can
take apart. -/
def rank : Expr → Nat
  | atom _ | paren _ | call _ _ => 13
  | index _ _ => 12
  | unary _ _ => 11
  | binary op _ _ => op.precedence

/-- The operands of a tree have the ranks that its operator asks for. -/
def Ordered : Expr → Prop
  | unary _ operand => 11 ≤ operand.rank
  | binary .pow left right => 12 ≤ left.rank ∧ 11 ≤ right.rank
  | binary op left right => op.precedence ≤ left.rank ∧ op.precedence + 1 ≤ right.rank
  | _ => True

/-- What is called is an identifier, and what is indexed needs no operator. -/
def Headed : Expr → Prop
  | call callee _ => ∃ name, callee = atom (.identifier name)
  | index base _ => 12 ≤ base.rank
  | _ => True

/-- A tree all of whose parts have a property. -/
inductive All (p : Expr → Prop) : Expr → Prop
  | atom {atom : Atom} : p (.atom atom) → All p (.atom atom)
  | paren {inside : Expr} : p (.paren inside) → All p inside → All p (.paren inside)
  | call {callee : Expr} {args : List Expr} : p (.call callee args) → All p callee →
      (∀ arg ∈ args, All p arg) → All p (.call callee args)
  | index {base : Expr} {items : List Expr} : p (.index base items) → All p base →
      (∀ item ∈ items, All p item) → All p (.index base items)
  | unary {op : UnaryOp} {operand : Expr} : p (.unary op operand) → All p operand →
      All p (.unary op operand)
  | binary {op : BinaryOp} {left right : Expr} : p (.binary op left right) → All p left →
      All p right → All p (.binary op left right)

/-- Every operand has the rank that its operator asks for, and what is called or indexed may be. -/
def Canonical (expr : Expr) : Prop := expr.All fun part => part.Ordered ∧ part.Headed

mutual

/-- How deep a tree nests what the grammar nests: parentheses, arguments, indices, the operands of
unary operators, and exponents. -/
def height : Expr → Nat
  | atom _ => 0
  | paren inside => inside.height + 1
  | call callee args => max callee.height (heightAll args)
  | index base items => max base.height (heightAll items)
  | unary _ operand => operand.height + 1
  | binary .pow left right => max left.height (right.height + 1)
  | binary _ left right => max left.height right.height

/-- How deep some trees are nested that stand in brackets. -/
def heightAll : List Expr → Nat
  | [] => 0
  | expr :: exprs => max (expr.height + 1) (heightAll exprs)

end

/-- Every expression has a rank. -/
theorem rank_pos (expr : Expr) : 1 ≤ expr.rank := by
  cases expr with
  | binary op => exact op.precedence_pos
  | _ => exact Nat.le_add_left 1 _

/-- The operands of a layer. -/
theorem ordered_binary_iff {op : BinaryOp} {left right : Expr} (hne : op ≠ .pow) :
    (binary op left right).Ordered ↔
      op.precedence ≤ left.rank ∧ op.precedence + 1 ≤ right.rank := by
  cases op with
  | pow => exact absurd rfl hne
  | _ => exact Iff.rfl

/-- An expression that binds more tightly than a sign is no unary one. -/
theorem ne_unary_of_rank {expr : Expr} (h : 12 ≤ expr.rank) (op : UnaryOp) (operand : Expr) :
    expr ≠ .unary op operand := by
  rintro rfl
  exact absurd h (by decide : ¬12 ≤ 11)

/-- The sides of an operator are nested no deeper than it, and an exponent less deep than its
power. -/
theorem height_le_binary (op : BinaryOp) (left right : Expr) :
    left.height ≤ (binary op left right).height ∧
      right.height ≤ (binary op left right).height ∧
      (op = .pow → right.height < (binary op left right).height) := by
  cases op <;> simp only [height, reduceCtorEq, false_implies, and_true, true_implies] <;> omega

end Expr

/-! ## Spelling -/

/-- The keyword of a constant. -/
def keywordOf : MathConstant → Keyword
  | .pi => .kwPi
  | .tau => .kwTau
  | .euler => .kwEuler

/-- The kind of literal that a number by itself is. -/
def numberKind? (token : Token) : Option LiteralKind :=
  match token.kind with
  | .integer => some .integer
  | .float => some .float
  | .suffixed => some (Literal.suffixKind token.text)
  | _ => none

/-- Tokens of a text that spell an atom. -/
inductive Atom.Spelled (text : List Char) : Atom → List Token → Prop
  | identifier {token : Token} : token.kind = .identifier →
      Spelled text (.identifier (String.ofList token.text)) [token]
  | constant {token : Token} {value : MathConstant} : token.kind = .keyword (keywordOf value) →
      Spelled text (.constant value) [token]
  | boolean {token : Token} {value : Bool} :
      token.kind = .keyword (if value then .kwTrue else .kwFalse) →
      Spelled text (.boolean value) [token]
  | bitstring {token : Token} : token.kind = .bitstring →
      Spelled text (.bitstring (String.ofList (token.text.drop 1).dropLast)) [token]
  | hardwareQubit {token : Token} {number : Nat} : token.kind = .hardwareQubit →
      hardwareNumber? (token.text.drop 1) = some number →
      Spelled text (.hardwareQubit number) [token]
  | number {token : Token} {kind : LiteralKind} {value : Literal} :
      numberKind? token = some kind → Literal.read token.text kind = .ok value →
      Spelled text (.literal value) [token]
  | imaginary {token unit : Token} {value : Literal} :
      token.kind = .integer ∨ token.kind = .float → unit.kind = .keyword .kwIm →
      Literal.read ((Text.slice? text token.span.start unit.span.stop).getD []) .imaginary =
        .ok value →
      Spelled text (.literal value) [token, unit]

/-- Tokens that spell some trees, with a comma behind each of them but the last one. There is one
behind the last one, too, if `trailing` holds. -/
inductive Separated (spells : Expr → List Token → Prop) : Bool → List Expr → List Token → Prop
  | nil : Separated spells true [] []
  | last {expr : Expr} {tokens : List Token} : spells expr tokens →
      Separated spells false [expr] tokens
  | cons {trailing : Bool} {expr : Expr} {exprs : List Expr} {tokens more : List Token}
      {comma : Token} : spells expr tokens → comma.kind = .symbol .comma →
      Separated spells trailing exprs more →
      Separated spells trailing (expr :: exprs) (tokens ++ comma :: more)

/-- Tokens of a text that spell a tree. A comma may stand behind the last argument of a call if
`lax` holds. -/
inductive Expr.Spelled (lax : Prop) (text : List Char) : Expr → List Token → Prop
  | atom {atom : Atom} {tokens : List Token} : atom.Spelled text tokens →
      Spelled lax text (.atom atom) tokens
  | paren {inside : Expr} {left right : Token} {tokens : List Token} :
      left.kind = .symbol .leftParen → Spelled lax text inside tokens →
      right.kind = .symbol .rightParen →
      Spelled lax text (.paren inside) (left :: (tokens ++ [right]))
  | call {callee : Expr} {args : List Expr} {trailing : Bool} {left right : Token}
      {head tokens : List Token} : Spelled lax text callee head →
      left.kind = .symbol .leftParen → Separated (Spelled lax text) trailing args tokens →
      (trailing = true → lax ∨ args = []) → right.kind = .symbol .rightParen →
      Spelled lax text (.call callee args) (head ++ left :: (tokens ++ [right]))
  | index {base : Expr} {items : List Expr} {left right : Token} {head tokens : List Token} :
      Spelled lax text base head → left.kind = .symbol .leftBracket →
      Separated (Spelled lax text) false items tokens → right.kind = .symbol .rightBracket →
      Spelled lax text (.index base items) (head ++ left :: (tokens ++ [right]))
  | unary {op : UnaryOp} {operand : Expr} {sign : Symbol} {token : Token} {tokens : List Token} :
      token.kind = .symbol sign → sign.text = op.sign → Spelled lax text operand tokens →
      Spelled lax text (.unary op operand) (token :: tokens)
  | binary {op : BinaryOp} {left right : Expr} {sign : Symbol} {token : Token}
      {head tail : List Token} : Spelled lax text left head → token.kind = .symbol sign →
      sign.text = op.sign → Spelled lax text right tail →
      Spelled lax text (.binary op left right) (head ++ token :: tail)

/-! ## Nodes -/

/-- The kind of the node of an atom. -/
def Atom.kind : Atom → NodeKind NodeId
  | identifier name => .identifier name
  | constant value => .constant value
  | literal value => .literal value
  | boolean value => .boolean value
  | bitstring bits => .bitstring bits
  | hardwareQubit number => .hardwareQubit number

/-- The tree of a node among others. -/
inductive Expr.Shown (nodes : Array Node) : Expr → NodeId → Prop
  | atom {atom : Atom} {id : NodeId} {span : Span} : nodes[id.index]? = some ⟨atom.kind, span⟩ →
      Shown nodes (.atom atom) id
  | paren {inside : Expr} {id child : NodeId} {span : Span} :
      nodes[id.index]? = some ⟨.paren child, span⟩ → Shown nodes inside child →
      Shown nodes (.paren inside) id
  | call {callee : Expr} {args : List Expr} {id child : NodeId} {children : List NodeId}
      {span : Span} : nodes[id.index]? = some ⟨.call child children, span⟩ →
      Shown nodes callee child → List.Forall₂ (Shown nodes) args children →
      Shown nodes (.call callee args) id
  | index {base : Expr} {items : List Expr} {id child : NodeId} {children : List NodeId}
      {span : Span} : nodes[id.index]? = some ⟨.index child children, span⟩ →
      Shown nodes base child → List.Forall₂ (Shown nodes) items children →
      Shown nodes (.index base items) id
  | unary {op : UnaryOp} {operand : Expr} {id child : NodeId} {span : Span} :
      nodes[id.index]? = some ⟨.unary op child, span⟩ → Shown nodes operand child →
      Shown nodes (.unary op operand) id
  | binary {op : BinaryOp} {left right : Expr} {id child other : NodeId} {span : Span} :
      nodes[id.index]? = some ⟨.binary op child other, span⟩ → Shown nodes left child →
      Shown nodes right other → Shown nodes (.binary op left right) id

/-- Whether a node is the root of such a tree. -/
def isSyntax : NodeKind NodeId → Bool
  | .identifier _ | .constant _ | .literal _ | .boolean _ | .bitstring _ | .hardwareQubit _ |
    .paren _ | .call .. | .index .. | .unary .. | .binary .. => true
  | _ => false

namespace Expr

section
variable {nodes : Array Node} {expr : Expr} {atom : Atom} {id child other : NodeId}
  {children : List NodeId} {span : Span}

/-- The node of an expression is one of its syntax. -/
theorem Shown.isSyntax {kind : NodeKind NodeId} (h : Shown nodes expr id)
    (hn : nodes[id.index]? = some ⟨kind, span⟩) : isSyntax kind = true := by
  cases h with
  | @atom atom _ _ h =>
    cases h.symm.trans hn
    cases atom <;> rfl
  | paren h | call h | index h | unary h | binary h =>
    cases h.symm.trans hn
    rfl

/-- A node of an atom shows this atom. -/
theorem Shown.eq_atom (h : Shown nodes expr id) (hn : nodes[id.index]? = some ⟨atom.kind, span⟩) :
    expr = .atom atom := by
  cases h with
  | @atom other _ _ h =>
    have hk : other.kind = atom.kind :=
      congrArg Node.kind (Option.some.inj (h.symm.trans hn))
    cases other <;> cases atom <;> cases hk <;> rfl
  | paren h | call h | index h | unary h | binary h =>
    cases atom <;> cases h.symm.trans hn

/-- A node of a parenthesis shows one around what its child shows. -/
theorem Shown.of_paren (h : Shown nodes expr id)
    (hn : nodes[id.index]? = some ⟨.paren child, span⟩) :
    ∃ inside, expr = .paren inside ∧ Shown nodes inside child := by
  cases h with
  | @atom atom _ _ h => cases atom <;> cases h.symm.trans hn
  | paren h hinside =>
    cases h.symm.trans hn
    exact ⟨_, rfl, hinside⟩
  | call h | index h | unary h | binary h => cases h.symm.trans hn

/-- A node of a call shows a call of what its children show. -/
theorem Shown.of_call (h : Shown nodes expr id)
    (hn : nodes[id.index]? = some ⟨.call child children, span⟩) :
    ∃ callee args, expr = .call callee args ∧ Shown nodes callee child ∧
      List.Forall₂ (Shown nodes) args children := by
  cases h with
  | @atom atom _ _ h => cases atom <;> cases h.symm.trans hn
  | call h hcallee hargs =>
    cases h.symm.trans hn
    exact ⟨_, _, rfl, hcallee, hargs⟩
  | paren h | index h | unary h | binary h => cases h.symm.trans hn

/-- A node of an index shows an index of what its children show. -/
theorem Shown.of_index (h : Shown nodes expr id)
    (hn : nodes[id.index]? = some ⟨.index child children, span⟩) :
    ∃ base items, expr = .index base items ∧ Shown nodes base child ∧
      List.Forall₂ (Shown nodes) items children := by
  cases h with
  | @atom atom _ _ h => cases atom <;> cases h.symm.trans hn
  | index h hbase hitems =>
    cases h.symm.trans hn
    exact ⟨_, _, rfl, hbase, hitems⟩
  | paren h | call h | unary h | binary h => cases h.symm.trans hn

/-- A unary node shows its operator with what its child shows. -/
theorem Shown.of_unary {op : UnaryOp} (h : Shown nodes expr id)
    (hn : nodes[id.index]? = some ⟨.unary op child, span⟩) :
    ∃ operand, expr = .unary op operand ∧ Shown nodes operand child := by
  cases h with
  | @atom atom _ _ h => cases atom <;> cases h.symm.trans hn
  | unary h hoperand =>
    cases h.symm.trans hn
    exact ⟨_, rfl, hoperand⟩
  | paren h | call h | index h | binary h => cases h.symm.trans hn

/-- A binary node shows its operator between what its children show. -/
theorem Shown.of_binary {op : BinaryOp} (h : Shown nodes expr id)
    (hn : nodes[id.index]? = some ⟨.binary op child other, span⟩) :
    ∃ left right, expr = .binary op left right ∧ Shown nodes left child ∧
      Shown nodes right other := by
  cases h with
  | @atom atom _ _ h => cases atom <;> cases h.symm.trans hn
  | binary h hleft hright =>
    cases h.symm.trans hn
    exact ⟨_, _, rfl, hleft, hright⟩
  | paren h | call h | index h | unary h => cases h.symm.trans hn

/-- Nodes show the same expressions if each shows one at most. -/
theorem Shown.unique_all {exprs others : List Expr}
    (ih : ∀ expr ∈ exprs, ∀ {id : NodeId} {other : Expr}, Shown nodes expr id →
      Shown nodes other id → other = expr)
    (h : List.Forall₂ (Shown nodes) exprs children)
    (h' : List.Forall₂ (Shown nodes) others children) : others = exprs := by
  induction h generalizing others with
  | nil =>
    cases h'
    rfl
  | cons hfirst _ ihs =>
    cases h' with
    | cons hfirst' hmore =>
      rw [ih _ (.head _) hfirst hfirst', ihs (fun expr h => ih expr (.tail _ h)) hmore]

/-- A node is the root of one tree at most. -/
theorem Shown.unique {p : Expr → Prop} {other : Expr} (hall : expr.All p) (h : Shown nodes expr id)
    (h' : Shown nodes other id) : other = expr := by
  induction hall generalizing other id with
  | atom =>
    cases h with
    | atom hn => exact h'.eq_atom hn
  | paren _ _ ih =>
    cases h with
    | paren hn hinside =>
      obtain ⟨inside, rfl, hinside'⟩ := h'.of_paren hn
      rw [ih hinside hinside']
  | call _ _ _ ih ihs =>
    cases h with
    | call hn hcallee hargs =>
      obtain ⟨callee, args, rfl, hcallee', hargs'⟩ := h'.of_call hn
      rw [ih hcallee hcallee', Shown.unique_all ihs hargs hargs']
  | index _ _ _ ih ihs =>
    cases h with
    | index hn hbase hitems =>
      obtain ⟨base, items, rfl, hbase', hitems'⟩ := h'.of_index hn
      rw [ih hbase hbase', Shown.unique_all ihs hitems hitems']
  | unary _ _ ih =>
    cases h with
    | unary hn hoperand =>
      obtain ⟨operand, rfl, hoperand'⟩ := h'.of_unary hn
      rw [ih hoperand hoperand']
  | binary _ _ _ ih ih' =>
    cases h with
    | binary hn hleft hright =>
      obtain ⟨left, right, rfl, hleft', hright'⟩ := h'.of_binary hn
      rw [ih hleft hleft', ih' hright hright']

end

end Expr

/-! ## Signs -/

/-- No two symbols have the same characters. -/
theorem Symbol.text_injective {left right : Symbol} (h : left.text = right.text) :
    left = right := by
  have hnodup : (Symbol.byLength.map Symbol.text).Nodup := by decide +kernel
  exact List.inj_on_of_nodup_map hnodup (Symbol.mem_byLength left) (Symbol.mem_byLength right) h

/-- A unary operator is told by a symbol with its sign. -/
theorem sign_of_unaryOp {kind : TokenKind} {op : UnaryOp} (h : unaryOp? kind = some op) :
    ∃ sign, kind = .symbol sign ∧ sign.text = op.sign := by
  unfold unaryOp? at h
  split at h <;> cases h <;> exact ⟨_, rfl, rfl⟩

/-- So is a binary operator. -/
theorem sign_of_binaryOp {kind : TokenKind} {op : BinaryOp} (h : binaryOp? kind = some op) :
    ∃ sign, kind = .symbol sign ∧ sign.text = op.sign := by
  unfold binaryOp? at h
  split at h <;> cases h <;> exact ⟨_, rfl, rfl⟩

/-- The power is not among the binary operators that climb. -/
theorem ne_pow_of_binaryOp {kind : TokenKind} {op : BinaryOp} (h : binaryOp? kind = some op) :
    op ≠ .pow := by
  rintro rfl
  unfold binaryOp? at h
  split at h <;> cases h

/-- A symbol with the sign of a unary operator tells it. -/
theorem unaryOp_of_sign {sign : Symbol} {op : UnaryOp} (h : sign.text = op.sign) :
    unaryOp? (.symbol sign) = some op := by
  obtain ⟨other, -, hop, htext⟩ : ∃ other ∈ Symbol.byLength,
      unaryOp? (.symbol other) = some op ∧ other.text = op.sign := by
    cases op <;> decide +kernel
  rwa [Symbol.text_injective (h.trans htext.symm)]

/-- So does one with the sign of a binary operator that is no power. -/
theorem binaryOp_of_sign {sign : Symbol} {op : BinaryOp} (h : sign.text = op.sign)
    (hne : op ≠ .pow) : binaryOp? (.symbol sign) = some op := by
  obtain ⟨other, -, hop, htext⟩ : ∃ other ∈ Symbol.byLength,
      binaryOp? (.symbol other) = some op ∧ other.text = op.sign := by
    cases op with
    | pow => exact absurd rfl hne
    | _ => decide +kernel
  rwa [Symbol.text_injective (h.trans htext.symm)]

end Grammar

end OpenQasm
