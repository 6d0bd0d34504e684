import OpenQasm.Grammar.Statement

/-!
# Compositions of productions

The productions of a level are put together from those of the next one and from a few pieces: a look
ahead, a token passed over, a report, a node, a name declared. What these pieces and the ways to put
them together respect is respected by every production, by induction on how it is composed.
-/

namespace OpenQasm.Grammar

/-- What a production sees of the state that it is in. The nesting, the scopes, the version in force
and what has been pushed and reported do not decide how it goes on. -/
structure View where
  source : SourceId
  text : List Char
  rest : List Token
  position : Nat
  previousEnd : Nat
  openBlocks : Nat

def State.view (context : Context) (state : State) : View where
  source := context.source
  text := context.text
  rest := state.rest
  position := state.position
  previousEnd := state.previousEnd
  openBlocks := state.openBlocks

/-- A state in which the same is seen. -/
def View.state (view : View) : State where
  rest := view.rest
  position := view.position
  previousEnd := view.previousEnd
  openBlocks := view.openBlocks

/-! ## Messages -/

/-- What is said about a statement that stands in a wrong place and is read all the same. -/
def placementMessages : List String :=
  ["the version pragma must be the first statement",
    "`include` is only allowed at the top level"]

/-- Other messages are told apart by their first character. -/
theorem append_not_mem_placementMessages {start : String} (rest : String) {c : Char}
    {text : List Char} (h : start.toList = c :: text) (hc : c ≠ 't' ∧ c ≠ '`') :
    start ++ rest ∉ placementMessages := by
  intro hm
  have hchars : (start ++ rest).toList ∈ placementMessages.map String.toList :=
    List.mem_map_of_mem hm
  rw [String.toList_append, h] at hchars
  simp [placementMessages, hc] at hchars

/-! ## Compositions -/

section
variable {α β : Type} {has : Feature → Prop}

/-- Go on in a way that depends on what is seen. -/
def looking (next : View → Parser α) : Parser α := fun context state =>
  next (state.view context) context state

/-- Report a token that spells nothing, and put an error in its place. -/
def misread (span : Span) (message : String) : Parser Placed := do
  report .literalError span message
  place .error span

/-- Put a version in force. -/
def setVersion (version : Version) : Parser Unit :=
  modify fun state => { state with version := some version }

/-- What only some compositions have: the node of an include; the node of a calibration; a statement
that stands in no block of its own; or what is kept track of: names and their scopes, versions, and
blocks. -/
inductive Feature where
  | inclusion
  | calibration
  | bareBody
  | tracked

/-- The productions of the next level that may be read by themselves. -/
def Readable (has : Feature → Prop) : Production → Prop
  | .blockItems => False
  | .statement => has .bareBody
  | _ => True

/-- The statements of a block are read in an open block only. -/
theorem Readable.ne_blockItems {has : Feature → Prop} {production : Production}
    (h : Readable has production) : production ≠ .blockItems := fun heq => by rw [heq] at h; exact h

/-- The nodes that may be placed without a report. Those of declarations, of what versions differ in
and of what opens a scope are kept track of. -/
def Placeable (has : Feature → Prop) : NodeKind Placed → Prop
  | .error => False
  | .includeFile _ _ => has .inclusion
  | .cal _ | .defcal .. => has .tracked ∧ has .calibration
  | .program _ | .scope _ | .qubitDecl .. | .registerDecl .. | .classicalDecl .. | .constDecl .. |
    .ioDecl .. | .aliasDecl .. | .gateDef .. | .opaqueDecl .. | .subroutineDef .. |
    .externDecl .. | .param .. | .calibrationGrammar _ | .delay .. | .box .. | .nop _ |
    .ifStmt .. | .forStmt .. | .whileStmt .. | .switchStmt .. => has .tracked
  | _ => True

/-- An error is placed with a report only. -/
theorem Placeable.ne_error {has : Feature → Prop} {kind : NodeKind Placed}
    (h : Placeable has kind) : kind ≠ .error := fun heq => by rw [heq] at h; exact h

/-- Parsers over a level that are put together from its productions and from pieces that report no
error without need and place no error without a report. The statements of a block are read in an
open block only. -/
inductive Composed (has : Feature → Prop) : {α : Type} → (Level → Parser α) → Prop
  | inner (production : Production) :
      Readable has production → Composed has fun inner => inner production
  | blockItems : has .tracked → Composed has fun inner => blockOpen (inner .blockItems)
  | pure {α : Type} {value : α} : Composed has fun _ => pure value
  | bind {α β : Type} {first : Level → Parser α} {next : Level → α → Parser β} :
      Composed has first → (∀ value, Composed has fun inner => next inner value) →
      Composed has fun inner => first inner >>= next inner
  | looking {α : Type} {next : Level → View → Parser α} :
      (∀ view, Composed has fun inner => next inner view) →
      Composed has fun inner => looking (next inner)
  | iterate {α β : Type} {round : Level → α → Parser (Turn α β)} {start : α} :
      (∀ value, Composed has fun inner => round inner value) →
      Composed has fun inner => iterate (round inner) start
  | blockOpen {α : Type} {parser : Level → Parser α} :
      Composed has parser → Composed has fun inner => blockOpen (parser inner)
  | inScope {α : Type} {parser : Level → Parser α} :
      has .tracked → Composed has parser → Composed has fun inner => inScope (parser inner)
  | failSyntax {α : Type} {message : String} :
      message ∉ placementMessages → Composed has fun _ => (failSyntax message : Parser α)
  | passOver {n : Nat} : Composed has fun _ => passOver n
  | report {span : Span} {message : String} :
      message ∈ placementMessages → Composed has fun _ => report .syntaxError span message
  | misread {span : Span} {message : String} : Composed has fun _ => misread span message
  | overflows {α : Type} : Composed has fun _ => (crash .exponentOverflow : Parser α)
  | place {kind : NodeKind Placed} {span : Span} :
      Placeable has kind → Composed has fun _ => place kind span
  | retagAngle {node : Placed} : has .tracked → Composed has fun _ => retagAngle node
  | declare {name : Placed} : has .tracked → Composed has fun _ => declare name
  | setVersion {version : Version} : has .tracked → Composed has fun _ => setVersion version
  | requireVersion3 {span : Span} {feature : String} :
      has .tracked → Composed has fun _ => requireVersion3 span feature
  | deprecated {span : Span} {feature : String} {fix : Option Fix} :
      has .tracked → Composed has fun _ => deprecated span feature fix

namespace Composed

variable {parser : Level → Parser α} {kind : TokenKind}

/-- A choice that does not depend on the state. -/
theorem ite {c : Prop} [Decidable c] {yes no : Level → Parser α} (hy : Composed has yes)
    (hn : Composed has no) : Composed has fun inner => if c then yes inner else no inner := by
  by_cases hc : c
  · simpa only [if_pos hc] using hy
  · simpa only [if_neg hc] using hn

/-- What is made of a value. -/
theorem map {f : α → β} (h : Composed has parser) :
    Composed has fun inner => f <$> parser inner := by
  simp only [map_eq_pure_bind]
  exact .bind h fun value => .pure

/-- The state is read, and what is done next depends on what is seen of it. -/
theorem get {next : Level → State → Parser α}
    (heq : ∀ inner context state, next inner state = next inner (state.view context).state)
    (h : ∀ state, Composed has fun inner => next inner state) :
    Composed has fun inner => get >>= next inner := by
  have hget : (fun inner => MonadState.get >>= next inner) =
      fun inner => Grammar.looking fun view => next inner view.state := by
    funext inner context state
    exact congrFun (congrFun (heq inner context state) context) state
  exact hget ▸ .looking fun view => h view.state

/-- The context is read, and what is done next depends on what is seen of it. -/
theorem read {next : Level → Context → Parser α}
    (heq : ∀ inner context, next inner context = next inner ⟨context.source, context.text, {}⟩)
    (h : ∀ context, Composed has fun inner => next inner context) :
    Composed has fun inner => read >>= next inner := by
  have hread : (fun inner => MonadReader.read >>= next inner) =
      fun inner => Grammar.looking fun view => next inner ⟨view.source, view.text, {}⟩ := by
    funext inner context state
    exact congrFun (congrFun (heq inner context) context) state
  exact hread ▸ .looking fun view => h _

/-! ## Tokens -/

/-- A look at the next token. -/
theorem current : Composed has fun _ => current :=
  .get (fun _ _ _ => rfl) fun _ => .pure

/-- A look at the kind of the next token. -/
theorem peek : Composed has fun _ => peek :=
  .bind .current fun _ => .pure

/-- A look whether the next token is of a kind. -/
theorem sees : Composed has fun _ => sees kind :=
  .get (fun _ _ _ => rfl) fun _ => .pure

/-- The next token is passed over. -/
theorem advance : Composed has fun _ => advance := .passOver

/-- The next token is passed over if it is of a kind. -/
theorem accept : Composed has fun _ => accept kind :=
  .bind .sees fun _ => .ite (.bind .advance fun _ => .pure) .pure

/-- What is said about a token in place of what was expected. -/
theorem expected_not_mem_placementMessages (expected found : String) :
    s!"expected {expected}, found {found}" ∉ placementMessages := by
  have hmessage : s!"expected {expected}, found {found}" =
      "expected " ++ (expected ++ ", found " ++ found) := by
    simp only [String.append_assoc]
    rfl
  rw [hmessage]
  exact append_not_mem_placementMessages _ rfl (by decide)

/-- A syntax error says what was expected in place of a token, and nothing that is said of
placement. -/
theorem unexpected {expected : String} :
    Composed has fun _ => (unexpected expected : Parser α) := by
  refine .bind .current fun token => ?_
  cases token <;> exact .failSyntax (expected_not_mem_placementMessages _ _)

/-- A token of a kind is read, or its lack is an error. -/
theorem expect : Composed has fun _ => expect kind := by
  refine .bind .current fun token => ?_
  cases token with
  | some token => exact .ite (.bind .advance fun _ => .pure) .unexpected
  | none => exact .unexpected

/-! ## Spans -/

/-- A look at the span of the next token. -/
theorem currentSpan : Composed has fun _ => currentSpan := by
  refine .bind .current fun token => ?_
  cases token with
  | some token => exact .pure
  | none => exact .read (fun _ _ => rfl) fun context => .pure

/-- A look at where the tokens read end. -/
theorem spanFrom {start : Span} : Composed has fun _ => spanFrom start :=
  .read (fun _ _ => rfl) fun _ => .get (fun _ _ _ => rfl) fun _ => .pure

/-- A node that spans what has been read since its start. -/
theorem placeFrom {start : Span} {kind : NodeKind Placed} (h : Placeable has kind) :
    Composed has fun _ => placeFrom start kind :=
  .bind .spanFrom fun _ => .place h

/-! ## Lists -/

/-- Items between commas, up to a closing symbol. -/
theorem separated {close : Symbol} (h : Composed has parser) :
    Composed has fun inner => separated close (parser inner) := by
  refine .iterate fun items => .bind .sees fun closed => .ite .pure ?_
  exact .bind h fun item => .bind .accept fun more => .ite .pure .pure

/-- Items with a separator between any two of them. -/
theorem joined {separator : Symbol} (h : Composed has parser) :
    Composed has fun inner => joined separator (parser inner) := by
  refine .bind h fun first => .iterate fun items => .bind .accept fun more => .ite ?_ .pure
  exact .bind h fun item => .pure

end Composed

end

/-! ## Pieces that stand on all levels -/

variable {has : Feature → Prop}

/-- An identifier is a token and its node. -/
theorem identifier_composed : Composed has fun _ => identifier :=
  .bind .expect fun _ => .place trivial

/-- Identifiers between commas. -/
theorem identifiers_composed {close : Symbol} : Composed has fun _ => identifiers close :=
  .separated identifier_composed

/-- Expressions between commas, each of them nested. -/
theorem expressions_composed {close : Symbol} : Composed has fun inner => expressions inner close :=
  .separated (.inner .expression trivial)

/-- A nested expression in square brackets, or nothing. -/
theorem designator_composed : Composed has designator := by
  refine .bind .accept fun opened => .ite ?_ .pure
  exact .bind (.inner .expression trivial) fun inside => .bind .expect fun _ => .pure

/-- A block opens a scope, so that it is composed where scopes are kept track of. -/
theorem block_composed (h : has .tracked) : Composed has block := by
  refine .bind .expect fun token => .bind (.blockItems h) fun items => ?_
  exact .bind .expect fun _ => .placeFrom h

end OpenQasm.Grammar
