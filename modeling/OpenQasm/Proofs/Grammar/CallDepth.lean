import OpenQasm.Proofs.Grammar.Levels
import OpenQasm.Proofs.Grammar.Routines

/-!
# Depth of calls

The routines of the parser run with a number of calls that may be open at a time: each call takes
one of them, and where none is left it stalls. On one level of the grammar calls go to routines of
lower ranks only, so no more of them are open there than there are ranks. A level deeper is reached
through the limit of the nesting alone, and a parse with so many calls for each level that the limit
leaves never stalls.
-/

namespace OpenQasm.Grammar

/-! ## Ranks -/

/-- The ranks of the routines: a routine calls only those of lower ranks and the productions of the
next level. The right operand of an operator is read by a climb that begins above this operator, so
climbs call each other no more often than there are strengths of operators. -/
def Routine.rank : Routine → Nat
  | .nested _ | .identifier | .literal .. | .hardwareQubit _ | .versionStatement
  | .stringText _ | .pragma _ | .annotationLine _ | .calibrationBody | .gateName | .jump _ => 0
  | .identifiers _ | .expressions _ | .designator | .block | .complexType | .number _
  | .rangePart | .arrayLiteral | .includeStatement | .calibrationGrammar | .cal | .defcal
  | .aliasDecl | .gateModifier _ | .expressionStatement | .condition => 1
  | .scalarType | .qubitType | .rangeAfter .. | .setLiteral | .identifierOrCall _
  | .qubitDecl | .registerDecl _ | .gateParams | .registerParam _ | .registerType
  | .gateModifiers | .gateArguments | .boxStatement | .body | .switchStatement | .cases => 2
  | .elementType | .rangeOrExpression | .gateDef | .opaqueDecl | .ifStatement
  | .whileStatement => 3
  | .arrayType | .arrayRefType | .indexItem | .iterable => 4
  | .type | .indexed _ => 5
  | .indices _ | .castExpression _ | .ioDecl _ | .paramType | .returnType | .loopType => 6
  | .primaryAt _ | .operand | .subroutineParam | .externParam | .forStatement => 7
  | .primary | .operands | .measurement | .subroutineDef | .externDecl | .reset => 8
  | .postfixExpression | .value | .delay | .barrier | .nop | .measureStatement | .gateCall => 9
  | .power | .initializer _ | .assignment | .returnStatement => 10
  | .unaryExpression | .classicalDecl | .constDecl | .identifierStart => 11
  | .typeStart => 12
  | .keywordStart _ => 13
  | .statement => 14
  | .statementOrError => 15
  | .blockItems | .programItems => 16
  | .program => 17
  | .binaryFrom least => 12 + (BinaryOp.tightest + 1 - least)

/-- The routines that productions call are ranked below this. -/
def ranks : Nat := 24

/-- Calls of routines below a rank. All others stall. -/
def Calls.below (call : Calls) (rank : Nat) : Calls := fun callee =>
  if callee.rank < rank then call callee else crash .stalled

/-- A routine of a smaller rank may be called. -/
theorem Calls.below_of_lt {call : Calls} {callee : Routine} {rank : Nat} (h : callee.rank < rank) :
    call.below rank callee = call callee := if_pos h

/-- A routine calls routines of lower ranks only, unless it goes a level deeper. -/
theorem bodyOf_below (call : Calls) {routine : Routine}
    (hn : ∀ production, routine ≠ .nested production) :
    bodyOf (call.below routine.rank) routine = bodyOf call routine := by
  cases routine with
  | nested production => exact absurd rfl (hn production)
  | binaryFrom least =>
    have hunary : call.below (Routine.binaryFrom least).rank .unaryExpression =
        call .unaryExpression :=
      Calls.below_of_lt (Nat.lt_of_lt_of_le (Nat.lt_succ_self 11) (Nat.le_add_right 12 _))
    have hclimb {op : BinaryOp} (hop : ¬op.precedence < least) :
        call.below (Routine.binaryFrom least).rank (.binaryFrom (op.precedence + 1)) =
          call (.binaryFrom (op.precedence + 1)) := by
      refine Calls.below_of_lt ?_
      have hle := op.precedence_le_tightest
      simp only [Routine.rank]
      omega
    -- The climb calls itself for an operator that is not below the least one, from above it.
    simp only [bodyOf, hunary]
    congr with first
    congr with lhs
    congr with next
    cases next.bind binaryOp? with
    | none => rfl
    | some op =>
      by_cases hop : op.precedence < least
      · simp only [if_pos hop]
      · simp only [if_neg hop, hclimb hop]
  | _ => rfl

/-- A production calls routines of the ranks that there are. -/
theorem productionOf_below (call : Calls) (production : Production) :
    productionOf (call.below ranks) production = productionOf call production := by
  cases production <;> rfl

/-! ## Calls on levels -/

/-- The routines with so many levels below them and so many calls that may be open at a time. -/
def levelled : (levels calls : Nat) → Calls
  | _, 0, _ => crash .stalled
  | 0, _ + 1, .nested _ => crash .stalled
  | levels + 1, calls + 1, .nested production =>
    nested (productionOf (levelled levels calls) production)
  | levels, calls + 1, routine => bodyOf (levelled levels calls) routine

/-- On its level a routine runs with one call less. -/
theorem levelled_succ {levels calls : Nat} {routine : Routine}
    (hn : ∀ production, routine ≠ .nested production) :
    levelled levels (calls + 1) routine = bodyOf (levelled levels calls) routine := by
  cases routine with
  | nested production => exact absurd rfl (hn production)
  | _ => cases levels <;> rfl

/-- Where the calls are enough for the ranks of each level, the routines are the functions of the
parser. -/
theorem levelled_eq {levels calls : Nat} {routine : Routine}
    (h : ranks * levels + routine.rank < calls) :
    levelled levels calls routine = routines (level levels) routine := by
  induction calls generalizing levels routine with
  | zero => exact absurd h (Nat.not_lt_zero _)
  | succ calls ih =>
    by_cases hn : ∃ production, routine = .nested production
    · obtain ⟨production, rfl⟩ := hn
      cases levels with
      | zero => rfl
      | succ levels =>
        -- On the next level the ranks begin anew, and the calls of the level left are not needed.
        have hbelow : (levelled levels calls).below ranks =
            (routines (level levels)).below ranks := by
          funext callee
          refine ite_congr rfl (fun hr => ih ?_) fun _ => rfl
          unfold ranks at hr h ⊢
          omega
        show nested _ = nested _
        rw [← productionOf_below, hbelow, productionOf_below]
        cases production <;> rfl
    · have hn' : ∀ production, routine ≠ .nested production := fun production heq =>
        hn ⟨production, heq⟩
      -- On the same level each callee has a lower rank, which makes up for the call that is taken.
      have hbelow : (levelled levels calls).below routine.rank =
          (routines (level levels)).below routine.rank := by
        funext callee
        exact ite_congr rfl (fun hr => ih (by omega)) fun _ => rfl
      rw [levelled_succ hn', ← bodyOf_below _ hn', hbelow, bodyOf_below _ hn',
        bodyOf_routines _ hn']

/-! ## Parsers that stall less -/

section
variable {α β : Type}

/-- A parser that does the same as another one wherever that one does not stall. -/
def Refines (parser other : Parser α) : Prop :=
  ∀ context state, (∃ after, other context state = .error (.crash .stalled) after) ∨
    parser context state = other context state

namespace Refines

variable {parser other : Parser α}

/-- Every parser refines itself. -/
theorem refl (parser : Parser α) : Refines parser parser := fun _ _ => .inr rfl

/-- Every parser refines one that stalls. -/
theorem stalled : Refines parser (crash .stalled) := fun _ state => .inl ⟨state, rfl⟩

/-- A sequence is refined in both of its parts. -/
theorem bind {next next' : α → Parser β} (h : Refines parser other)
    (hn : ∀ value, Refines (next value) (next' value)) :
    Refines (parser >>= next) (other >>= next') := by
  intro context state
  rcases h context state with ⟨after, hs⟩ | heq
  · exact .inl ⟨after, bind_of_error hs⟩
  · cases hr : other context state with
    | ok value middle =>
      rw [bind_of_ok hr, bind_of_ok (heq.trans hr)]
      exact hn value context middle
    | error failure middle =>
      rw [bind_of_error hr, bind_of_error (heq.trans hr)]
      exact .inr rfl

/-- Refinement does not look at what is made of an answer. -/
theorem map {f : α → β} (h : Refines parser other) : Refines (f <$> parser) (f <$> other) := by
  simp only [map_eq_pure_bind]
  exact h.bind fun value => .refl _

/-- A parser is refined between two changes. -/
theorem around {enter leave : State → State} (h : Refines parser other) :
    Refines (around enter leave parser) (around enter leave other) := by
  intro context state
  unfold Grammar.around
  rcases h context (enter state) with ⟨after, hs⟩ | heq
  · rw [hs]
    exact .inl ⟨leave after, rfl⟩
  · rw [heq]
    exact .inr rfl

/-- So is one within a brace. -/
theorem blockOpen (h : Refines parser other) : Refines (blockOpen parser) (blockOpen other) :=
  h.around

/-- So is one within a scope. -/
theorem inScope (h : Refines parser other) : Refines (inScope parser) (inScope other) := h.around

/-- So is one that runs a level further in. -/
theorem nested (h : Refines parser other) : Refines (nested parser) (nested other) := by
  refine .bind (.refl _) fun context => .bind (.refl _) fun state => ?_
  split
  · exact .refl _
  · exact h.around

/-- So is one whose failure is caught: stalling is not caught. -/
theorem attempt (h : Refines parser other) : Refines (attempt parser) (attempt other) := by
  intro context state
  unfold Grammar.attempt
  rcases h context state with ⟨after, hs⟩ | heq
  · rw [hs]
    exact .inl ⟨after, rfl⟩
  · rw [heq]
    exact .inr rfl

/-- A loop along given tokens is refined round by round. -/
theorem iterateAlong {round round' : α → Parser (Turn α β)}
    (h : ∀ value, Refines (round value) (round' value)) (tokens : List Token) (value : α) :
    Refines (iterateAlong round tokens value) (iterateAlong round' tokens value) := by
  induction tokens generalizing value with
  | nil => exact .bind (h value) fun turn => .refl _
  | cons token tokens ih =>
    refine .bind (h value) fun turn => ?_
    cases turn with
    | done result => exact .refl _
    | again value => exact ih value

/-- So is a loop. -/
theorem iterate {round round' : α → Parser (Turn α β)}
    (h : ∀ value, Refines (round value) (round' value)) (value : α) :
    Refines (iterate round value) (iterate round' value) :=
  .bind (.refl _) fun state => iterateAlong h state.rest value

/-- So is a list with commas. -/
theorem separated {close : Symbol} (h : Refines parser other) :
    Refines (separated close parser) (separated close other) := by
  refine .iterate (fun items => .bind (.refl _) fun closed => ?_) []
  split
  · exact .refl _
  · exact h.bind fun item => .refl _

/-- So is a row with separators. -/
theorem joined {separator : Symbol} (h : Refines parser other) :
    Refines (joined separator parser) (joined separator other) := by
  refine h.bind fun first => .iterate (fun items => .bind (.refl _) fun more => ?_) _
  split
  · exact h.bind fun item => .refl _
  · exact .refl _

end Refines

end

/-- A body stalls less over routines that stall less: it is put together of pieces that call none,
and of calls, by the ways above. -/
theorem bodyOf_refines {call other : Calls} (h : ∀ routine, Refines (call routine) (other routine))
    (routine : Routine) : Refines (bodyOf call routine) (bodyOf other routine) := by
  cases routine
  all_goals
    dsimp only [bodyOf, productionOf, Calls.level, expression, expressions, designator, block,
      complexType, rangePart, arrayLiteral, gateModifier, expressionStatement, condition]
    repeat' first
      | with_reducible exact .refl _
      | with_reducible exact h _
      | with_reducible refine .bind ?_ fun _ => ?_
      | with_reducible refine .map ?_
      | with_reducible refine .iterate (fun _ => ?_) _
      | with_reducible refine .separated ?_
      | with_reducible refine .joined ?_
      | with_reducible refine .blockOpen ?_
      | with_reducible refine .inScope ?_
      | with_reducible refine .nested ?_
      | with_reducible refine .attempt ?_
      | split

/-! ## Open calls -/

/-- The routines with so many calls that may be open at a time. -/
def running : Nat → Calls
  | 0, _ => crash .stalled
  | calls + 1, routine => bodyOf (running calls) routine

/-- The levels need not be counted for this: without, the routines stall less. -/
theorem running_refines (levels calls : Nat) (routine : Routine) :
    Refines (running calls routine) (levelled levels calls routine) := by
  induction calls generalizing levels routine with
  | zero => exact .refl _
  | succ calls ih =>
    by_cases hn : ∃ production, routine = .nested production
    · obtain ⟨production, rfl⟩ := hn
      cases levels with
      | zero => exact .stalled
      | succ levels => exact bodyOf_refines (ih levels) (.nested production)
    · rw [levelled_succ fun production heq => hn ⟨production, heq⟩]
      exact bodyOf_refines (ih levels) routine

/-! ## Texts -/

variable {source : SourceId} {text : List Char} {options : ParseOptions}

/-- A parse does not stall. -/
theorem program_ne_stalled {after : State} :
    program ⟨source, text, options⟩ (startState source text options) ≠
      .error (.crash .stalled) after := by
  intro hs
  have hparse : parse source text options = .error .stalled := by
    rw [parse_eq, hs]
  rcases parse_completes source text options with ⟨_, _, output, _, hok, _⟩ | ⟨failure, herror, ho⟩
  · rw [hparse] at hok
    cases hok
  · rw [hparse] at herror
    cases herror
    exact ho.kind.elim nofun nofun

/-- The routine of a program is the program. -/
theorem routines_program (context : Context) :
    routines (level (context.options.maxDepth + 1)) .program context = program context := by
  unfold program routines
  funext state
  simp only [read_bind]

/-- So many calls for each level are enough for a parse. -/
theorem running_program {calls : Nat}
    (h : (ranks + (Routine.program.rank + 1)) * (options.maxDepth + 1) ≤ calls) :
    running calls .program ⟨source, text, options⟩ (startState source text options) =
      program ⟨source, text, options⟩ (startState source text options) := by
  have hlevels : levelled (options.maxDepth + 1) calls .program =
      routines (level (options.maxDepth + 1)) .program := by
    refine levelled_eq (Nat.lt_of_lt_of_le ?_ h)
    rw [Nat.add_mul]
    exact Nat.add_lt_add_left (Nat.le_mul_of_pos_right _ (Nat.succ_pos _)) _
  have hprogram : levelled (options.maxDepth + 1) calls .program ⟨source, text, options⟩
      (startState source text options) =
        program ⟨source, text, options⟩ (startState source text options) := by
    rw [hlevels]
    exact congrFun (routines_program ⟨source, text, options⟩) _
  rw [← hprogram]
  refine (running_refines (options.maxDepth + 1) calls .program _ _).resolve_left ?_
  rintro ⟨after, hs⟩
  exact program_ne_stalled (hprogram ▸ hs)

/-- A parse comes to an end: with a tree, or where the machine numbers do not suffice. Every
statement begun that is yielded takes a token; all that is composed of productions goes forward in
the tokens and stays within them; whatever stands below the levels that the limit of the depth
leaves is not run; and no more calls are ever open at a time than a fixed number for each of these
levels. -/
theorem parse_advances : ∃ bound : Nat, ∀ source text options,
    ((∃ output, parse source text options = .ok output) ∨
      Crashes source text options) ∧
    (∀ levels call node after, Begins source text options levels call →
      statementOrError (level levels) ⟨source, text, options⟩ call = .ok node after →
      call.position < after.position) ∧
    (∀ levels state, Forward state
      (ending (statementOrError (level levels) ⟨source, text, options⟩ state))) ∧
    (∀ (α : Type) (parser : Level → Parser α), Composed (fun _ => True) parser →
      ∀ levels state, Forward state
        (ending (parser (level levels) ⟨source, text, options⟩ state))) ∧
    Forward (startState source text options)
      (ending (program ⟨source, text, options⟩ (startState source text options))) ∧
    (∀ bottom, programOver bottom (options.maxDepth + 1) ⟨source, text, options⟩
        (startState source text options) =
      program ⟨source, text, options⟩ (startState source text options)) ∧
    ∀ calls, bound * (options.maxDepth + 1) ≤ calls →
      running calls .program ⟨source, text, options⟩ (startState source text options) =
        program ⟨source, text, options⟩ (startState source text options) := by
  refine ⟨ranks + (Routine.program.rank + 1), fun source text options => ?_⟩
  have hprogram (bottom : Level) : Coincide ⟨source, text, options⟩ 0 program
      (programOver bottom (options.maxDepth + 1)) := program_coincide bottom
  refine ⟨?_, fun _ _ _ _ => statementOrError_advances, statementOrError_forward,
    fun α parser hc => hc.forward, (hprogram (level 0) _ (Nat.zero_le _)).2,
    fun bottom => (hprogram bottom _ (Nat.zero_le _)).1, fun calls => running_program⟩
  exact (parse_completes source text options).imp_left fun ⟨_, _, output, _, hok, _⟩ =>
    ⟨output, hok⟩

end OpenQasm.Grammar
