import OpenQasm.Proofs.Grammar.Productions
import OpenQasm.Proofs.Grammar.Readers

/-!
# Relations that parsers stay within

A relation between the state before and the state after, however a parser ends. If it contains what
each piece of the grammar does, it contains what every production does, and what is done about a
statement that fails.
-/

namespace OpenQasm.Grammar

section
variable {α β : Type}

/-- The state in which a parser ends. -/
def ending : EStateM.Result Stop State α → State
  | .ok _ after => after
  | .error _ after => after

/-- However the parser ends, the state is related to the one before. -/
def Stays (context : Context) (R : State → State → Prop) (parser : Parser α) : Prop :=
  ∀ state, R state (ending (parser context state))

/-- A relation that contains what the pieces of the grammar do, if includes are placed only where
`has` says so. Nesting, names, the version and the counts of tokens do not matter to it. -/
structure Stable (has : Feature → Prop) (R : State → State → Prop) : Prop where
  same {before after : State} : after.rest = before.rest → after.openBlocks = before.openBlocks →
    after.builder = before.builder → after.diagnostics = before.diagnostics → R before after
  trans {before middle after : State} : R before middle → R middle after → R before after
  pass (n : Nat) (state : State) : R state (State.pass n state)
  push {diagnostic : Diagnostic} (state : State) :
    diagnostic.severity = diagnostic.code.severity →
    R state { state with diagnostics := state.diagnostics.push diagnostic }
  place {state : State} {kind : NodeKind Placed} {span : Span} {id : NodeId} {builder : Builder} :
    kind = .error ∨ Placeable has kind →
    state.builder.push (kind.map Placed.id) span = .ok (id, builder) →
    R state { state with builder }
  literal (state : State) (id : NodeId) (value : Literal) :
    R state { state with builder := state.builder.setKind id (.literal value) }
  truncate (state : State) (mark : Nat) :
    R state { state with builder := state.builder.truncate mark }
  openBlock {before after : State} : R { before with openBlocks := before.openBlocks + 1 } after →
    R before { after with openBlocks := after.openBlocks - 1 }

/-- A stable relation holds between a state and itself. -/
theorem Stable.refl {has : Feature → Prop} {R : State → State → Prop} (hR : Stable has R)
    (state : State) : R state state := hR.same rfl rfl rfl rfl

namespace Stays

variable {context : Context} {has : Feature → Prop} {R : State → State → Prop}
  {parser : Parser α} {next : α → Parser β}

/-! ## Control -/

/-- A parser that only answers stays within it. -/
theorem pure (hR : Stable has R) {value : α} : Stays context R (pure value : Parser α) :=
  fun state => hR.refl state

/-- So does one that only fails. -/
theorem throw (hR : Stable has R) {stop : Stop} : Stays context R (throw stop : Parser α) :=
  fun state => hR.refl state

/-- So does one that looks at the state. -/
theorem get (hR : Stable has R) : Stays context R (get : Parser State) :=
  fun state => hR.refl state

/-- So does one that looks at the context. -/
theorem read (hR : Stable has R) : Stays context R (read : Parser Context) :=
  fun state => hR.refl state

/-- A change of the state that is within the relation stays within it. -/
theorem modify {change : State → State} (h : ∀ state, R state (change state)) :
    Stays context R (modify change : Parser Unit) := h

/-- What goes on after a parser is related to where that parser ends. -/
theorem behind (hR : Stable has R) {state : State}
    (hn : ∀ value middle, parser context state = .ok value middle →
      R middle (ending (next value context middle))) :
    R (ending (parser context state)) (ending ((parser >>= next) context state)) := by
  cases hresult : parser context state with
  | ok value middle =>
    rw [bind_of_ok hresult]
    exact hn value middle hresult
  | error failure middle =>
    rw [bind_of_error hresult]
    exact hR.refl middle

/-- The same with what is known of the state in between. -/
theorem bindAt (hR : Stable has R) {state : State} (h : Stays context R parser)
    (hn : ∀ value middle, parser context state = .ok value middle →
      R middle (ending (next value context middle))) :
    R state (ending ((parser >>= next) context state)) :=
  hR.trans (h state) (behind hR hn)

/-- Two parsers that stay within it do so in sequence. -/
theorem bind (hR : Stable has R) (h : Stays context R parser)
    (hn : ∀ value, Stays context R (next value)) : Stays context R (parser >>= next) :=
  fun _ => bindAt hR h fun value middle _ => hn value middle

/-- A choice stays within it if both of its sides do. -/
theorem ite {c : Prop} [Decidable c] {yes no : Parser α} (hy : Stays context R yes)
    (hn : Stays context R no) : Stays context R (if c then yes else no) := by
  split
  · exact hy
  · exact hn

/-- A parser between two changes stays within it if the changes undo what they did. -/
theorem around {inside : State → State → Prop} {enter leave : State → State}
    (h : ∀ state after, inside (enter state) after → R state (leave after))
    (hp : Stays context inside parser) : Stays context R (around enter leave parser) := by
  intro state
  have hinside := h state _ (hp (enter state))
  unfold Grammar.around
  cases hresult : parser context (enter state) with
  | ok value middle | error failure middle =>
    rw [hresult] at hinside
    exact hinside

/-- A parser stays within it also when its failure is caught. -/
theorem attempt (h : Stays context R parser) : Stays context R (attempt parser) := by
  intro state
  have hinside := h state
  unfold Grammar.attempt
  cases hresult : parser context state with
  | ok value middle =>
    rw [hresult] at hinside
    exact hinside
  | error failure middle =>
    rw [hresult] at hinside
    cases failure <;> exact hinside

/-- A loop along given tokens stays within it if its rounds do. -/
theorem iterateAlong (hR : Stable has R) {round : α → Parser (Turn α β)}
    (h : ∀ value, Stays context R (round value)) (tokens : List Token) (value : α) :
    Stays context R (iterateAlong round tokens value) := by
  induction tokens generalizing value with
  | nil =>
    refine .bind hR (h value) fun turn => ?_
    cases turn with
    | done result => exact .pure hR
    | again value => exact .throw hR
  | cons token tokens ih =>
    refine .bind hR (h value) fun turn => ?_
    cases turn with
    | done result => exact .pure hR
    | again value => exact ih value

/-- A loop stays within it if its rounds do. -/
theorem iterate (hR : Stable has R) {round : α → Parser (Turn α β)}
    (h : ∀ value, Stays context R (round value)) (value : α) :
    Stays context R (iterate round value) :=
  .bind hR (.get hR) fun start => .iterateAlong hR h start.rest value

/-! ## Pieces -/

/-- Passing tokens over stays within it. -/
theorem passOver (hR : Stable has R) {n : Nat} : Stays context R (passOver n) :=
  .modify (hR.pass n)

/-- A report stays within it. -/
theorem report (hR : Stable has R) {code : Code} {span : Span} {message : String} :
    Stays context R (report code span message) := fun state => hR.push state rfl

/-- A look at the token at hand stays within it. -/
theorem current (hR : Stable has R) : Stays context R current :=
  .bind hR (.get hR) fun _ => .pure hR

/-- So does one at its kind. -/
theorem peek (hR : Stable has R) : Stays context R peek :=
  .bind hR (.current hR) fun _ => .pure hR

/-- So does one at its span. -/
theorem currentSpan (hR : Stable has R) : Stays context R currentSpan := by
  refine .bind hR (.current hR) fun next => ?_
  cases next with
  | none => exact .bind hR (.read hR) fun context => .pure hR
  | some token => exact .pure hR

/-- A syntax error stays within it, reported or suppressed. -/
theorem reportSyntax (hR : Stable has R) {message : String} :
    Stays context R (reportSyntax message) := by
  refine .bind hR (.bind hR (.get hR) fun state => .bind hR (.read hR) fun context => ?_)
    fun suppressed => ?_
  · cases state.resync with
    | none => exact .pure hR
    | some resync => exact .ite (.pure hR) (.ite (.pure hR) (.throw hR))
  · refine .bind hR (.bind hR (.get hR) fun _ => .pure hR) fun seen => ?_
    exact .ite (.pure hR) (.bind hR (.currentSpan hR) fun span => .report hR)

/-- So does the failure with one. -/
theorem failSyntax (hR : Stable has R) {message : String} :
    Stays context R (failSyntax message : Parser α) :=
  .bind hR (.reportSyntax hR) fun _ => .throw hR

/-- A node that may stand there is placed within it. -/
theorem place (hR : Stable has R) {kind : NodeKind Placed} {span : Span}
    (h : kind = .error ∨ Placeable has kind) : Stays context R (place kind span) := by
  intro state
  unfold Grammar.place
  rw [get_bind]
  cases hpush : state.builder.push (kind.map Placed.id) span with
  | ok pushed =>
    obtain ⟨id, builder⟩ := pushed
    exact hR.place h hpush
  | error fault => exact hR.refl state

/-- The span since a start is read within it. -/
theorem spanFrom (hR : Stable has R) {start : Span} : Stays context R (spanFrom start) :=
  .bind hR (.read hR) fun _ => .bind hR (.get hR) fun _ => .pure hR

/-- A node that began earlier is placed within it, like any other. -/
theorem placeFrom (hR : Stable has R) {start : Span} {kind : NodeKind Placed}
    (h : kind = .error ∨ Placeable has kind) : Stays context R (placeFrom start kind) :=
  .bind hR (.spanFrom hR) fun _ => .place hR h

/-- The type of an angle is changed within it. -/
theorem retagAngle (hR : Stable has R) {node : Placed} : Stays context R (retagAngle node) := by
  unfold Grammar.retagAngle
  split
  · exact .bind hR (.modify fun state => hR.literal state _ _) fun _ => .pure hR
  · exact .pure hR

/-- A name is declared within it. -/
theorem declare (hR : Stable has R) {name : Placed} : Stays context R (declare name) := by
  refine .bind hR (.get hR) fun state => ?_
  split
  · split
    · exact fun state => hR.push state rfl
    · exact .modify fun _ => hR.same rfl rfl rfl rfl
  · exact .pure hR

/-- The overflow of the depth stays within it. -/
theorem overflow (hR : Stable has R) : Stays context R (overflow : Parser α) := by
  refine .bind hR (.get hR) fun state => .bind hR (.read hR) fun context => .ite ?_ (.throw hR)
  exact .bind hR (.currentSpan hR) fun span => .bind hR (.report hR) fun _ =>
    .bind hR (.modify fun _ => hR.same rfl rfl rfl rfl) fun _ => .throw hR

/-- Counters and names that are changed alike before and after do not matter. -/
theorem framed (hR : Stable has R) {enter leave : State → State}
    (henter : ∀ state, R state (enter state)) (hleave : ∀ state, R state (leave state))
    (h : Stays context R parser) : Stays context R (Grammar.around enter leave parser) :=
  .around (fun state after hinside =>
    hR.trans (hR.trans (henter state) hinside) (hleave after)) h

/-- One level further in, a parser stays within it. -/
theorem nested (hR : Stable has R) (h : Stays context R parser) :
    Stays context R (nested parser) := by
  refine .bind hR (.read hR) fun context => .bind hR (.get hR) fun state => .ite (.overflow hR) ?_
  exact h.framed hR (fun _ => hR.same rfl rfl rfl rfl) fun _ => hR.same rfl rfl rfl rfl

/-- Within a scope, a parser stays within it. -/
theorem inScope (hR : Stable has R) (h : Stays context R parser) :
    Stays context R (inScope parser) :=
  h.framed hR (fun _ => hR.same rfl rfl rfl rfl) fun _ => hR.same rfl rfl rfl rfl

/-- Within a brace, a parser stays within it: the brace is counted and the count taken back. -/
theorem blockOpen (hR : Stable has R) (h : Stays context R parser) :
    Stays context R (blockOpen parser) := .around (fun _ _ hinside => hR.openBlock hinside) h

end Stays

/-! ## Productions -/

variable {context : Context} {has : Feature → Prop} {R : State → State → Prop} {inner : Level}

/-- What is composed of productions that stay within a stable relation does so. -/
theorem Composed.stays {parser : Level → Parser α} (hc : Composed has parser) (hR : Stable has R)
    (h : ∀ production, Readable has production → Stays context R (inner production))
    (hb : Stays context R (Grammar.blockOpen (inner .blockItems))) :
    Stays context R (parser inner) := by
  induction hc with
  | inner production hr => exact h production hr
  | blockItems => exact hb
  | pure => exact .pure hR
  | bind _ _ ih ihn => exact .bind hR ih ihn
  | looking _ ih => exact fun state => ih (state.view context) state
  | iterate _ ih => exact .iterate hR ih _
  | blockOpen _ ih => exact ih.blockOpen hR
  | inScope _ _ ih => exact ih.inScope hR
  | failSyntax => exact .failSyntax hR
  | passOver => exact .passOver hR
  | report => exact .report hR
  | misread => exact .bind hR (.report hR) fun _ => .place hR (.inl rfl)
  | overflows => exact .throw hR
  | place hk => exact .place hR (.inr hk)
  | retagAngle => exact .retagAngle hR
  | declare => exact .declare hR
  | setVersion => exact .modify fun _ => hR.same rfl rfl rfl rfl
  | requireVersion3 => exact .bind hR (.get hR) fun _ => .ite (.report hR) (.pure hR)
  | deprecated =>
    exact .bind hR (.get hR) fun _ => .ite (.pure hR) fun state => hR.push state rfl

/-- What no other level takes part in. -/
theorem Composed.stays_alone {parser : Parser α} (hc : Composed has fun _ => parser)
    (hR : Stable has R) : Stays context R parser := by
  have hnone : ∀ production, Stays context R ((fun _ => crash .stalled : Level) production) :=
    fun _ => .throw hR
  exact hc.stays hR (fun production _ => hnone production) (.blockOpen hR (hnone .blockItems))

/-- What is done about a failure stays within it. -/
theorem afterStop_stays (hR : Stable has R) {mark before : Nat} {start : Span} :
    Stays context R (afterStop mark before start) := by
  refine .bind hR (.modify fun state => hR.truncate state mark) fun _ => ?_
  intro state
  rw [get_bind]
  dsimp only
  split
  · exact hR.refl state
  · have hsync : ∀ opened, Stays context R (synchronize before opened) := fun opened =>
      .bind hR (.get hR) fun _ => .bind hR (.passOver hR) fun _ =>
        .modify fun _ => hR.same rfl rfl rfl rfl
    have hrest : ∀ opened, Stays context R
        (synchronize before opened >>= fun _ => placeFrom start .error) := fun opened =>
      .bind hR (hsync opened) fun _ => .placeFrom hR (.inl rfl)
    rw [set_bind]
    have hnone : R state { state with unwinding := none } := hR.same rfl rfl rfl rfl
    exact hR.trans hnone (hrest _ { state with unwinding := none })

/-- A statement, or the node left in its place, stays within it if the statement does. -/
theorem statementOrError_stays (hR : Stable has R) (h : Stays context R (statement inner)) :
    Stays context R (statementOrError inner) := by
  rw [statementOrError_eq]
  refine .bind hR (.get hR) fun mark => .bind hR (.get hR) fun before => ?_
  refine .bind hR (.currentSpan hR) fun start => .bind hR h.attempt fun node => ?_
  cases node with
  | some node => exact .pure hR
  | none => exact afterStop_stays hR

/-- One round of the loop through the statements of a block. -/
theorem blockRound_stays (hR : Stable has R) {item : Parser Placed} (h : Stays context R item)
    (items : List Placed) :
    Stays context R (do
      match ← peek with
      | none | some (.symbol .rightBrace) => return Turn.done items
      | some _ => return .again (items ++ [← item])) := by
  refine .bind hR (.peek hR) fun next => ?_
  split
  · exact .pure hR
  · exact .pure hR
  · exact .bind hR h fun item => .pure hR

/-- One round of the program's loop stays within it if its item does. -/
theorem programRound_stays (hR : Stable has R) {item : Parser Placed} (h : Stays context R item)
    (items : List Placed) : Stays context R (programRound item items) := by
  refine .bind hR (.peek hR) fun next => ?_
  split
  · exact .pure hR
  · exact .bind hR (.reportSyntax hR) fun _ => .bind hR (.passOver hR) fun _ => .pure hR
  · refine .bind hR h.attempt fun item => ?_
    cases item <;> exact .pure hR

end

end OpenQasm.Grammar
