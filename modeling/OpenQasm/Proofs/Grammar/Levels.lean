import OpenQasm.Proofs.Grammar.Atomicity
import OpenQasm.Proofs.Grammar.Staying

/-!
# Levels that a parse needs

A parse goes through its tokens from the first to the last, never back and never past the end, and
every statement that it yields takes one of them at least. The productions of a level call each
other along no cycle; whatever leads back to one of them goes one level deeper, and the limit of the
depth is checked there. So the parse never comes to the bottom of its levels: whatever stands below
the last of them, it is not run.
-/

namespace OpenQasm.Grammar

/-! ## Going on in the tokens -/

/-- A state as deep as the one before it, with some tokens more that have been read. -/
structure Forward (before after : State) : Prop where
  depth : after.depth = before.depth
  read : ∃ read, before.rest = read ++ after.rest ∧
    after.position = before.position + read.length

namespace Forward

variable {before middle after state : State}

/-- Where nothing is read, the parser has moved forward by no token. -/
theorem refl (state : State) : Forward state state := ⟨rfl, [], rfl, rfl⟩

/-- Two moves forward are one. -/
theorem trans (h : Forward before middle) (h' : Forward middle after) : Forward before after := by
  obtain ⟨read, hread, hposition⟩ := h.read
  obtain ⟨more, hmore, hposition'⟩ := h'.read
  refine ⟨h'.depth.trans h.depth, read ++ more, ?_, ?_⟩
  · rw [hread, hmore, List.append_assoc]
  · rw [hposition', hposition, List.length_append, Nat.add_assoc]

/-- Passing tokens over is a move forward. -/
theorem pass (n : Nat) (state : State) : Forward state (State.pass n state) := by
  induction n generalizing state with
  | zero => exact .refl state
  | succ n ih =>
    rw [State.pass]
    split
    · exact .refl state
    · next token rest hr =>
      have hnext : Forward state { state with
          rest, position := state.position + 1, previousEnd := token.span.stop } :=
        ⟨rfl, [token], hr, rfl⟩
      exact hnext.trans (ih _)

/-- No token is read twice, and none behind the last one. -/
theorem position_le (h : Forward before after) :
    before.position ≤ after.position ∧
      after.position + after.rest.length = before.position + before.rest.length := by
  obtain ⟨read, hread, hposition⟩ := h.read
  rw [hposition, hread, List.length_append]
  omega

end Forward

/-! ## Parsers that are the same from a depth on -/

section
variable {α β : Type} {context : Context} {depth : Nat}

/-- In states that are at least so deep the parsers do the same, and go forward. -/
def Coincide (context : Context) (depth : Nat) (parser other : Parser α) : Prop :=
  ∀ state : State, depth ≤ state.depth →
    other context state = parser context state ∧ Forward state (ending (parser context state))

namespace Coincide

variable {parser other : Parser α}

/-- A parser that moves forward coincides with itself. -/
theorem refl (h : ∀ state, Forward state (ending (parser context state))) :
    Coincide context depth parser parser := fun state _ => ⟨rfl, h state⟩

/-- An answer coincides with itself. -/
theorem pure {value : α} : Coincide context depth (pure value) (pure value) :=
  .refl fun state => .refl state

/-- A failure coincides with itself. -/
theorem throw {stop : Stop} : Coincide context depth (throw stop : Parser α) (throw stop) :=
  .refl fun state => .refl state

/-- So does a change of the state that moves forward. -/
theorem modify {change : State → State} (h : ∀ state, Forward state (change state)) :
    Coincide context depth (modify change : Parser Unit) (modify change) := .refl h

/-- Parsers that coincide do so in sequence. -/
theorem bind {next next' : α → Parser β} (h : Coincide context depth parser other)
    (hn : ∀ value, Coincide context depth (next value) (next' value)) :
    Coincide context depth (parser >>= next) (other >>= next') := by
  intro state hd
  obtain ⟨heq, hs⟩ := h state hd
  cases hr : parser context state with
  | ok value middle =>
    rw [hr] at heq hs
    obtain ⟨heq', hs'⟩ := hn value middle (hs.depth ▸ hd)
    rw [bind_of_ok hr, bind_of_ok heq]
    exact ⟨heq', hs.trans hs'⟩
  | error failure middle =>
    rw [hr] at heq hs
    rw [bind_of_error hr, bind_of_error heq]
    exact ⟨rfl, hs⟩

/-- The state is the same in both parsers. -/
theorem get {next next' : State → Parser β}
    (hn : ∀ state, Coincide context depth (next state) (next' state)) :
    Coincide context depth (get >>= next) (get >>= next') := fun state => hn state state

/-- So is the context. -/
theorem read {next next' : Context → Parser β}
    (hn : Coincide context depth (next context) (next' context)) :
    Coincide context depth (read >>= next) (read >>= next') := hn

/-- A choice coincides with a choice on the same condition if both sides do. -/
theorem ite {c : Prop} [Decidable c] {yes no yes' no' : Parser α}
    (hy : Coincide context depth yes yes') (hn : Coincide context depth no no') :
    Coincide context depth (if c then yes else no) (if c then yes' else no') := by
  split
  · exact hy
  · exact hn

/-- Parsers that coincide deeper down do so between the changes that lead there and back. -/
theorem around {inside : Nat} {enter leave : State → State}
    (henter : ∀ state, depth ≤ state.depth → inside ≤ (enter state).depth)
    (hleave : ∀ state after, Forward (enter state) after → Forward state (leave after))
    (h : Coincide context inside parser other) :
    Coincide context depth (around enter leave parser) (around enter leave other) := by
  intro state hd
  obtain ⟨heq, hs⟩ := h (enter state) (henter state hd)
  unfold Grammar.around
  rw [heq]
  refine ⟨rfl, ?_⟩
  cases hr : parser context (enter state) with
  | ok value middle | error failure middle =>
    rw [hr] at hs
    exact hleave state middle hs

/-- Parsers that coincide do so when their failures are caught. -/
theorem attempt (h : Coincide context depth parser other) :
    Coincide context depth (attempt parser) (attempt other) := by
  intro state hd
  obtain ⟨heq, hs⟩ := h state hd
  unfold Grammar.attempt
  rw [heq]
  refine ⟨rfl, ?_⟩
  cases hr : parser context state with
  | ok value middle =>
    rw [hr] at hs
    exact hs
  | error failure middle =>
    rw [hr] at hs
    cases failure <;> exact hs

/-- Loops along the same tokens coincide if their rounds do. -/
theorem iterateAlong {round round' : α → Parser (Turn α β)}
    (h : ∀ value, Coincide context depth (round value) (round' value)) (tokens : List Token)
    (value : α) :
    Coincide context depth (iterateAlong round tokens value)
      (iterateAlong round' tokens value) := by
  induction tokens generalizing value with
  | nil =>
    refine .bind (h value) fun turn => ?_
    cases turn with
    | done result => exact .pure
    | again value => exact .throw
  | cons token tokens ih =>
    refine .bind (h value) fun turn => ?_
    cases turn with
    | done result => exact .pure
    | again value => exact ih value

/-- Loops coincide if their rounds do. -/
theorem iterate {round round' : α → Parser (Turn α β)}
    (h : ∀ value, Coincide context depth (round value) (round' value)) (value : α) :
    Coincide context depth (iterate round value) (iterate round' value) :=
  .get fun state => iterateAlong h state.rest value

/-! ## Pieces -/

/-- The same tokens are passed by both. -/
theorem passOver {n : Nat} : Coincide context depth (passOver n) (passOver n) :=
  .modify (Forward.pass n)

/-- The same report is made by both. -/
theorem report {code : Code} {span : Span} {message : String} :
    Coincide context depth (report code span message) (report code span message) :=
  .modify fun _ => ⟨rfl, [], rfl, rfl⟩

/-- The span of the token at hand is read by both. -/
theorem currentSpan : Coincide context depth currentSpan currentSpan :=
  .refl fun state => currentSpan_eq context state ▸ .refl state

/-- The next kind is looked at by both. -/
theorem peek : Coincide context depth peek peek := .refl fun state => .refl state

/-- The same syntax error is reported, or suppressed, by both. -/
theorem reportSyntax {message : String} :
    Coincide context depth (reportSyntax message) (reportSyntax message) := by
  refine .bind (.get fun state => .read ?_) fun suppressed => ?_
  · cases state.resync with
    | none => exact .pure
    | some resync => exact .ite .pure (.ite .pure .throw)
  · refine .bind (.get fun state => .pure) fun seen => .ite .pure ?_
    exact .bind .currentSpan fun span => .report

/-- Both fail with the same syntax error. -/
theorem failSyntax {message : String} :
    Coincide context depth (failSyntax message : Parser α) (failSyntax message) :=
  .bind .reportSyntax fun _ => .throw

/-- The same node is placed by both. -/
theorem place {kind : NodeKind Placed} {span : Span} :
    Coincide context depth (place kind span) (place kind span) := by
  refine .refl fun state => ?_
  unfold Grammar.place
  rw [get_bind]
  cases state.builder.push (kind.map Placed.id) span with
  | ok pushed => exact ⟨rfl, [], rfl, rfl⟩
  | error fault => exact .refl state

/-- So is a node that began earlier. -/
theorem placeFrom {start : Span} {kind : NodeKind Placed} :
    Coincide context depth (placeFrom start kind) (placeFrom start kind) :=
  .bind (.read (.get fun _ => .pure)) fun _ => .place

/-- The type of an angle is changed by both. -/
theorem retagAngle {node : Placed} :
    Coincide context depth (retagAngle node) (retagAngle node) := by
  unfold Grammar.retagAngle
  split
  · exact .bind (.modify fun _ => ⟨rfl, [], rfl, rfl⟩) fun _ => .pure
  · exact .pure

/-- The same name is declared by both. -/
theorem declare {name : Placed} : Coincide context depth (declare name) (declare name) := by
  refine .get fun state => ?_
  split
  · split <;> exact .modify fun _ => ⟨rfl, [], rfl, rfl⟩
  · exact .pure

/-- Both stop at the same overflow. -/
theorem overflow : Coincide context depth (overflow : Parser α) overflow := by
  refine .refl fun state => ?_
  rw [overflow_eq]
  show Forward state (if state.unwinding.isNone then state.overflown context else state)
  split
  · exact ⟨rfl, [], rfl, rfl⟩
  · exact .refl state

/-- A parser in a block or a scope of its own. -/
theorem framed {enter leave : State → State}
    (henter : ∀ state, Forward state (enter state)) (hleave : ∀ state, Forward state (leave state))
    (h : Coincide context depth parser other) :
    Coincide context depth (Grammar.around enter leave parser) (Grammar.around enter leave other) :=
  .around (fun state hd => (henter state).depth ▸ hd)
    (fun state after hinside => ((henter state).trans hinside).trans (hleave after)) h

/-- Within a brace, parsers coincide that do so outside. -/
theorem blockOpen (h : Coincide context depth parser other) :
    Coincide context depth (blockOpen parser) (blockOpen other) :=
  .framed (fun _ => ⟨rfl, [], rfl, rfl⟩) (fun _ => ⟨rfl, [], rfl, rfl⟩) h

/-- Within a scope, parsers coincide that do so outside. -/
theorem inScope (h : Coincide context depth parser other) :
    Coincide context depth (inScope parser) (inScope other) :=
  .framed (fun _ => ⟨rfl, [], rfl, rfl⟩) (fun _ => ⟨rfl, [], rfl, rfl⟩) h

/-- Parsers need only be the same one level deeper. -/
theorem nested (h : Coincide context (depth + 1) parser other) :
    Coincide context depth (nested parser) (nested other) := by
  refine .read (.get fun state => .ite .overflow ?_)
  refine .around (fun state hd => Nat.succ_le_succ hd) (fun state after hinside => ?_) h
  obtain ⟨hdepth, hread⟩ := hinside
  exact ⟨by show after.depth - 1 = state.depth; rw [hdepth]; rfl, hread⟩

/-- Where the limit is reached, what is nested is not run. -/
theorem nested_of_le (h : context.options.maxDepth ≤ depth) :
    Coincide context depth (Grammar.nested parser) (Grammar.nested other) := by
  intro state hd
  have hle := Nat.le_trans h hd
  rw [Grammar.nested_of_le hle, Grammar.nested_of_le hle]
  exact overflow state hd

end Coincide

/-! ## Productions -/

variable {has : Feature → Prop} {inner inner' : Level}

/-- What is composed of the same productions is the same. -/
theorem Composed.coincide {parser : Level → Parser α} (hc : Composed has parser)
    (h : ∀ production, Coincide context depth (inner production) (inner' production)) :
    Coincide context depth (parser inner) (parser inner') := by
  induction hc with
  | inner production hr => exact h production
  | blockItems => exact (h .blockItems).blockOpen
  | pure => exact .pure
  | bind _ _ ih ihn => exact .bind ih ihn
  | looking _ ih => exact fun state => ih (state.view context) state
  | iterate _ ih => exact .iterate ih _
  | blockOpen _ ih => exact ih.blockOpen
  | inScope _ _ ih => exact ih.inScope
  | failSyntax => exact .failSyntax
  | passOver => exact .passOver
  | report => exact .report
  | misread => exact .bind .report fun _ => .place
  | overflows => exact .throw
  | place => exact .place
  | retagAngle => exact .retagAngle
  | declare => exact .declare
  | setVersion => exact .modify fun _ => ⟨rfl, [], rfl, rfl⟩
  | requireVersion3 => exact .get fun _ => .ite .report .pure
  | deprecated => exact .get fun _ => .ite .pure (.modify fun _ => ⟨rfl, [], rfl, rfl⟩)

/-- What is done about a failure does not look at the levels. -/
theorem afterStop_coincide {mark before : Nat} {start : Span} :
    Coincide context depth (afterStop mark before start) (afterStop mark before start) := by
  refine .bind (.modify fun _ => ⟨rfl, [], rfl, rfl⟩) fun _ state hd => ?_
  rw [get_bind]
  dsimp only
  split
  · exact ⟨rfl, .refl state⟩
  · have hrest (opened : Nat) : Coincide context depth
        (synchronize before opened >>= fun _ => placeFrom start .error)
        (synchronize before opened >>= fun _ => placeFrom start .error) := by
      refine .bind (.get fun state => .bind .passOver fun _ => ?_) fun _ => .placeFrom
      exact .modify fun _ => ⟨rfl, [], rfl, rfl⟩
    rw [set_bind]
    have hnone : Forward state { state with unwinding := none } := ⟨rfl, [], rfl, rfl⟩
    exact ⟨rfl, hnone.trans (hrest _ { state with unwinding := none } hd).2⟩

/-- A statement, or the node left in its place, is the same over levels that coincide. -/
theorem statementOrError_coincide
    (h : ∀ production, Coincide context depth (inner production) (inner' production)) :
    Coincide context depth (statementOrError inner) (statementOrError inner') := by
  rw [statementOrError_eq, statementOrError_eq]
  refine .get fun mark => .get fun before => .bind .currentSpan fun start => ?_
  refine .bind (statement_composed.coincide h).attempt fun node => ?_
  cases node with
  | some node => exact .pure
  | none => exact afterStop_coincide

/-- So is each production. -/
theorem parse_coincide (production : Production)
    (h : ∀ production, Coincide context depth (inner production) (inner' production)) :
    Coincide context depth (production.parse inner) (production.parse inner') := by
  by_cases hb : production = .blockItems
  · subst hb
    refine .inScope (.iterate (fun items => .bind .peek fun next => ?_) [])
    split
    · exact .pure
    · exact .pure
    · exact .bind (statementOrError_coincide h) fun item => .pure
  · exact (parse_composed hb).coincide h

/-- So are the items of a program. -/
theorem programItems_coincide
    (h : ∀ production, Coincide context depth (inner production) (inner' production)) :
    Coincide context depth (programItems inner) (programItems inner') := by
  refine .iterate (fun items => .bind .peek fun next => ?_) []
  split
  · exact .pure
  · exact .bind .reportSyntax fun _ => .bind .passOver fun _ => .pure
  · refine .bind (statementOrError_coincide h).attempt fun item => ?_
    cases item <;> exact .pure

/-! ## Levels -/

/-- So many levels of productions over others. -/
def levelOver (bottom : Level) : Nat → Level
  | 0 => bottom
  | levels + 1 => fun production => nested (production.parse (levelOver bottom levels))

/-- A whole program, over so many levels of productions and what stands below them. -/
def programOver (bottom : Level) (levels : Nat) : Parser Placed := do
  let context ← read
  let items ← programItems (levelOver bottom levels)
  place (.program items) ⟨context.source, 0, min (Text.width context.text) maxOffset⟩

/-- Each production on each level moves forward. -/
theorem level_forward (levels : Nat) (production : Production) :
    Coincide context 0 (level levels production) (level levels production) := by
  induction levels generalizing production with
  | zero => exact .throw
  | succ levels ih =>
    have hdeep : Coincide context 1 (production.parse (level levels))
        (production.parse (level levels)) :=
      parse_coincide production fun production state _ => ih production state (Nat.zero_le _)
    exact .nested hdeep

/-- Whatever is composed of the productions of a level goes forward. -/
theorem Composed.forward {parser : Level → Parser α} (hc : Composed has parser) (levels : Nat)
    (state : State) : Forward state (ending (parser (level levels) context state)) :=
  (hc.coincide (level_forward levels) state (Nat.zero_le _)).2

/-- So does the reader of one item, also where it recovers. -/
theorem statementOrError_forward (levels : Nat) (state : State) :
    Forward state (ending (statementOrError (level levels) context state)) :=
  (statementOrError_coincide (level_forward levels) state (Nat.zero_le _)).2

/-- What stands below the levels that the limit leaves is not run. -/
theorem level_coincide (bottom : Level) {levels : Nat}
    (h : context.options.maxDepth ≤ depth + levels) (production : Production) :
    Coincide context depth (level (levels + 1) production)
      (levelOver bottom (levels + 1) production) := by
  induction levels generalizing depth production with
  | zero => exact .nested_of_le h
  | succ levels ih =>
    refine .nested (parse_coincide production fun production => ih ?_ production)
    omega

/-- Whatever stands under the lowest level, it is never reached: the levels are as many as the limit
of the depth. -/
theorem program_coincide (bottom : Level) :
    Coincide context 0 program (programOver bottom (context.options.maxDepth + 1)) := by
  have hitems : Coincide context 0 (programItems (level (context.options.maxDepth + 1)))
      (programItems (levelOver bottom (context.options.maxDepth + 1))) :=
    programItems_coincide (level_coincide bottom (Nat.le_add_left _ 0))
  exact .read (hitems.bind fun items => .place)

end

/-! ## Texts -/

section
variable {source : SourceId} {text : List Char} {options : ParseOptions} {levels : Nat}
  {call after : State} {node : Placed}

/-- A statement that a parse yields, or an error in its place, takes a token. -/
theorem statementOrError_advances (h : Begins source text options levels call)
    (hok : statementOrError (level levels) ⟨source, text, options⟩ call = .ok node after) :
    call.position < after.position := by
  obtain ⟨hready, token, rest, hr, hk⟩ := h.ready
  have hruns := Reading.statementOrError_runs (Reading.level_spec id) hready hr hk nofun
  unfold Reading.Runs at hruns
  rw [show (Reading.ofText source text options).context = ⟨source, text, options⟩ from rfl, hok]
    at hruns
  have hlt : after.rest.length < call.rest.length := Reading.Yields.length_rest_lt hruns
  have hending : ending (statementOrError (level levels) ⟨source, text, options⟩ call) = after :=
    congrArg ending hok
  have hforward : Forward call after := hending ▸ statementOrError_forward levels call
  have := hforward.position_le
  omega

end

end OpenQasm.Grammar
